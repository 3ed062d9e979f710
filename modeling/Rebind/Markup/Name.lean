/-
The characters and names of markup documents. A document may hold the characters of `isLegal` and no others.
-/
import Rebind.Text.Basic
import Rebind.Text.Table

namespace Rebind.Markup

def isSpace (c : Char) : Bool := c == ' ' || c == '\t' || c == '\n' || c == '\r'

/-- Tab, line breaks, and everything from the space on but the two last code points of the basic
plane. -/
def isLegal (c : Char) : Bool :=
  if c.toNat < 0x20 then isSpace c else c.toNat != 0xfffe && c.toNat != 0xffff

def isLegalText (t : Text) : Bool := t.all isLegal

/-- The first characters of names. -/
def nameStartTable : Text.Table :=
  [(0x41, 0x5a), (0x5f, 0x5f), (0x61, 0x7a), (0xc0, 0xd6), (0xd8, 0xf6), (0xf8, 0x2ff),
   (0x370, 0x37d), (0x37f, 0x1fff), (0x200c, 0x200d), (0x2070, 0x218f), (0x2c00, 0x2fef),
   (0x3001, 0xd7ff), (0xf900, 0xfdcf), (0xfdf0, 0xfffd), (0x10000, 0xeffff)]

def namePartTable : Text.Table :=
  [(0x2d, 0x2e), (0x30, 0x39), (0xb7, 0xb7), (0x300, 0x36f), (0x203f, 0x2040)]

def isNameStart (c : Char) : Bool := nameStartTable.holds c.toNat

def isNamePart (c : Char) : Bool := isNameStart c || namePartTable.holds c.toNat

/-- A simple name: no colon. -/
def isName : (t : Text) → Bool
  | [] => false
  | c :: t => isNameStart c && t.all isNamePart

def isNameOrColon (c : Char) : Bool := isNamePart c || c == ':'

/-- A simple name starts with a character of `isNameStart` and goes on with characters of `isNamePart`; the colon
belongs to neither, because it stands between the two simple names of a qualified one. -/
def simpleName? : (t : Text) → Option (Text × Text)
  | [] => none
  | c :: t =>
    if isNameStart c then some (c :: t.takeWhile isNamePart, t.dropWhile isNamePart) else none

def name? : (t : Text) → Option (Text × Text)
  | [] => none
  | c :: t =>
    if isNameStart c || c == ':' then
      some (c :: t.takeWhile isNameOrColon, t.dropWhile isNameOrColon)
    else none

structure QName where
  qualifier : Option Text
  base : Text
deriving DecidableEq, Repr

namespace QName

/-- The name as it is written. -/
def text (q : QName) : Text :=
  match q.qualifier with
  | some p => p ++ ':' :: q.base
  | none => q.base

/-- Colons in other places make a name malformed, but it is read all the same. -/
def isWellFormed (q : QName) : Bool := !q.base.contains ':'

end QName

/-- The part of a name behind its first colon, where `qualifier` stands in front. A simple name there
takes the qualifier, with any further colon and what follows it; anything else is one name with it. -/
def afterColon (qualifier : Text) (t : Text) : QName × Text :=
  match simpleName? t with
  | some (base, ':' :: rest) =>
    let (more, rest) := (name? rest).getD ([], rest)
    (⟨some qualifier, base ++ ':' :: more⟩, rest)
  | some (base, rest) => (⟨some qualifier, base⟩, rest)
  | none => (⟨none, qualifier ++ ':' :: t.takeWhile isNameOrColon⟩, t.dropWhile isNameOrColon)

def qname? (t : Text) : Option (QName × Text) :=
  match simpleName? t with
  | some (qualifier, ':' :: rest) => some (afterColon qualifier rest)
  | some (base, rest) => some (⟨none, base⟩, rest)
  | none => (name? t).map fun (name, rest) => (⟨none, name⟩, rest)

end Rebind.Markup
