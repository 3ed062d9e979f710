/-
Whether a text is a reference to a resource, as namespace names have to be: an address with a scheme,
or one that is relative to another.
-/
import Rebind.Text.Basic

namespace Rebind.Markup.Reference

def isHex (c : Char) : Bool :=
  c.isDigit || ('a' ≤ c && c ≤ 'f') || ('A' ≤ c && c ≤ 'F')

/-- The characters that never have a meaning of their own, and the ones that may separate parts of a
name. -/
def isPlain (c : Char) : Bool :=
  c.isAlphanum || "-._~!$&'()*+,;=".toList.contains c

/-- What follows the longest run of plain characters, characters of `extra` and percent signs with
two hexadecimal digits. -/
def skip (extra : Text) : (t : Text) → Text
  | '%' :: a :: b :: t => if isHex a && isHex b then skip extra t else '%' :: a :: b :: t
  | c :: t => if isPlain c || extra.contains c then skip extra t else c :: t
  | [] => []

def maxNumber : Nat := 2147483647

def afterNumber? : (t : Text) → Option Text
  | ':' :: t =>
    let digits := t.takeWhile Char.isDigit
    if digits.isEmpty || maxNumber < Text.valueOf digits then none
    else some (t.dropWhile Char.isDigit)
  | t => some t

/-- What follows a number of an address in four parts. It has one digit, two digits of which the
first is not zero, or three digits from 100 to 259. -/
def afterPart? (t : Text) : Option Text :=
  match t.takeWhile Char.isDigit with
  | [_] => some (t.drop 1)
  | [a, _] => if a == '0' then none else some (t.drop 2)
  | a :: b :: _ :: _ => if a == '1' || (a == '2' && b ≤ '5') then some (t.drop 3) else none
  | [] => none

/-- What follows a dot. -/
def afterDot? : (t : Text) → Option Text
  | '.' :: t => some t
  | _ => none

def afterAddress? (t : Text) : Option Text :=
  afterPart? t >>= afterDot? >>= afterPart? >>= afterDot? >>= afterPart? >>= afterDot? >>= afterPart?

/-- What follows a host: anything in square brackets, an address in four parts, or a run of plain
characters. -/
def afterHost? : (t : Text) → Option Text
  | '[' :: t =>
    match t.dropWhile (· != ']') with
    | _ :: rest => some rest
    | [] => none
  | t => (afterAddress? t).getD (skip [] t)

def afterUser (t : Text) : Text :=
  match skip [':'] t with
  | '@' :: rest => rest
  | _ => t

/-- A question mark with a query and a number sign with a fragment may follow, and nothing else. -/
def endsWell (t : Text) : Bool :=
  let rest :=
    match t with
    | '?' :: t => skip [':', '@', '/', '?'] t
    | t => t
  match rest with
  | '#' :: t => (skip [':', '@', '/', '?', '[', ']'] t).isEmpty
  | t => t.isEmpty

def pathEndsWell (t : Text) : Bool :=
  endsWell (if t.head? = some '/' then skip [':', '@', '/'] t else t)

def authorityEndsWell (t : Text) : Bool :=
  match afterHost? (afterUser t) >>= afterNumber? with
  | some rest => pathEndsWell rest
  | none => false

def hierarchyEndsWell : (t : Text) → Bool
  | '/' :: '/' :: t => authorityEndsWell t
  | t => endsWell (skip [':', '@', '/'] t)

/-- What follows a scheme and its colon. -/
def afterScheme? : (t : Text) → Option Text
  | [] => none
  | c :: t =>
    if c.isAlpha then
      match t.dropWhile fun d => d.isAlphanum || d == '+' || d == '-' || d == '.' with
      | ':' :: rest => some rest
      | _ => none
    else none

def isAbsolute (t : Text) : Bool := (afterScheme? t).any hierarchyEndsWell

/-- A reference without scheme: no colon but one at its start comes before its first slash. -/
def isRelative : (t : Text) → Bool
  | '/' :: '/' :: t => authorityEndsWell t
  | t =>
    match skip ['@'] (if t.head? = some ':' then t.drop 1 else t) with
    | '/' :: rest => endsWell (skip [':', '@', '/'] rest)
    | rest => endsWell rest

end Rebind.Markup.Reference

namespace Rebind.Markup

def isAbsolute (t : Text) : Bool := Reference.isAbsolute t

def isReference (t : Text) : Bool := isAbsolute t || Reference.isRelative t

end Rebind.Markup
