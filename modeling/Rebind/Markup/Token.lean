/-
Documents as tokens.
-/
import Rebind.Markup.Name

namespace Rebind.Markup

/-- The pieces of a document. -/
inductive Token where
  /-- The start of an element, which `empty` closes at once. -/
  | start (name : QName) (attributes : List (QName × Text)) (empty : Bool)
  | stop (name : Text)
  /-- Characters; `plain` when no reference stands among them. -/
  | chars (text : Text) (plain : Bool)
  | cdata (text : Text)
  | comment (text : Text)
  | instruction (target : Text) (data : Option Text)
deriving DecidableEq, Repr

def unixLines : (t : Text) → Text
  | [] => []
  | '\r' :: '\n' :: t => '\n' :: unixLines t
  | '\r' :: t => '\n' :: unixLines t
  | c :: t => c :: unixLines t

def entities : List (Text × Char) :=
  [("lt", '<'), ("gt", '>'), ("amp", '&'), ("apos", '\''), ("quot", '"')]

def digit (c : Char) : Nat :=
  if c.isDigit then c.toNat - '0'.toNat else c.toLower.toNat - 'a'.toNat + 10

def number? (base : Nat) (isDigit : Char → Bool) (t : Text) : Option Nat :=
  if t.isEmpty || !t.all isDigit then none else some (t.foldl (fun n c => n * base + digit c) 0)

def isHexDigit (c : Char) : Bool :=
  c.isDigit || ('a' ≤ c && c ≤ 'f') || ('A' ≤ c && c ≤ 'F')

def legalChar? (n : Nat) : Option Char :=
  if n.isValidChar then (if isLegal (Char.ofNat n) then some (Char.ofNat n) else none) else none

def referred? : (name : Text) → Option Char
  | '#' :: 'x' :: digits => number? 16 isHexDigit digits >>= legalChar?
  | '#' :: digits => number? 10 Char.isDigit digits >>= legalChar?
  | name => (entities.find? fun p => p.1 == name).map (·.2)

def expand? (t : Text) : Option Text :=
  match Text.pieces '&' t with
  | [] => some []
  | first :: others => do
    let expanded ← others.mapM fun piece => do
      let (name, rest) ← Text.cut? ";" piece
      some ((← referred? name) :: rest)
    some (first ++ expanded.flatten)

def afterEquals? (t : Text) : Option Text :=
  match t.dropWhile isSpace with
  | '=' :: rest => some (rest.dropWhile isSpace)
  | _ => none

def quoted? : (t : Text) → Option (Text × Text)
  | [] => none
  | q :: t =>
    if q == '"' || q == '\'' then
      match t.dropWhile (· != q) with
      | _ :: rest => some (t.takeWhile (· != q), rest)
      | [] => none
    else none

def attributeValue? (raw : Text) : Option Text :=
  if isLegalText raw && !raw.contains '<' then
    expand? (raw.map fun c => if isSpace c then ' ' else c)
  else none

/-- An attribute, and what follows. -/
def attribute? (t : Text) : Option ((QName × Text) × Text) := do
  let (name, rest) ← qname? t
  let (raw, rest) ← quoted? (← afterEquals? rest)
  some ((name, ← attributeValue? raw), rest)

/-- What stands in a start tag behind its name: the attributes, whether the tag closes its element at
once, and what follows. A blank comes before each attribute. -/
def tagTail? (t : Text) : Option (List (QName × Text) × Bool × Text) :=
  match t.dropWhile isSpace with
  | '>' :: rest => some ([], false, rest)
  | '/' :: '>' :: rest => some ([], true, rest)
  | u =>
    if u.length < t.length then
      match attribute? u with
      | some (a, rest) =>
        if _h : rest.length < t.length then
          (tagTail? rest).map fun (others, empty, rest) => (a :: others, empty, rest)
        else none
      | none => none
    else none
termination_by t.length

/-- A comment behind its opening: two hyphens end it, and a closing bracket has to follow them. -/
def commentTail? (t : Text) : Option (Token × Text) := do
  let (text, rest) ← Text.cut? "--" t
  match rest with
  | '>' :: rest => if isLegalText text then some (.comment text, rest) else none
  | _ => none

def cdataTail? (t : Text) : Option (Token × Text) := do
  let (text, rest) ← Text.cut? "]]>" t
  if isLegalText text then some (.cdata text, rest) else none

/-- A processing instruction behind its opening. Its target is in no spelling `xml`; data is parted
from it by blanks. -/
def instructionTail? (t : Text) : Option (Token × Text) := do
  let (target, rest) ← name? t
  if target.map Char.toLower == "xml" then none
  else
    match Text.after? "?>" rest with
    | some rest => some (.instruction target none, rest)
    | none =>
      if rest.head?.any isSpace then
        let (data, rest) ← Text.cut? "?>" (rest.dropWhile isSpace)
        if isLegalText data then some (.instruction target (some data), rest) else none
      else none

/-- An end tag behind its opening. -/
def stopTail? (t : Text) : Option (Token × Text) := do
  let (name, rest) ← name? t
  match rest.dropWhile isSpace with
  | '>' :: rest => some (.stop name, rest)
  | _ => none

/-- A start tag behind its opening. -/
def startTail? (t : Text) : Option (Token × Text) := do
  let (name, rest) ← qname? t
  let (attributes, empty, rest) ← tagTail? rest
  some (.start name attributes empty, rest)

/-- The characters up to the next tag. -/
def chars? (t : Text) : Option (Token × Text) := do
  let raw := t.takeWhile (· != '<')
  if isLegalText raw && !Text.holds raw "]]>" then
    some (.chars (← expand? raw) (!raw.contains '&'), t.dropWhile (· != '<'))
  else none

/-- The first token of a text, and what follows. -/
def token? : (t : Text) → Option (Token × Text)
  | '<' :: '!' :: '-' :: '-' :: t => commentTail? t
  | '<' :: '!' :: t => Text.after? "[CDATA[" t >>= cdataTail?
  | '<' :: '?' :: t => instructionTail? t
  | '<' :: '/' :: t => stopTail? t
  | '<' :: t => startTail? t
  | t => chars? t

/-- Cuts a text, in which a line break is one character, into tags, runs of characters, sections of unparsed characters,
comments and processing instructions. It refuses what no document may hold: illegal characters, unknown references, tags
that are not formed as they have to be. -/
def tokens? (t : Text) : Option (List Token) :=
  if t.isEmpty then some []
  else
    match token? t with
    | some (token, rest) =>
      if _h : rest.length < t.length then (tokens? rest).map (token :: ·) else none
    | none => none
termination_by t.length

end Rebind.Markup
