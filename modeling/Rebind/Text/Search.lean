/-
Searching a text for what a recogniser accepts.
-/
import Rebind.Text.Blank
import Rebind.Text.Word

namespace Rebind.Text

/-- Looks at a text and, where it accepts a beginning of it, gives a value and the rest. -/
abbrev Recogniser (α : Type) := Text → Option (α × Text)

/-- Whether a recogniser is tried at an offset may depend on the character before, which belongs to the searched text
even when it stands in front of the searched range. -/
abbrev Before := Option Char → Bool

/-- What was recognised, and where. -/
structure Match (α : Type) where
  start : Nat
  stop : Nat
  value : α

namespace Before

def wordStart : Before := fun c => !c.any isWord

def nameStart : Before := fun c => !c.any isNamePart

def unqualified : Before := fun c => !c.any fun d => isNamePart d || d == '.'

def lineStart : Before := fun c => c.all (· == '\n')

def anywhere : Before := fun _ => true

end Before

def charBefore (t : Text) : (pos : Nat) → Option Char
  | 0 => none
  | pos + 1 => t[pos]?

def matchHere {α : Type} (before : Before) (r : Recogniser α) (prev : Option Char) (pos : Nat)
    (t : Text) : Option (Match α) :=
  if before prev then
    (r t).map fun (value, rest) => ⟨pos, pos + (t.length - rest.length), value⟩
  else none

def searchFrom {α : Type} (before : Before) (r : Recogniser α) :
    (prev : Option Char) → (pos : Nat) → (t : Text) → Option (Match α)
  | prev, pos, [] => matchHere before r prev pos []
  | prev, pos, c :: t =>
    match matchHere before r prev pos (c :: t) with
    | some m => some m
    | none => searchFrom before r (some c) (pos + 1) t

/-- The matches in `t`, which stands at offset `pos` after `prev`, the first `skip` characters
left out. An empty match is followed by a search from the next offset. -/
def matchesFrom {α : Type} (before : Before) (r : Recogniser α) :
    (skip : Nat) → (prev : Option Char) → (pos : Nat) → (t : Text) → List (Match α)
  | skip, prev, pos, [] => if skip = 0 then (matchHere before r prev pos []).toList else []
  | skip + 1, _, pos, c :: t => matchesFrom before r skip (some c) (pos + 1) t
  | 0, prev, pos, c :: t =>
    match matchHere before r prev pos (c :: t) with
    | some m => m :: matchesFrom before r (m.stop - m.start - 1) (some c) (pos + 1) t
    | none => matchesFrom before r 0 (some c) (pos + 1) t

/-- The leftmost match. -/
def search {α : Type} (t : Text) (s e : Nat) (before : Before) (r : Recogniser α) :
    Option (Match α) :=
  searchFrom before r (charBefore t s) s (slice t s e)

/-- The matches one after the other, each search going on where the last match ended. -/
def allMatches {α : Type} (t : Text) (s e : Nat) (before : Before) (r : Recogniser α) :
    List (Match α) :=
  matchesFrom before r 0 (charBefore t s) s (slice t s e)

/-- `t` with every match replaced by `new`, the first `skip` characters left out and `prev` standing
before it. The recogniser is taken to accept no empty beginning. -/
def replaceFrom (before : Before) (r : Recogniser Unit) (new : Text) :
    (skip : Nat) → (prev : Option Char) → (t : Text) → Text
  | _, _, [] => []
  | skip + 1, _, c :: t => replaceFrom before r new skip (some c) t
  | 0, prev, c :: t =>
    match matchHere before r prev 0 (c :: t) with
    | some m => new ++ replaceFrom before r new (m.stop - 1) (some c) t
    | none => c :: replaceFrom before r new 0 (some c) t

def replaceAll (t : Text) (before : Before) (r : Recogniser Unit) (new : Text) : Text :=
  replaceFrom before r new 0 none t

def firstWithin? (t : Text) (s e : Nat) (p : Char → Bool) : Option Nat :=
  match (slice t s e).dropWhile (fun c => !p c) with
  | [] => none
  | rest => some (s + ((slice t s e).length - rest.length))

def run? (p : Char → Bool) : Recogniser Text
  | [] => none
  | c :: t => if p c then some (c :: t.takeWhile p, t.dropWhile p) else none

/-- A name: an ASCII letter, underscore or dollar sign, then all name characters that follow. -/
def name? : Recogniser Text
  | [] => none
  | c :: t => if isNameStart c then some (c :: t.takeWhile isNamePart, t.dropWhile isNamePart)
    else none

def wordEnds : (t : Text) → Bool
  | [] => true
  | c :: _ => !isWord c

def nameEnds : (t : Text) → Bool
  | [] => true
  | c :: _ => !isNamePart c

def exactName? (n : Text) : Recogniser Unit := fun t =>
  match after? n t with
  | some rest => if nameEnds rest then some ((), rest) else none
  | none => none

def dot? (t : Text) : Option Text := (after? "." (dropBlanks t)).map dropBlanks

def spaced? (p : Text) (t : Text) : Option Text := after? p (dropBlanks t)

end Rebind.Text
