/-
Patterns for paths.
-/
import Rebind.Text.Basic

namespace Rebind.Settings

/-- An asterisk stands for any characters, slashes included, a question mark for one, and characters in square brackets
for one of them. -/
inductive GlobPart where
  | any
  /-- One character that lies in one of the ranges, or in none of them if `negated`. -/
  | one (negated : Bool) (ranges : List (Char × Char))
deriving DecidableEq, Repr

namespace GlobPart

def exactly (c : Char) : GlobPart := one false [(c, c)]

def anyOne : GlobPart := one true []

def accepts : GlobPart → Char → Bool
  | any, _ => true
  | one negated ranges, c =>
    negated != ranges.any fun r => decide (r.1.toNat ≤ c.toNat) && decide (c.toNat ≤ r.2.toNat)

end GlobPart

/-- The texts between the hyphens of a bracket that part the ends of a range. The first `guarded`
characters of `t` are not looked at: a hyphen there stands for itself, and so does one right behind a
range. `held` has the characters of the present text, last first. -/
def chunksFrom : (guarded : Nat) → (held : Text) → (t : Text) → List Text
  | _, held, [] => [held.reverse]
  | guarded + 1, held, c :: t => chunksFrom guarded (c :: held) t
  | 0, held, c :: t => if c == '-' then held.reverse :: chunksFrom 2 [] t else chunksFrom 0 (c :: held) t

def closeChunks : List Text → List Text
  | [a, []] => [a ++ ['-']]
  | a :: rest => a :: closeChunks rest
  | [] => []

/-- The texts with the ends of backward ranges taken out, which joins the texts around them. -/
def dropBackward : List Text → List Text
  | [] => []
  | a :: rest =>
    match dropBackward rest with
    | b :: more =>
      match a.getLast?, b with
      | some lo, hi :: tail => if hi.toNat < lo.toNat then (a.dropLast ++ tail) :: more else a :: b :: more
      | _, _ => a :: b :: more
    | [] => [a]

/-- The ranges of texts with hyphens between them; the other characters stand for themselves. -/
def rangesOf : List Text → List (Char × Char)
  | [] => []
  | [a] => a.map fun c => (c, c)
  | a :: b :: rest =>
    match a.getLast?, b.head? with
    | some lo, some hi => (a.map fun c => (c, c)) ++ (lo, hi) :: rangesOf (b :: rest)
    | _, _ => (a.map fun c => (c, c)) ++ rangesOf (b :: rest)

/-- A hyphen between two characters stands for all from the first to the second; a range that runs backwards holds
nothing. An exclamation mark at the start stands for all characters but those that follow. -/
def bracketPart (t : Text) : GlobPart :=
  let guarded := if t.head? = some '!' then 2 else 1
  match dropBackward (closeChunks (chunksFrom guarded [] t)) with
  | ('!' :: first) :: rest => .one true (rangesOf (first :: rest))
  | chunks => .one false (rangesOf chunks)

/-- The text of a bracket up to its end, and what follows. An exclamation mark and a closing bracket at
the start do not end it. -/
def bracketText? (t : Text) : Option (Text × Text) :=
  let start :=
    match t with
    | '!' :: ']' :: _ => 2
    | '!' :: _ => 1
    | ']' :: _ => 1
    | _ => 0
  match (t.drop start).dropWhile (· != ']') with
  | _ :: rest => some (t.take start ++ (t.drop start).takeWhile (· != ']'), rest)
  | [] => none

/-- A bracket that is never closed stands for itself. -/
def globParts (t : Text) : List GlobPart :=
  match t with
  | [] => []
  | '*' :: t =>
    match globParts t with
    | .any :: rest => .any :: rest
    | rest => .any :: rest
  | '?' :: t => .anyOne :: globParts t
  | '[' :: t =>
    match bracketText? t with
    | some (text, rest) =>
      if _h : rest.length < t.length then bracketPart text :: globParts rest else []
    | none => .exactly '[' :: globParts t
  | c :: t => .exactly c :: globParts t
termination_by t.length

def suffixes : (t : Text) → List Text
  | [] => [[]]
  | c :: t => (c :: t) :: suffixes t

/-- The parts stand for the whole text. -/
def GlobPart.fit : List GlobPart → (t : Text) → Bool
  | [], t => t.isEmpty
  | .any :: rest, t => (suffixes t).any (fit rest)
  | .one _ _ :: _, [] => false
  | .one negated ranges :: rest, c :: t => (GlobPart.one negated ranges).accepts c && fit rest t

def globMatches (pattern text : Text) : Bool := GlobPart.fit (globParts pattern) text

end Rebind.Settings
