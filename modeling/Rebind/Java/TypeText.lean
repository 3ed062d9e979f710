/-
The words of a declaration: modifiers, the spelling of types, and the name at the end.
-/
import Rebind.Text.Search

namespace Rebind.Java

open Text

def modifierWords : List Text :=
  ["public", "protected", "private", "static", "final", "abstract", "synchronized", "native",
   "transient", "volatile", "strictfp", "default", "sealed", "non-sealed"]

def namesIn (t : Text) : List Text :=
  (allMatches t 0 t.length Before.anywhere name?).map (·.value)

def leadingModifiers (words : List Text) : List Text := words.takeWhile modifierWords.contains

def modifier? (t : Text) : Option Text :=
  modifierWords.findSome? fun word => (after? word t).bind someBlanks?

def dropModifiers (t : Text) : Text :=
  match modifier? t with
  | some rest => if rest.length < t.length then dropModifiers rest else rest
  | none => t
termination_by t.length

/-- Every run of blanks as one space. -/
def singleSpaced : (t : Text) → Text
  | [] => []
  | c :: t =>
    if isBlank c then
      match singleSpaced t with
      | ' ' :: rest => ' ' :: rest
      | rest => ' ' :: rest
    else c :: singleSpaced t

def isTypeBracket (c : Char) : Bool := c == '<' || c == '>' || c == '[' || c == ']'

def tightBrackets : (t : Text) → Text
  | [] => []
  | c :: t =>
    if isTypeBracket c then c :: dropBlanks (tightBrackets t)
    else if isBlank c && (dropBlanks t).head?.any isTypeBracket then tightBrackets t
    else c :: tightBrackets t

def spacedCommas : (t : Text) → Text
  | [] => []
  | c :: t =>
    if c == ',' then ',' :: ' ' :: dropBlanks (spacedCommas t)
    else if isBlank c && (dropBlanks t).head? == some ',' then spacedCommas t
    else c :: spacedCommas t

def normalType (t : Text) : Text := spacedCommas (tightBrackets (strip (singleSpaced t)))

theorem length_dropBlanks_le (t : Text) : (dropBlanks t).length ≤ t.length :=
  (List.dropWhile_sublist _).length_le

/-- How many pairs of array brackets a text ends with, and what precedes them. Both texts are
given last character first. -/
def arraySuffix (back : Text) : Nat × Text :=
  match _h : dropBlanks back with
  | ']' :: inner =>
    match _h' : dropBlanks inner with
    | '[' :: outer => let (n, front) := arraySuffix outer; (n + 1, front)
    | _ => (0, dropBlanks back)
  | front => (0, front)
termination_by back.length
decreasing_by
  have h1 := length_dropBlanks_le back
  have h2 := length_dropBlanks_le inner
  simp only [_h, _h', List.length_cons] at h1 h2
  omega

/-- What precedes the last word of a text, the word, and the number of array bracket pairs that
follow it. -/
def lastWord? (t : Text) : Option (Text × Text × Nat) :=
  let (arrays, back) := arraySuffix t.reverse
  let word := back.takeWhile isWord
  if word.isEmpty then none
  else some ((back.drop word.length).reverse, word.reverse, arrays)

def arrayBrackets (n : Nat) : Text := (List.replicate n "[]".toList).flatten

def afterTypeParameters? : (t : Text) → Option Text
  | [] => none
  | c :: t =>
    if c == '(' then none
    else if c == '>' && (dropBlanks t).head?.any isWord then some (dropBlanks t)
    else afterTypeParameters? t

def dropTypeParameters (t : Text) : Text :=
  match dropBlanks t with
  | '<' :: rest => (afterTypeParameters? rest).getD t
  | _ => t

end Rebind.Java
