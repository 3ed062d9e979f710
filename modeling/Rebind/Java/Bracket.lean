/-
Brackets: the partner of an opening one, and splitting outside of them.
-/
import Rebind.Java.Error

namespace Rebind.Java

open Text

def closerOf? : Char → Option Char
  | '(' => some ')'
  | '{' => some '}'
  | '[' => some ']'
  | _ => none

/-- The offset of the `closer` that brings the count of open `opener`s back to zero, where `depth`
of them are open and `t` stands at offset `pos`. -/
def closeAfter (opener closer : Char) : (depth pos : Nat) → (t : Text) → Option Nat
  | _, _, [] => none
  | depth, pos, c :: t =>
    if c == opener then closeAfter opener closer (depth + 1) (pos + 1) t
    else if c == closer then
      if depth ≤ 1 then some pos else closeAfter opener closer (depth - 1) (pos + 1) t
    else closeAfter opener closer depth (pos + 1) t

/-- The offset of the bracket that closes the one at offset `i`, found by counting the brackets of its own kind only. -/
def partner (masked : Text) (i : Nat) : Except ReadError Nat :=
  match masked.drop i with
  | [] => .error .endOfText
  | opener :: rest =>
    match closerOf? opener with
    | none => .error (.noBracket i)
    | some closer =>
      match closeAfter opener closer 1 (i + 1) rest with
      | some j => .ok j
      | none => .error (.unbalanced opener i)

def bracketStep (opens closes : List Char) (c : Char) : Int :=
  if opens.contains c then 1 else if closes.contains c then -1 else 0

def openers : List Char := ['(', '{', '[']

def closers : List Char := [')', '}', ']']

/-- Cuts a text at a separator wherever the brackets passed so far balance; the count may go below zero, and then
nothing is cut until it comes back. -/
def splitOutside (opens closes : List Char) (sep : Char) : (depth : Int) → (t : Text) → List Text
  | _, [] => [[]]
  | depth, c :: t =>
    if c == sep && depth == 0 then [] :: splitOutside opens closes sep depth t
    else
      match splitOutside opens closes sep (depth + bracketStep opens closes c) t with
      | [] => [[c]]
      | p :: ps => (c :: p) :: ps

def splitDeclarators (t : Text) : List Text :=
  splitOutside ('<' :: openers) ('>' :: closers) ',' 0 t

def semicolonAfter? : (depth : Int) → (pos : Nat) → (t : Text) → Option Nat
  | _, _, [] => none
  | depth, pos, c :: t =>
    if c == ';' && depth == 0 then some (pos + 1)
    else semicolonAfter? (depth + bracketStep openers closers c) (pos + 1) t

def declarationEnd (masked : Text) (i stop : Nat) : Except ReadError Nat :=
  match semicolonAfter? 0 i (slice masked i stop) with
  | some j => .ok j
  | none => .error (.unterminatedDeclaration stop)

end Rebind.Java
