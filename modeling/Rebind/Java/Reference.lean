/-
Uses of a name in code, and the places where another variable of that name hides it.
-/
import Rebind.Java.Statement

namespace Rebind.Java

open Text

def expressionWords : List Text :=
  ["return", "throw", "case", "else", "yield", "assert", "new", "do", "instanceof"]

def codeBefore (masked : Text) (pos : Nat) : Text := dropBlanks (masked.take pos).reverse

/-- The code before a name, nearest character first, ends in a type, so that the name is
declared. -/
def endsInType : (back : Text) → Bool
  | [] => false
  | ']' :: _ => true
  | '>' :: [] => false
  | '>' :: c :: _ => c != '-' && (isAlnum c || ['_', '$', '>', '?', ']'].contains c)
  | c :: back =>
    isNamePart c && !expressionWords.contains ((c :: back).takeWhile isNamePart).reverse

/-- How many characters before a name a qualifying `this` is looked for in, the dot included. -/
def thisWindow : Nat := 33

/-- How many characters the `this` and the dot take that the code before a name, nearest character
first, ends in. -/
def thisLength? (back : Text) : Option Nat := do
  let window := back.take thisWindow
  let rest ← after? "siht" (dropBlanks (← after? "." window))
  if Before.unqualified rest.head? then some (window.length - rest.length) else none

def occurrences (masked : Text) (s e : Nat) (name : Text) : List Span :=
  (allMatches masked s e Before.nameStart (exactName? name)).map fun m => ⟨m.start, m.stop⟩

def referenceAt? (masked : Text) (occurrence : Span) : Option Span :=
  if (dropBlanks (masked.drop occurrence.stop)).head? == some '(' then none
  else
    let back := codeBefore masked occurrence.start
    match back with
    | [] => some occurrence
    | '@' :: _ => none
    | '.' :: _ => (thisLength? back).map fun n => ⟨back.length - n, occurrence.stop⟩
    | _ => if endsInType back then none else some occurrence

/-- The uses of a variable; selections from other objects, calls, annotations and declarations do not count. -/
def references (masked : Text) (s e : Nat) (name : Text) : List Span :=
  (occurrences masked s e name).filterMap (referenceAt? masked)

/-- The offset of the innermost bracket still open, where `back` holds the characters before
offset `pos`, nearest first, and `depth` brackets closed after them are still to be opened. -/
def openerBefore? : (depth pos : Nat) → (back : Text) → Option (Nat × Char)
  | _, _, [] => none
  | depth, pos, c :: back =>
    if closers.contains c then openerBefore? (depth + 1) (pos - 1) back
    else if openers.contains c then
      if depth = 0 then some (pos - 1, c) else openerBefore? (depth - 1) (pos - 1) back
    else openerBefore? depth (pos - 1) back

/-- The offset of the first character from `i` on that is no blank, or `stop` when there is none. The
text may not end before `stop`. -/
def codeFrom (masked : Text) (i stop : Nat) : Except ReadError Nat :=
  let j := skipBlanks masked i stop
  if j < stop ∧ masked.length ≤ j then .error .endOfText else .ok j

/-- The end of the expression at the front of `t`, which stands at offset `pos`: its first comma,
semicolon or closing bracket outside of brackets, if it has one. -/
def expressionEnd? : (depth pos : Nat) → (t : Text) → Option Nat
  | _, _, [] => none
  | depth, pos, c :: t =>
    if openers.contains c then expressionEnd? (depth + 1) (pos + 1) t
    else if closers.contains c then
      if depth = 0 then some pos else expressionEnd? (depth - 1) (pos + 1) t
    else if depth = 0 ∧ (c = ',' ∨ c = ';') then some pos
    else expressionEnd? depth (pos + 1) t

def bodyEnd (masked : Text) (i stop : Nat) : Except ReadError Nat := do
  let j ← codeFrom masked i stop
  if j < stop ∧ masked[j]? = some '{' then return (← partner masked j) + 1
  else
    match expressionEnd? 0 j (slice masked j stop) with
    | some k => return if masked[k]? = some ';' then k + 1 else k
    | none => if j < stop ∧ masked.length < stop then .error .endOfText else return stop

def arrowAt (masked : Text) (i : Nat) : Bool := Text.startsWith (masked.drop i) "->"

/-- The scope of the variable that an occurrence of a name in the block `[s, e)` declares. A lambda
parameter is in scope in the lambda's body, a variable declared in a bracketed head in the
statement after it, and any other to the end of the block around it. -/
def scopeAt? (masked : Text) (s e : Nat) (occurrence : Span) :
    Except ReadError (Option Span) := do
  let start := occurrence.start
  let after ← codeFrom masked occurrence.stop e
  let next := if after < e then masked[after]? else none
  if arrowAt masked after then return some ⟨start, ← bodyEnd masked (after + 2) e⟩
  let opener := openerBefore? 0 start (slice masked s start).reverse
  match opener with
  | some (i, '(') =>
    if next = some ',' ∨ next = some ')' then
      let arrow ← codeFrom masked ((← partner masked i) + 1) e
      if arrowAt masked arrow then return some ⟨start, ← bodyEnd masked (arrow + 2) e⟩
  | _ => pure ()
  let back := codeBefore masked start
  if back.length ≤ s || !next.any (['=', ';', ',', ':', ')'].contains ·) || !endsInType back then
    return none
  match opener with
  | none => return some ⟨start, e⟩
  | some (i, '(') => return some ⟨start, ← bodyEnd masked ((← partner masked i) + 1) e⟩
  | some (i, _) => return some ⟨start, (← partner masked i) + 1⟩

/-- The spans in which a local variable or a lambda parameter of the name is in scope. -/
def shadowingScopes (masked : Text) (s e : Nat) (name : Text) : Except ReadError (List Span) := do
  return (← (occurrences masked s e name).mapM (scopeAt? masked s e)).filterMap id

end Rebind.Java
