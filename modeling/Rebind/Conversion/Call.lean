/-
The calls that a conversion looks for in code: those that set up a screen's content and those that
bind and unbind its views.
-/
import Rebind.Text.Search

namespace Rebind.Conversion

open Text

def firstOf {α : Type} (ts : List Text) (r : Text → Option α) : Option α := ts.findSome? r

def optional (r : Text → Option Text) (t : Text) : List Text := (r t).toList ++ [t]

/-- What follows the closing parenthesis of an argument list in which parentheses stand at most one
level deep; `inner` says that one of those is open. -/
def afterArguments? : (inner : Bool) → (t : Text) → Option Text
  | _, [] => none
  | inner, c :: t =>
    if c == '(' then (if inner then none else afterArguments? true t)
    else if c == ')' then (if inner then afterArguments? false t else some t)
    else afterArguments? inner t

def receiverPart? (t : Text) : Option Text := do
  let (_, rest) ← name? t
  ((spaced? "(" rest >>= afterArguments? false) >>= dot?).or (dot? rest)

def afterReceivers (t : Text) : List Text :=
  match receiverPart? t with
  | some rest => if _h : rest.length < t.length then t :: afterReceivers rest else [t]
  | none => [t]
termination_by t.length

/-- A call that inflates a layout, up to its opening parenthesis; the value is the length of the
receiver with its dot. Of several calls in one chain the last counts. -/
def inflateCall? : Recogniser Nat := fun t =>
  firstOf (afterReceivers t).reverse fun r => do
    let rest ← after? "inflate" r >>= spaced? "("
    some (t.length - r.length, rest)

def contentCall? : Recogniser Unit := fun t =>
  firstOf (optional (fun t => ((after? "this" t).or (after? "super" t)) >>= dot?) t) fun t => do
    let rest ← after? "setContentView" t >>= spaced? "("
    some ((), rest)

def layoutReference? : Recogniser Text := fun t => do
  let t ← after? "R" t >>= dot?
  let t ← after? "layout" t >>= dot?
  run? isWord t

def isTypeChar (c : Char) : Bool := isNamePart c || c == '.' || c == '<' || c == '>'

def afterWord? (p : Char → Bool) (t : Text) : Option Text := do
  someBlanks? (← run? p t).2

def assignmentTargets (t : Text) : List Text :=
  ((optional (fun t => after? "final" t >>= someBlanks?) t).flatMap
    (optional (afterWord? isTypeChar))).flatMap
      (optional fun t => after? "this" t >>= dot?)

def plainBindCall? (t : Text) : Option Text :=
  firstOf (optional (fun t => after? "butterknife" t >>= dot?) t) fun t => do
    let t ← after? "ButterKnife" t >>= dot?
    after? "bind" t >>= spaced? "("

def bindCall? : Recogniser Unit := fun t =>
  let assigned := firstOf (assignmentTargets t) fun t => do
    let rest ← spaced? "=" (← run? isNamePart t).2
    plainBindCall? (dropBlanks rest)
  (assigned.or (plainBindCall? t)).map ((), ·)

/-- The variable that a statement stores into. -/
def storedVariable? (t : Text) : Option Text :=
  firstOf ((optional (fun t => after? "final" t >>= someBlanks?) t).flatMap
    (optional (afterWord? isDotted))) fun t => do
      let (name, rest) ← name? t
      let rest ← spaced? "=" rest
      if rest.head? = some '=' then none else some name

def startsWithReturn (t : Text) : Bool := (after? "return" t).any wordEnds

def startsWithSuperCall (method t : Text) : Bool :=
  ((after? "super" t >>= dot? >>= after? method) >>= spaced? "(").isSome

def fieldUse? (name t : Text) : Option Text :=
  ((after? "this" t >>= dot?) >>= after? name).or (after? name t)

def unbindCall? (name : Text) (t : Text) : Option Text := do
  let t ← fieldUse? name t >>= dot?
  after? "unbind" t >>= spaced? "(" >>= spaced? ")" >>= spaced? ";"

def guardedUnbind? (name : Text) (t : Text) : Option Text := do
  let t ← after? "if" t >>= spaced? "("
  let t ← fieldUse? name (dropBlanks t)
  let t ← spaced? "!=" t >>= spaced? "null" >>= spaced? ")"
  ((spaced? "\x7b" t >>= fun t => unbindCall? name (dropBlanks t)) >>= spaced? "\x7d").or
    (unbindCall? name (dropBlanks t))

def resetStatement? (name : Text) (t : Text) : Option Text := do
  fieldUse? name t >>= spaced? "=" >>= spaced? "null" >>= spaced? ";"

def declaredName? (name : Text) : Recogniser Unit
  | [] => none
  | c :: t => do
    let rest ←
      if isWord c || c == '>' || c == ']' then someBlanks? t >>= after? name else none
    match dropBlanks rest with
    | d :: rest => if [';', '=', ',', ')'].contains d then some ((), rest) else none
    | [] => none

end Rebind.Conversion
