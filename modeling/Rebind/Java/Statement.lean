/-
The statements of a method body.
-/
import Rebind.Java.Reader

namespace Rebind.Java

open Text

structure Statement where
  text : Text
  span : Span
  deriving DecidableEq

def controlWords : List Text := ["if", "for", "while", "switch", "synchronized"]

/-- The offset just past the blocks that follow a `try` block: each `catch` has a bracketed head
and a block, `finally` a block alone. -/
def clausesEnd (masked : Text) (stop j : Nat) : Except ReadError Nat :=
  let k := skipBlanks masked j stop
  let next (blockAt : Nat) : Except ReadError Nat := do
    let last ← partner masked blockAt
    if _h : j < last + 1 ∧ j < masked.length then clausesEnd masked stop (last + 1)
    else return last + 1
  match name? (masked.drop k) with
  | some (word, rest) =>
    let wordEnd := masked.length - rest.length
    if word == "catch" then do
      let head ← partner masked (skipBlanks masked wordEnd stop)
      next (skipBlanks masked (head + 1) stop)
    else if word == "finally" then next (skipBlanks masked wordEnd stop)
    else .ok j
  | none => .ok j
termination_by masked.length - j

/-- Where a statement ends is told by its first word: a block, a controlled statement, a `do` or `try` statement, or
anything that a semicolon ends. -/
def statementEnd (masked : Text) (stop i : Nat) : Except ReadError Nat :=
  match masked[i]? with
  | none => .error .endOfText
  | some '{' => do return (← partner masked i) + 1
  | some ';' => .ok (i + 1)
  | some _ =>
    /- The statement from `j` on, past blanks; every `j` lies after the word at `i`. -/
    let statementFrom (j : Nat) : Except ReadError Nat :=
      let j := skipBlanks masked j stop
      if _h : i < j ∧ i < masked.length then statementEnd masked stop j
      else .error .endOfText
    match name? (masked.drop i) with
    | none => declarationEnd masked i stop
    | some (word, rest) =>
      let wordEnd := masked.length - rest.length
      if controlWords.contains word then do
        let j := skipBlanks masked wordEnd stop
        let j ← if j < stop ∧ masked[j]? = some '(' then do pure ((← partner masked j) + 1)
          else pure j
        let j ← statementFrom j
        let k := skipBlanks masked j stop
        match if word == "if" then after? "else" (masked.drop k) else none with
        | some rest => if wordEnds rest then statementFrom (k + 4) else return j
        | none => return j
      else if word == "do" then do
        let j ← statementFrom wordEnd
        declarationEnd masked j stop
      else if word == "try" then do
        let j := skipBlanks masked wordEnd stop
        let j ← if masked[j]? = some '(' then do
            pure (skipBlanks masked ((← partner masked j) + 1) stop)
          else pure j
        clausesEnd masked stop ((← partner masked j) + 1)
      else declarationEnd masked i stop
termination_by masked.length - i

/-- The statements from offset `i` to the end of a body. -/
def statementsFrom (text masked : Text) (stop i : Nat) : Except ReadError (List Statement) :=
  let j := skipBlanks masked i stop
  if _h : j < stop then do
    let last ← statementEnd masked stop j
    let statement : Statement := ⟨slice text j last, ⟨j, last⟩⟩
    if _hl : j < last then return statement :: (← statementsFrom text masked stop last)
    else return [statement]
  else .ok []
termination_by stop - i
decreasing_by
  have : i ≤ skipBlanks masked i stop := Nat.le_add_right _ _
  omega

/-- Cuts a body into its statements in order. -/
def statements (unit : CompilationUnit) (m : Method) : Except ReadError (List Statement) :=
  match m.body with
  | none => .ok []
  | some body => statementsFrom unit.text unit.masked body.closing (body.opening + 1)

end Rebind.Java
