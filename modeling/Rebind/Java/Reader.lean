/-
Reading a source file.
-/
import Rebind.Java.Member

namespace Rebind.Java

open Text

def indentBefore (text : Text) (pos : Nat) (fallback : Text) : Text :=
  let lead := slice text (lineStart text pos) pos
  if !lead.isEmpty && isAllBlank lead then lead else fallback

/-- The type whose head was found, with its members if it is a class. Nested types are left closed. -/
def typeAt (text masked : Text) (head : Match (TypeKind × Text)) : Except ReadError TypeDecl := do
  let (kind, name) := head.value
  match firstWithin? masked head.stop masked.length (· == '{') with
  | none => .error (.typeWithoutBody name)
  | some brace =>
    let close ← partner masked brace
    let members ←
      match kind with
      | .classType => membersFrom text masked name close (brace + 1)
      | _ => pure []
    let indent := indentBefore text head.start [] ++ "    "
    return {
      kind := kind
      name := name
      superclass := superclass? (slice masked head.stop brace)
      start := head.start
      body := ⟨brace, close⟩
      memberIndent :=
        match members with
        | [] => indent
        | first :: _ => indentBefore text first.span.start indent
      members := members }

/-- The types from offset `pos` on. -/
def typesFrom (text masked : Text) (pos : Nat) : Except ReadError (List TypeDecl) :=
  match search masked pos masked.length Before.wordStart typeHead? with
  | none => .ok []
  | some head => do
    let type ← typeAt text masked head
    if _h : pos < type.body.closing + 1 ∧ pos < masked.length then
      return type :: (← typesFrom text masked (type.body.closing + 1))
    else return [type]
termination_by masked.length - pos

/-- The package of a source file, its imports and the types at its top. -/
def readUnit (text : Text) : Except ReadError CompilationUnit := do
  let masked := mask text
  let found := imports masked
  let package := search masked 0 masked.length Before.lineStart package?
  let importsEnd :=
    match found.getLast?, package with
    | some last, _ => last.span.stop
    | none, some p => p.stop
    | none, none => 0
  return {
    text := text
    masked := masked
    package := package.map (·.value)
    imports := found
    importsEnd := importsEnd
    types := ← typesFrom text masked importsEnd }

end Rebind.Java
