/-
Conversion to a holder: the views are reached through a generated class, which a new field of the
class holds from the content statement on and which is let go when the views go away. The bound fields
are taken out and their uses replaced by ways through the holder.
-/
import Rebind.Conversion.Access
import Rebind.Java.Reference

namespace Rebind.Conversion

open Text

/-- What becomes of a content statement: what comes before it, the statement itself, and whether it
returns, so that nothing can come after it. -/
structure Inflation where
  before : List Text
  statement : Text
  returns : Bool

/-- The content statement of an activity: the holder is filled before it, and its root is the
content. -/
def activityInflation? (plan : Plan) (content : Java.Statement) :
    Except Java.ReadError (Option Inflation) := do
  let { masked, .. } := plan.unit
  let { start, stop } := content.span
  let holder := plan.options.holder
  match search masked start stop Before.unqualified contentCall? with
  | none => return none
  | some call =>
    let opening := call.stop - 1
    let closing ← Java.partner masked opening
    return some {
      before := [holder ++ " = " ++ plan.bindingClass ++ ".inflate(getLayoutInflater());"]
      statement := content.text.take (opening - start + 1) ++ holder ++ ".getRoot()" ++
        content.text.drop (closing - start)
      returns := false }

/-- The arguments that the generated class is inflated with, given the inflater and the arguments of
the call that is replaced. -/
def inflationArguments (inflater : Text) : (args : List Text) → Text
  | _ :: parent :: attach :: _ => inflater ++ ", " ++ parent ++ ", " ++ attach
  | [_, parent] => inflater ++ ", " ++ parent ++ ", false"
  | _ => inflater

/-- The content statement of a fragment: the holder is filled before it, and its root takes the place
of the inflated view. -/
def fragmentInflation? (plan : Plan) (method : Java.Method) (content : Java.Statement) :
    Except Java.ReadError (Option Inflation) := do
  let { text, masked, .. } := plan.unit
  let { start, stop } := content.span
  let holder := plan.options.holder
  match search masked start stop Before.unqualified inflateCall? with
  | none => return none
  | some call =>
    let opening := call.stop - 1
    let closing ← Java.partner masked opening
    let written := strip (slice text call.start (call.start + call.value))
    let receiver := strip (written.reverse.dropWhile (· == '.')).reverse
    let inflater :=
      if receiver.isEmpty then ((method.params.head?.map (·.name)).getD []) else receiver
    let args := inflationArguments inflater (Binding.splitArguments (slice text (opening + 1) closing))
    return some {
      before := [holder ++ " = " ++ plan.bindingClass ++ ".inflate(" ++ args ++ ");"]
      statement := content.text.take (call.start - start) ++ holder ++ ".getRoot()" ++
        content.text.drop (closing + 1 - start)
      returns := startsWithReturn content.text }

def inflation? (plan : Plan) (screen : Screen) (method : Java.Method) (content : Java.Statement) :
    Except Java.ReadError (Option Inflation) :=
  match screen with
  | .activity => activityInflation? plan content
  | .fragment => fragmentInflation? plan method content

/-- Declares the holder before the first member, unless the class has a field of its name. -/
def declareHolder (plan : Plan) : Conversion Unit := do
  let holder := plan.options.holder
  if plan.type.fields.any fun f => f.names.contains holder then
    plan.note ("field '" ++ holder ++ "' already declared; reused as the binding holder")
  else
    let text := plan.unit.text
    let pos := plan.type.firstMember.getD 0
    let line := lineStart text pos
    let declaration := "private " ++ plan.bindingClass ++ " " ++ holder ++ ";"
    if isAllBlank (slice text line pos) then
      let removed := plan.bindings.declarations.any fun d => d.2.span.start == pos
      Conversion.edit fun d =>
        d.insert line (plan.type.memberIndent ++ declaration ++ if removed then "\n" else "\n\n")
    else Conversion.edit fun d => d.insert pos (declaration ++ " ")

/-- Where a statement is added to a method: behind the call of the overridden method, or at the
end. -/
def releaseIn (plan : Plan) (release : Text) (method : Java.Method) (body : Java.Block)
    (statements : List Java.Statement) : Conversion Unit := do
  let text := plan.unit.text
  let pad :=
    match statements with
    | s :: _ => lineIndent text s.span.start
    | [] => plan.type.memberIndent ++ plan.indentUnit
  match statements.find? fun s => startsWithSuperCall method.name s.text with
  | some s => Conversion.edit fun d => d.insert s.span.stop ("\n" ++ pad ++ release)
  | none =>
    let line := lineStart text body.closing
    if isAllBlank (slice text line body.closing) then
      Conversion.edit fun d => d.insert line (pad ++ release ++ "\n")
    else Conversion.edit fun d => d.insert body.closing (" " ++ release ++ " ")

/-- Lets the holder go when the views go away, in the method that is there for it or in a new one. -/
def addTeardown (plan : Plan) (screen : Screen) (init : Java.Method) : Conversion Unit := do
  let holder := plan.options.holder
  let name := screen.teardownMethod
  let release := holder ++ " = null;"
  match plan.type.methodsNamed name 0 with
  | method :: _ =>
    let statements ← Conversion.read (Java.statements plan.unit method)
    if statements.any fun s => withoutBlanks s.text == without ' ' release then return
    match method.body with
    | some body => releaseIn plan release method body statements
    | none => return
  | [] =>
    let code := Listener.teardownMethod screen.teardownVisibility name holder plan.indentUnit
    Conversion.edit fun d => d.insert init.span.stop ("\n\n" ++ indent plan.type.memberIndent code)

/-- The spans in which a field is hidden by something else of its name: methods with such a
parameter, scopes of local variables and lambda parameters, and nested types that declare it. -/
def hidingSpans (plan : Plan) (name : Text) : Except Java.ReadError (List Java.Span) := do
  let methods := plan.type.methods
  let { masked, .. } := plan.unit
  let byParameter := methods.filter fun m => m.params.any fun p => p.name == name
  let locals ← (methods.filterMap Java.Method.body).mapM fun body =>
    Java.shadowingScopes masked body.opening body.closing name
  let nested := plan.type.nestedTypes.filter fun s =>
    (search masked s.start s.stop Before.anywhere (declaredName? name)).isSome
  return byParameter.map (·.span) ++ locals.flatten ++ nested

def replaceUses (plan : Plan) (field : Binding.FieldBinding) : Conversion Unit := do
  let path ← accessPath plan field.id
  let hidden ← Conversion.read (hidingSpans plan field.name)
  let body := plan.type.body
  let uses := Java.references plan.unit.masked (body.opening + 1) body.closing field.name
  (uses.filter fun use => !hidden.any fun s => s.covers use.start).forM fun use =>
    Conversion.edit fun d => d.replace use.start use.stop path

def removeDeclaration (plan : Plan) (field : Binding.FieldBinding) : Conversion Unit :=
  match plan.bindings.declarations.get? field.name with
  | some f => Conversion.edit fun d => d.remove f.span.start f.span.stop
  | none => return

/-- Converts a class to a holder. Without a content statement the fields keep their declarations, so
that the class stays complete. -/
def convertToHolder (plan : Plan) : Conversion Unit := do
  match plan.anchor with
  | .content screen init content =>
    match ← Conversion.read (inflation? plan screen init content) with
    | none => plan.note "content statement not understood; initialization not generated"
    | some inflation =>
      declareHolder plan
      let listeners ← plan.registrations fun _ id => accessPath plan id
      if inflation.returns then
        plan.replaceContent content (inflation.before ++ listeners) inflation.statement []
      else plan.replaceContent content inflation.before inflation.statement listeners
      addTeardown plan screen init
      plan.bindings.fields.forM (replaceUses plan)
      plan.bindings.fields.forM (removeDeclaration plan)
  | _ => return

end Rebind.Conversion
