/-
What a conversion changes in a source file, as a function of what was read. What is written, and the layouts, play no
part in it.
-/
import Rebind.Conversion.Basic
import Rebind.Proofs.Edit.Removal

namespace Rebind.Conversion

open Binding Java Text

inductive Change where
  /-- Code is taken out, with the blanks it would leave behind. -/
  | removal (span : Span)
  /-- A content statement is rewritten. -/
  | content (span : Span)
  /-- A use of a bound field becomes the way to the view with the id. -/
  | use (span : Span) (id : Text)
  deriving DecidableEq

namespace Change

def span : Change → Span
  | removal s => s
  | content s => s
  | use s _ => s

def range (t : Text) : Change → Span
  | removal s => Edit.removed t s
  | content s => s
  | use s _ => s

/-- The change writes something in place of the code. -/
def isRewriting : Change → Bool
  | removal _ => false
  | content _ => true
  | use _ _ => true

theorem range_eq_span {c : Change} (h : c.isRewriting = true) (t : Text) : c.range t = c.span := by
  cases c with
  | removal s => simp [isRewriting] at h
  | content s | use s id => rfl

end Change

/-- The changes for each element of a list, one after the other. -/
def gather {α : Type} (changes : α → Except ReadError (List Change)) : List α → Except ReadError (List Change)
  | [] => .ok []
  | a :: as => do return (← changes a) ++ (← gather changes as)

namespace Plan

def visibleUses (plan : Plan) (name : Text) : Except ReadError (List Span) := do
  let hidden ← hidingSpans plan name
  let body := plan.type.body
  return (references plan.unit.masked (body.opening + 1) body.closing name).filter fun use =>
    !hidden.any fun s => s.covers use.start

def useChanges (plan : Plan) (field : FieldBinding) : Except ReadError (List Change) := do
  return (← plan.visibleUses field.name).map (.use · field.id)

def declarationChanges (plan : Plan) (field : FieldBinding) : List Change :=
  (plan.bindings.declarations.get? field.name).toList.map (.removal ·.span)

def holderChanges (plan : Plan) : Except ReadError (List Change) :=
  match plan.anchor with
  | .content screen init content => do
    match ← inflation? plan screen init content with
    | none => return []
    | some _ =>
      return .content content.span :: (← gather plan.useChanges plan.bindings.fields) ++
        plan.bindings.fields.flatMap plan.declarationChanges
  | _ => return []

def lookupChanges (plan : Plan) : List Change :=
  match plan.anchor with
  | .content screen _ content =>
    match lookupFrame? screen content.text with
    | none => []
    | some (_, statement, _) =>
      if plan.bindings.fields.isEmpty && plan.bindings.registrations.isEmpty && statement.isNone then []
      else [.content content.span]
  | _ => []

/-- A call that binds views is taken out if it is a statement of its own. -/
def bindCallChanges (plan : Plan) (body : Block) (call : Match Unit) : Except ReadError (List Change) := do
  let { masked, .. } := plan.unit
  let closing ← partner masked (call.stop - 1)
  let semicolon := skipBlanks masked (closing + 1) body.closing
  let before := dropBlanksEnd (slice masked body.opening call.start)
  let startsStatement := before.getLast?.any fun c => ['{', '}', ';'].contains c
  if startsStatement && decide (semicolon < body.closing) && masked[semicolon]? == some ';' then
    return [.removal ⟨call.start, semicolon + 1⟩]
  else return []

/-- The calls that bind views in a method are taken out. -/
def bindCallsChanges (plan : Plan) (method : Method) : Except ReadError (List Change) :=
  match method.body with
  | none => return []
  | some body =>
    gather (plan.bindCallChanges body)
      (allMatches plan.unit.masked body.opening body.closing Before.unqualified bindCall?)

/-- A field that unbinds views and the statements that use it are taken out. -/
def unbinderChanges (plan : Plan) (field : Field) : List Change :=
  .removal field.span :: field.names.flatMap fun name =>
    (plan.type.methods.filterMap Method.body).flatMap fun body =>
      (unbinderStatements plan.unit.masked name body).map .removal

/-- The changes that take out what bound the views before, unless something still needs it. -/
def bindingChanges (plan : Plan) : Except ReadError (List Change) :=
  if plan.bindings.unsupported.isEmpty then do
    return (← gather plan.bindCallsChanges plan.type.methods) ++
      (plan.type.fields.filter fun f => Naming.simpleTypeName f.type == unbinderType).flatMap plan.unbinderChanges
  else return []

/-- The changes that the mode of the conversion asks for. -/
def modeChanges (plan : Plan) : Except ReadError (List Change) :=
  match plan.options.mode with
  | .viewBinding => plan.holderChanges
  | .findViewById => return plan.lookupChanges

def changes (plan : Plan) : Except ReadError (List Change) := do
  return plan.bindings.annotations.map (.removal ·.span) ++ (← plan.modeChanges) ++ (← plan.bindingChanges)

end Plan

/-- The changes of a class; one without bindings is left as it is. -/
def classChanges (options : Options) (unit : CompilationUnit) (type : TypeDecl) :
    Except ReadError (List Change) := do
  let bindings := bindingsOf unit type
  if bindings.isEmpty then return []
  let anchor ← Anchor.locate unit type
  Plan.changes { options, unit, type, bindings, anchor, layout := [] }

/-- The edits that take away what changes take away. -/
def takenBy (text : Text) (changes : List Change) : Edit.Draft :=
  ⟨text, changes.map fun c => ⟨(c.range text).start, (c.range text).stop, []⟩⟩

/-- A block of imports without the line break at its end. -/
def importsSpan (text : Text) (s : Span) : Span :=
  ⟨s.start, if slice text (s.stop - 1) s.stop == "\n" then s.stop - 1 else s.stop⟩

/-- The imports that are taken out once the changes of the classes are made. -/
def importChanges (unit : CompilationUnit) (ofClasses : List Change) : List Change :=
  (joinSpans ((unit.imports.filter (isObsolete unit (takenBy unit.text ofClasses))).map (·.span))).map
    fun s => .removal (importsSpan unit.text s)

def classesOf (unit : CompilationUnit) : List TypeDecl := unit.types.filter fun t => t.kind = .classType

/-- The changes of a file: what is taken out, the content statements that are rewritten, the uses of bound fields that
are replaced, and the imports that go. -/
def fileChanges (options : Options) (unit : CompilationUnit) : Except ReadError (List Change) := do
  let ofClasses ← gather (classChanges options unit) (classesOf unit)
  if (classesOf unit).any fun t => !(bindingsOf unit t).isEmpty then
    return ofClasses ++ importChanges unit ofClasses
  else return ofClasses

end Rebind.Conversion
