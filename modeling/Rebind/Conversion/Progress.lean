/-
The state of a conversion, and its elementary steps: notes for the report, edits of the source,
questions to the layouts and additions to them.
-/
import Rebind.Conversion.Anchor
import Rebind.Edit.Basic
import Rebind.Layout.Repair
import Rebind.Listener.Registration
import Rebind.Text.Lines

namespace Rebind

namespace Conversion

/-- What bound fields become. -/
inductive Mode where
  | viewBinding
  | findViewById
deriving DecidableEq, Repr

/-- How to convert. -/
structure Options where
  mode : Mode
  holder : Text
  repair : Bool

/-- Why a conversion fails. -/
inductive ConversionError where
  | unreadable (why : Java.ReadError)
  | conflict (why : Edit.EditError)
  | layout (why : Layout.ChangeError)
deriving DecidableEq

/-- The message for a failed conversion. -/
def ConversionError.message : ConversionError → Text
  | unreadable why => why.message
  | conflict why => why.message
  | layout (.refused why) => why.message
  | layout .noElement => "the layout has no such element"

/-- What a conversion has done so far. -/
structure Progress where
  draft : Edit.Draft
  report : List Text := []
  layouts : Layout.Session
  paths : Keyed Text Text := []
  imports : List Text := []

end Conversion

abbrev Conversion := StateT Conversion.Progress (Except Conversion.ConversionError)

namespace Conversion

def read {α : Type} (r : Except Java.ReadError α) : Conversion α :=
  match r with
  | .ok a => pure a
  | .error why => throw (.unreadable why)

/-- Records an edit. -/
def edit (f : Edit.Draft → Except Edit.EditError Edit.Draft) : Conversion Unit := do
  let progress ← get
  match f progress.draft with
  | .ok draft => set { progress with draft }
  | .error why => throw (.conflict why)

def report (line : Text) : Conversion Unit :=
  modify fun p => { p with report := p.report ++ [line] }

def needImports (names : List Text) : Conversion Unit :=
  modify fun p => { p with imports := p.imports ++ names }

/-- A question to the layouts. -/
def ask {α : Type} (f : Layout.Session → α × Layout.Session) : Conversion α := do
  let progress ← get
  let (a, layouts) := f progress.layouts
  set { progress with layouts }
  return a

/-- An addition to the layouts. -/
def repair {α : Type} (r : Layout.Repair α) : Conversion α := do
  let progress ← get
  match r progress.layouts with
  | (.ok a, layouts) =>
    set { progress with layouts }
    return a
  | (.error why, _) => throw (.layout why)

structure Plan where
  options : Options
  unit : Java.CompilationUnit
  type : Java.TypeDecl
  bindings : Binding.BindingSet
  anchor : Anchor
  layout : Text

namespace Plan

def note (plan : Plan) (message : Text) : Conversion Unit :=
  Conversion.report (plan.type.name ++ ": " ++ message)

/-- One step of indentation: what the members of the class are indented by more than the class. -/
def indentUnit (plan : Plan) : Text :=
  match Text.after? (Text.lineIndent plan.unit.text plan.type.start) plan.type.memberIndent with
  | some (c :: rest) => c :: rest
  | _ => "    "

def bindingClass (plan : Plan) : Text := Naming.bindingClassName plan.layout

/-- Puts statements in place of the content statement, which `statement` takes the place of: the
lines of the others are indented as that one is. -/
def replaceContent (plan : Plan) (content : Java.Statement) (before : List Text) (statement : Text)
    (after : List Text) : Conversion Unit :=
  let pad := Text.lineIndent plan.unit.text content.span.start
  let parts := before.map (Text.indent pad) ++ [pad ++ statement] ++ after.map (Text.indent pad)
  Conversion.edit fun d =>
    d.replace content.span.start content.span.stop ((Text.join ['\n'] parts).drop pad.length)

/-- The statements that register the listeners of the class; `target` gives the view for a handler
and an id. -/
def registrations (plan : Plan) (target : Binding.HandlerBinding → Text → Conversion Text) :
    Conversion (List Text) :=
  plan.bindings.registrations.mapM fun (handler, id) => do
    let view ← target handler id
    Conversion.needImports handler.kind.shape.imports
    return Listener.registration handler.kind view handler.call (some handler.callback)
      handler.returnsBoolean plan.indentUnit

end Plan

end Conversion

end Rebind
