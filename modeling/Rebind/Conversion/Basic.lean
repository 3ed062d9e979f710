/-
The conversion of a source file: each of its classes, then its imports, then all edits at once.
-/
import Rebind.Conversion.Holder
import Rebind.Conversion.Imports
import Rebind.Conversion.Lookup
import Rebind.Layout.Match

namespace Rebind.Conversion

/-- What became of a class. -/
structure ClassOutcome where
  name : Text
  converted : Bool
  imports : List Text

/-- A converted file. -/
structure Outcome where
  text : Text
  changed : Bool
  report : List Text
  classes : List ClassOutcome
  layouts : List Layout.LayoutFile

/-- The layout of a class: the one its content statement names, or the one its name suggests. -/
def layoutOf (unit : Java.CompilationUnit) (type : Java.TypeDecl) (anchor : Anchor)
    (known : List Text) : Text :=
  (anchor.layout? unit).getD ((Layout.layoutOfClass known type.name).getD [])

def annotationList (names : List Text) : Text :=
  Text.join ", " (Text.sort ((names.map ('@' :: ·)).eraseDups))

/-- Checks the ids of the bound fields against the layout and adds those that are missing. -/
def checkIds (plan : Plan) : Conversion Unit := do
  if plan.options.repair && !plan.bindings.fields.isEmpty then
    let reports ← Conversion.repair (Layout.Repair.ensureIds plan.bindings.fields plan.layout)
    reports.forM fun (id, r) => plan.note (id ++ ": " ++ r.message)

/-- Records the edits that convert the class of a plan. -/
def convertPlanned (plan : Plan) : Conversion Unit := do
  checkIds plan
  plan.bindings.annotations.forM fun a =>
    Conversion.edit fun d => d.remove a.span.start a.span.stop
  match plan.options.mode with
  | .viewBinding => convertToHolder plan
  | .findViewById => convertToLookups plan
  if plan.bindings.unsupported.isEmpty then removeBinding plan
  else
    plan.note (annotationList plan.bindings.unsupported ++ " not converted; ButterKnife.bind kept")

/-- Converts one class; one without bindings is left as it is. -/
def convertClass (options : Options) (unit : Java.CompilationUnit) (type : Java.TypeDecl) :
    Conversion ClassOutcome := do
  let bindings := Binding.bindingsOf unit type
  if bindings.isEmpty then return ⟨type.name, false, []⟩
  modify fun p => { p with paths := [], imports := [] }
  let report (message : Text) := Conversion.report (type.name ++ ": " ++ message)
  bindings.duplicateIds.forM fun id =>
    report ("resource id '" ++ id ++ "' is bound by more than one field")
  let anchor ← Conversion.read (Anchor.locate unit type)
  let layout := layoutOf unit type anchor ((← get).layouts.files.map (·.1))
  anchor.complaint?.forM report
  let plan : Plan := { options, unit, type, bindings, anchor, layout }
  Conversion.ask fun s => ((), s.load layout)
  plan.note ("layout " ++ layout ++ " (" ++ plan.bindingClass ++ ")")
  convertPlanned plan
  return ⟨type.name, true, (← get).imports⟩

def convertUnit (options : Options) (unit : Java.CompilationUnit) : Conversion (List ClassOutcome) := do
  let classes ← (unit.types.filter fun t => t.kind = .classType).mapM (convertClass options unit)
  if classes.any (·.converted) then updateImports unit (classes.flatMap (·.imports))
  return classes

/-- Converts a source text with the layouts of its project. -/
def convert (options : Options) (layouts : Keyed Text Bytes) (text : Text) :
    Except ConversionError Outcome := do
  let unit ←
    match Java.readUnit text with
    | .ok unit => pure unit
    | .error why => throw (.unreadable why)
  let start : Progress := { draft := Edit.Draft.ofText text, layouts := { files := layouts } }
  let (classes, progress) ← (convertUnit options unit).run start
  if !classes.any (·.converted) then
    return { text, changed := false, report := progress.report, classes, layouts := [] }
  match progress.draft.apply with
  | .ok edited =>
    return {
      text := edited
      changed := edited != text
      report := progress.report
      classes
      layouts := progress.layouts.changed }
  | .error why => throw (.conflict why)

end Rebind.Conversion
