/-
The imports of a converted file: those of names that are no longer used go, and those that generated
code needs come.
-/
import Rebind.Conversion.Cleanup
import Rebind.Java.Reference

namespace Rebind.Conversion

open Text

def otherAnnotations : List Text :=
  ["BindViews", "BindAnim", "BindArray", "BindBitmap", "BindBool", "BindColor", "BindDimen",
   "BindDrawable", "BindFloat", "BindFont", "BindInt", "BindString", "OnPageChange", "Optional"]

def packageNames : List Text :=
  "ButterKnife".toList :: unbinderType :: Binding.bindView :: otherAnnotations ++
    Listener.Kind.all.map Listener.Kind.annotationName

def isUsed (unit : Java.CompilationUnit) (draft : Edit.Draft) (name : Text) : Bool :=
  (Java.occurrences unit.masked 0 unit.masked.length name).any fun s =>
    !(unit.imports.any fun i => i.span.covers s.start) && !draft.covers s.start

def isObsolete (unit : Java.CompilationUnit) (draft : Edit.Draft) (i : Java.Import) : Bool :=
  let simple := afterLast '.' i.name
  !i.isStatic && startsWith i.name (Binding.annotationPackage ++ ".") &&
    !(if simple == "*" then packageNames.any (isUsed unit draft) else isUsed unit draft simple)

/-- Spans that follow one another without a gap, joined. -/
def joinSpans : List Java.Span → List Java.Span
  | [] => []
  | s :: rest =>
    match joinSpans rest with
    | next :: more => if s.stop = next.start then ⟨s.start, next.stop⟩ :: more else s :: next :: more
    | [] => [s]

def removeImports (text : Text) (s : Java.Span) : Conversion Unit :=
  let stop := if slice text (s.stop - 1) s.stop == "\n" then s.stop - 1 else s.stop
  Conversion.edit fun d => d.remove s.start stop

/-- Where new imports go, with a line break before them if they stand alone: behind the last import
that stays, in place of those that go, or where imports would stand. -/
def importAnchor (unit : Java.CompilationUnit) (obsolete : List Java.Span) : Nat × Text :=
  let kept := (unit.imports.map (·.span)).filter fun s => !obsolete.contains s
  match kept, obsolete with
  | _ :: _, _ => (kept.foldl (fun n s => max n s.stop) 0, [])
  | [], s :: _ => (s.start, [])
  | [], [] => (unit.importsEnd, ['\n'])

def importLine (name : Text) : Text := "import " ++ name ++ ";\n"

/-- Brings the imports up to date. -/
def updateImports (unit : Java.CompilationUnit) (needed : List Text) : Conversion Unit := do
  let draft := (← get).draft
  let obsolete := (unit.imports.filter (isObsolete unit draft)).map (·.span)
  (joinSpans obsolete).forM (removeImports unit.text)
  let missing := sort (needed.eraseDups.filter fun name => !unit.hasImport name)
  if !missing.isEmpty then
    let (anchor, gap) := importAnchor unit obsolete
    let lines := missing.flatMap importLine
    Conversion.edit fun d => d.insert anchor (gap ++ lines)

end Rebind.Conversion
