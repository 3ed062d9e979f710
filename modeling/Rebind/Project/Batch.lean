/-
The conversion of files: a single one, or every source file below a folder.

Each file is converted by itself, with the layouts as the files before left them. Nothing is written
for a file unless its conversion succeeds.
-/
import Rebind.Conversion.Basic
import Rebind.Project.ChangeSet
import Rebind.Project.Layouts
import Rebind.Project.Root
import Rebind.Settings.Basic

namespace Rebind.Project

/-- What became of a file. -/
inductive Status where
  /-- It binds nothing. -/
  | skipped
  | unchanged
  | converted
  | failed
deriving DecidableEq, Repr

structure FileOutcome where
  path : Path
  status : Status
  message : Text := []
  report : List Text := []
deriving DecidableEq

def sourceEnding : Text := ".java"

def readSource (t : Tree) (p : Path) : Except Text Text :=
  match t.read p with
  | .error why => .error (why.message p)
  | .ok bytes => (Text.ofUtf8 bytes).mapError Text.Utf8Error.message

/-- The writes that a conversion asks for: the source file and the layouts that were added to. -/
def changesOf (index : Keyed Text Path) (p : Path) (o : Conversion.Outcome) : ChangeSet :=
  o.layouts.foldl (fun c l =>
    match index.get? l.name with
    | some path => c.add path l.toBytes
    | none => c) (ChangeSet.add [] p (Text.utf8 o.text))

/-- Writes what a conversion asks for. -/
def writeOutcome (settings : Settings) (index : Keyed Text Path) (t : Tree) (p : Path)
    (o : Conversion.Outcome) : FileOutcome × Tree :=
  if settings.dryRun then
    ({ path := p, status := .converted, message := "dry run", report := o.report }, t)
  else
    match (changesOf index p o).commit t with
    | (.ok _, _, t) => ({ path := p, status := .converted, report := o.report }, t)
    | (.error why, _, t) =>
      ({ path := p, status := .failed, message := why.message p, report := o.report }, t)

/-- Converts a file. -/
def convertFile (settings : Settings) (index : Keyed Text Path) (t : Tree) (p : Path) :
    FileOutcome × Tree :=
  match readSource t p with
  | .error message => ({ path := p, status := .failed, message }, t)
  | .ok text =>
    match Conversion.convert settings.options (layoutFiles t index) text with
    | .error why => ({ path := p, status := .failed, message := why.message }, t)
    | .ok o =>
      if !o.classes.any (·.converted) then
        let status := if o.report.isEmpty then .skipped else .unchanged
        ({ path := p, status, report := o.report }, t)
      else if !o.changed && o.layouts.isEmpty then
        ({ path := p, status := .unchanged, report := o.report }, t)
      else writeOutcome settings index t p o

/-- Converts files one after the other. -/
def convertFiles (settings : Settings) (index : Keyed Text Path) :
    (t : Tree) → List Path → List FileOutcome × Tree
  | t, [] => ([], t)
  | t, p :: rest =>
    let (outcome, t) := convertFile settings index t p
    let (outcomes, t) := convertFiles settings index t rest
    (outcome :: outcomes, t)

/-- The source files below a folder in order, without those that the settings leave alone. -/
def sourceFiles (t : Tree) (folder : Path) (settings : Settings) :
    Except FileError (List Path) := do
  match (← t.find? folder).filter t.isFolder with
  | some l =>
    let names := ((t.below l).filter fun names =>
      (names.getLast?.any fun file => Text.endsWith file sourceEnding) &&
        !settings.ignores ⟨[], names⟩).mergeSort namesLe
    return names.map fun names => { folder with parts := folder.parts ++ names }
  | none => return []

/-- The layouts for a path: those of the given project, or of the one that the path belongs to. -/
def layoutsFor (t : Tree) (p : Path) (given : Option Path) : Except FileError (Keyed Text Path) := do
  match given with
  | some root => layoutIndex t root
  | none => layoutIndex t ⟨['/'], ← projectRoot t p⟩

/-- Converts the file of a path, or the source files below it. `alone` says that it has to be a
file. -/
def convertPath (settings : Settings) (t : Tree) (p : Path) (alone : Bool) (project : Option Path) :
    Except FileError (List FileOutcome × Tree) := do
  let index ← layoutsFor t p project
  let isFile ← if alone then pure true else t.hasFile p
  return convertFiles settings index t (← if isFile then pure [p] else sourceFiles t p settings)

end Rebind.Project
