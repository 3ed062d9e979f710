/-
A run of the program: settings from the environment and the command line, the conversion, and what is
printed about it.
-/
import Rebind.CommandLine.Arguments
import Rebind.Journal
import Rebind.Project.Batch

namespace Rebind.CommandLine

open Rebind.Project

inductive RunError where
  | stopped (why : Stop)
  | settings (why : Settings.SettingsError)
  | journal (why : JournalError)
  | file (why : FileError)

/-- What a run leaves behind. -/
structure Result where
  exit : Nat
  output : Text
  errors : Text
  tree : Tree

def settingsFor (a : Arguments) (s : Settings) : Settings :=
  let s := s.override {
    mode := a.mode
    repair := if a.noXml then some false else none
    dryRun := if a.dryRun then some true else none
    logLevel := if a.verbose then some "DEBUG".toList else none }
  if a.ignore.isEmpty then s else { s with ignored := s.ignored ++ a.ignore }

def reportLine (line : Text) : Text := "  " ++ line ++ "\n"

def outcomeLines (o : FileOutcome) : Text × Text :=
  let report := o.report.flatMap reportLine
  let done (word : Text) : Text × Text := (word ++ ": " ++ o.path.text ++ "\n" ++ report, [])
  match o.status with
  | .converted => done "Converted"
  | .unchanged => done "Unchanged"
  | .skipped => done "Skipped"
  | .failed => (report, "[ERROR] " ++ o.path.text ++ ": " ++ o.message ++ "\n")

/-- A run of the program named `program`. -/
def run (program : Text) (words : List Text) (environment : Keyed Text Text) (t : Tree) :
    Except RunError Result := do
  let (a, path) ← (Arguments.read words).mapError .stopped
  let s ← (Settings.read [] environment).mapError .settings
  let s := settingsFor a s
  let (_, t) ← (Journal.configure { program } t s.logLevel s.logFile).mapError .journal
  let p := Path.ofText path
  let found ← (t.find? p).mapError .file
  if found.isNone || (a.fileOnly && !found.any t.isFile) then
    return ⟨2, [], "[ERROR] Not a file or directory: " ++ p.text ++ "\n", t⟩
  let project := (a.projectRoot.filter fun r => !r.isEmpty).map Path.ofText
  let (outcomes, t) ← (convertPath s t p a.fileOnly project).mapError .file
  let lines := outcomes.map outcomeLines
  return ⟨0, lines.flatMap (·.1), lines.flatMap (·.2), t⟩

end Rebind.CommandLine
