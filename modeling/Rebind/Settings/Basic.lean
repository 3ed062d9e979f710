/-
The settings of the converter.
-/
import Rebind.Conversion.Progress
import Rebind.Project.Path
import Rebind.Settings.Glob

namespace Rebind

structure Settings where
  mode : Conversion.Mode := .viewBinding
  holder : Text := "binding"
  repair : Bool := true
  ignored : List Text := ["**/test/**", "**/androidTest/**", "**/*Test.java"]
  dryRun : Bool := false
  logLevel : Text := "INFO"
  logFile : Option Text := none

namespace Settings

/-- New values for some of the settings. -/
structure Overrides where
  mode : Option Conversion.Mode := none
  holder : Option Text := none
  repair : Option Bool := none
  ignored : Option (List Text) := none
  dryRun : Option Bool := none
  logLevel : Option Text := none
  logFile : Option Text := none

/-- The settings with new values for some of them. -/
def override (s : Settings) (o : Overrides) : Settings where
  mode := o.mode.getD s.mode
  holder := o.holder.getD s.holder
  repair := o.repair.getD s.repair
  ignored := o.ignored.getD s.ignored
  dryRun := o.dryRun.getD s.dryRun
  logLevel := o.logLevel.getD s.logLevel
  logFile := o.logFile.or s.logFile

/-- A pattern stands for a path. One that starts in any directory also stands for a path that starts
with the rest of it. -/
def matchesPattern (pattern path : Text) : Bool :=
  globMatches pattern path ||
    match Text.after? "**/" pattern with
    | some rest => globMatches rest path
    | none => false

def ignores (s : Settings) (path : Project.Path) : Bool :=
  s.ignored.any fun pattern => matchesPattern pattern path.text

/-- How source files are converted. -/
def options (s : Settings) : Conversion.Options where
  mode := s.mode
  holder := s.holder
  repair := s.repair

end Settings

end Rebind
