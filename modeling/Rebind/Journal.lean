/-
The log of the program. Records go to the console and, once one is set up, to a file.
-/
import Rebind.Project.Writing
import Rebind.Text.Case

namespace Rebind

/-- How serious a record is, or has to be; `unset` leaves that to what is around the program. -/
inductive Level where
  | unset
  | debug
  | info
  | warning
  | error
  | critical
deriving DecidableEq, Repr

namespace Level

def names : List (Text × Level) :=
  [("NOTSET", unset), ("DEBUG", debug), ("INFO", info), ("WARNING", warning), ("WARN", warning),
   ("ERROR", error), ("CRITICAL", critical), ("FATAL", critical)]

def name (l : Level) : Text := ((names.find? fun n => n.2 = l).map (·.1)).getD []

def ofName? (t : Text) : Option Level := (names.find? fun n => n.1 == t).map (·.2)

/-- How serious the level is. -/
def rank : Level → Nat
  | unset => 0
  | debug => 10
  | info => 20
  | warning => 30
  | error => 40
  | critical => 50

def effective (l : Level) : Level := if l = unset then warning else l

end Level

/-- Why a log cannot be set up. -/
inductive JournalError where
  | formatForLevel
  | stylesForLevel
  /-- The file cannot be made. -/
  | file (why : Project.FileError)
deriving DecidableEq, Repr

/-- The log: the program's name, its level, whether records reach the console, and the file. -/
structure Journal where
  program : Text
  level : Level := .unset
  hasConsole : Bool := false
  file : Option Project.Location := none
  console : Text := []
  written : Text := []

namespace Journal

def opened (j : Journal) : Journal :=
  if j.hasConsole then j else { j with level := .info, hasConsole := true }

def levelFor (word : Text) : Except JournalError Level :=
  let word := Text.toUpper word
  if word == "BASIC_FORMAT" then .error .formatForLevel
  else if word == "_STYLES" then .error .stylesForLevel
  else .ok ((Level.ofName? word).getD .info)

/-- The log with a level and perhaps a file, which is made. The first file that is set up stays. -/
def configure (j : Journal) (t : Project.Tree) (level : Text) (file : Option Text) :
    Except JournalError (Journal × Project.Tree) := do
  let j := { j.opened with level := ← levelFor level }
  match file.filter fun f => !f.isEmpty with
  | some path =>
    if j.file.isSome then return (j, t)
    let (t, l) ← (t.makeFile (Project.Path.ofText path)).mapError .file
    return ({ j with file := some l }, t)
  | none => return (j, t)

/-- The loggers of the program have dotted names that lie below its name. -/
def owns (j : Journal) (logger : Text) : Bool :=
  logger == j.program || Text.startsWith logger (j.program ++ ".")

def line (level : Level) (logger message : Text) : Text :=
  "[" ++ level.name ++ "] " ++ logger ++ ": " ++ message ++ "\n"

/-- Of other loggers only warnings and more serious records reach the console, and as bare messages. A record below the
level of the log is dropped. -/
def record (j : Journal) (level : Level) (logger : Option Text) (message : Text) : Journal :=
  let j := j.opened
  let logger := logger.getD j.program
  if !j.owns logger then
    if Level.warning.rank ≤ level.rank then { j with console := j.console ++ message ++ "\n" } else j
  else if j.level.effective.rank ≤ level.rank then
    let text := line level logger message
    { j with
      console := j.console ++ text
      written := if j.file.isSome then j.written ++ text else j.written }
  else j

end Journal

end Rebind
