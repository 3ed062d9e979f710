/-
Settings from values under names, and from the environment.
-/
import Rebind.Settings.Basic
import Rebind.Settings.Value
import Rebind.Text.Identifier

namespace Rebind.Settings

/-- What is wrong with a value. -/
inductive Fault where
  | mode
  | text
  | name
  | boolKind
  | boolValue
  | list
deriving DecidableEq, Repr

structure Complaint where
  name : Text
  fault : Fault
deriving DecidableEq, Repr

/-- Why there are no settings. -/
inductive SettingsError where
  /-- A list in the environment cannot be read. -/
  | unreadable (name : Text)
  | invalid (complaints : List Complaint)

def modeNames : List (Text × Conversion.Mode) :=
  [("view_binding", .viewBinding), ("find_view_by_id", .findViewById)]

/-- The mode of a name. -/
def modeOf? (name : Text) : Option Conversion.Mode :=
  (modeNames.find? fun m => m.1 == name).map (·.2)

def modeName (mode : Conversion.Mode) : Text :=
  ((modeNames.find? fun m => m.2 = mode).map (·.1)).getD []

/-- What a word says. -/
def boolWords : List (Text × Bool) :=
  [("0", false), ("off", false), ("f", false), ("false", false), ("n", false), ("no", false),
   ("1", true), ("on", true), ("t", true), ("true", true), ("y", true), ("yes", true)]

/-- A value that has to be a mode. -/
def readMode : Value → Except Fault Conversion.Mode
  | .text t =>
    match modeOf? t with
    | some mode => .ok mode
    | none => .error .mode
  | _ => .error .mode

def readText : Value → Except Fault Text
  | .text t => .ok t
  | _ => .error .text

def readName (v : Value) : Except Fault Text := do
  let t ← readText v
  if Text.isIdentifier t then return t else throw .name

def isSmall (n : Int) : Bool := -9223372036854775808 ≤ n && n < 9223372036854775808

def boolOfInt (n : Int) : Except Fault Bool :=
  if n = 0 then .ok false else if n = 1 then .ok true else .error .boolValue

def nearest (mantissa exponent : Int) : Float :=
  let size := Float.ofScientific mantissa.natAbs (exponent < 0) exponent.natAbs
  if mantissa < 0 then -size else size

def boolOfFloat (x : Float) : Except Fault Bool :=
  if x.abs < 9223372036854775808 && x.floor == x then
    if x == 0 then .ok false else if x == 1 then .ok true else .error .boolValue
  else .error .boolKind

/-- A value that has to say yes or no. -/
def readBool : Value → Except Fault Bool
  | .bool b => .ok b
  | .integer n => if isSmall n then boolOfInt n else .error .boolKind
  | .decimal mantissa exponent => boolOfFloat (nearest mantissa exponent)
  | .text t =>
    match boolWords.find? fun w => w.1 == t.map Char.toLower with
    | some (_, b) => .ok b
    | none => .error .boolValue
  | _ => .error .boolKind

def readOptionalText : Value → Except Fault (Option Text)
  | .null => .ok none
  | v => (readText v).map some

def textComplaints (name : Text) : (i : Nat) → List Value → List Complaint
  | _, [] => []
  | i, v :: rest =>
    (match readText v with
    | .ok _ => []
    | .error fault => [⟨name ++ "." ++ Text.numeral i, fault⟩]) ++ textComplaints name (i + 1) rest

/-- A value that has to be a list of texts. -/
def readTexts (name : Text) : Value → Except (List Complaint) (List Text)
  | .list vs =>
    match textComplaints name 0 vs with
    | [] => .ok (vs.filterMap fun v => (readText v).toOption)
    | complaints => .error complaints
  | _ => .error [⟨name, .list⟩]

def field {α : Type} (given : Keyed Text Value) (name : Text) (read : Value → Except Fault α)
    (default : α) : Except (List Complaint) α :=
  match given.get? name with
  | none => .ok default
  | some v => (read v).mapError fun fault => [⟨name, fault⟩]

def complaintsOf {α : Type} : Except (List Complaint) α → List Complaint
  | .ok _ => []
  | .error complaints => complaints

def ignoredField (given : Keyed Text Value) : Except (List Complaint) (List Text) :=
  match given.get? "ignore_patterns".toList with
  | none => .ok ({} : Settings).ignored
  | some v => readTexts "ignore_patterns" v

/-- Every value that cannot be used is complained about; the settings are only made when there is no complaint. -/
def ofValues (given : Keyed Text Value) : Except SettingsError Settings :=
  let default : Settings := {}
  let mode := field given "mode" readMode default.mode
  let holder := field given "binding_field_name" readName default.holder
  let repair := field given "validate_xml" readBool default.repair
  let ignored := ignoredField given
  let dryRun := field given "dry_run" readBool default.dryRun
  let logLevel := field given "log_level" readText default.logLevel
  let logFile := field given "log_file" readOptionalText default.logFile
  match mode, holder, repair, ignored, dryRun, logLevel, logFile with
  | .ok mode, .ok holder, .ok repair, .ok ignored, .ok dryRun, .ok logLevel, .ok logFile =>
    .ok { mode, holder, repair, ignored, dryRun, logLevel, logFile }
  | _, _, _, _, _, _, _ =>
    .error (.invalid (complaintsOf mode ++ complaintsOf holder ++ complaintsOf repair ++
      complaintsOf ignored ++ complaintsOf dryRun ++ complaintsOf logLevel ++ complaintsOf logFile))

def variableStart : Text := "butterknife_"

def plainNames : List Text :=
  ["mode", "binding_field_name", "validate_xml", "dry_run", "log_level", "log_file"]

/-- The value of a variable, in whose name the case of letters is of no account; of several the last
one counts. -/
def environmentText? (environment : Keyed Text Text) (name : Text) : Option Text :=
  (environment.reverse.find? fun v => Text.toLower v.1 == variableStart ++ name).map (·.2)

/-- A list in the environment is written as a value in a text, and nothing else is looked at when it cannot be read. -/
def environmentValues (environment : Keyed Text Text) : Except SettingsError (Keyed Text Value) := do
  let plain := plainNames.filterMap fun name => (environmentText? environment name).map (name, Value.text ·)
  match environmentText? environment "ignore_patterns" with
  | none => return plain
  | some t =>
    match Value.ofText? t with
    | none => throw (.unreadable "ignore_patterns")
    | some .null => return plain
    | some v => return plain ++ [("ignore_patterns".toList, v)]

/-- Given values come before those of the environment, and those before the defaults. -/
def read (given : Keyed Text Value) (environment : Keyed Text Text) :
    Except SettingsError Settings := do
  let values ← environmentValues environment
  ofValues (given ++ values.filter fun v => !given.has v.1)

end Rebind.Settings
