/-
Settings as values under names, and values put in their place without being checked.
-/
import Rebind.Settings.Reader

namespace Rebind.Settings

def ignoredName : Text := "ignore_patterns"

def toValues (s : Settings) : Keyed Text Value :=
  [("mode", .text (modeName s.mode)), ("binding_field_name", .text s.holder),
   ("validate_xml", .bool s.repair), (ignoredName, .list (s.ignored.map .text)),
   ("dry_run", .bool s.dryRun), ("log_level", .text s.logLevel),
   ("log_file", (s.logFile.map Value.text).getD .null)]

inductive ReplacementError where
  | mode
  | pattern
deriving DecidableEq, Repr

def replaced (others : Keyed Text Value) (name : Text) (value : Value) : Value :=
  match others.get? name with
  | none | some .null => value
  | some other => other

def modeIsKnown (values : Keyed Text Value) : Bool :=
  match values.get? "mode".toList with
  | none | some .null => true
  | some value => (readMode value).toOption.isSome

/-- Only a new mode is looked at. -/
def replace (values others : Keyed Text Value) : Except ReplacementError (Keyed Text Value) :=
  if modeIsKnown others then .ok (values.map fun (name, value) => (name, replaced others name value))
  else .error .mode

/-- The items of a list, the names of an object or the characters of a text are the patterns. -/
def patternsOf : Value → Except ReplacementError (List Value)
  | .list items => .ok items
  | .object items => .ok (items.map fun item => .text item.1)
  | .text t => .ok (t.map fun c => .text [c])
  | _ => .error .pattern

/-- A pattern that is no text is found out when it is come to. -/
def anyMatches (path : Text) : List Value → Except ReplacementError Bool
  | [] => .ok false
  | .text pattern :: rest => if matchesPattern pattern path then .ok true else anyMatches path rest
  | _ :: _ => .error .pattern

def valuesIgnore (values : Keyed Text Value) (path : Project.Path) : Except ReplacementError Bool := do
  anyMatches path.text (← patternsOf ((values.get? ignoredName).getD .null))

end Rebind.Settings
