/-
The arguments of the command line.
-/
import Rebind.Settings.Reader
import Rebind.Text.Digit

namespace Rebind.CommandLine

/-- The options. -/
inductive Flag where
  | help
  | fileOnly
  | mode
  | projectRoot
  | noXml
  | ignore
  | dryRun
  | verbose
deriving DecidableEq, Repr

namespace Flag

/-- The options by their names. -/
def names : List (Text × Flag) :=
  [("-h", help), ("--help", help), ("--file-only", fileOnly), ("--mode", mode),
   ("--project-root", projectRoot), ("--no-xml", noXml), ("--ignore", ignore),
   ("--dry-run", dryRun), ("-v", verbose), ("--verbose", verbose)]

def ofName? (name : Text) : Option Flag := (names.find? fun n => n.1 == name).map (·.2)

def takesValue : Flag → Bool
  | mode | projectRoot | ignore => true
  | _ => false

end Flag

/-- What the command line asks for. -/
structure Arguments where
  path : Option Text := none
  fileOnly : Bool := false
  mode : Option Conversion.Mode := none
  projectRoot : Option Text := none
  noXml : Bool := false
  ignore : List Text := []
  dryRun : Bool := false
  verbose : Bool := false

inductive Stop where
  | help
  | misuse
deriving DecidableEq, Repr

/-- An argument by itself. -/
inductive Word where
  | plain (t : Text)
  /-- Two hyphens, the first time. -/
  | separator
  | option (flag : Flag) (value : Option Text)
  | letters (flag : Flag) (more : Text)
  | unknown
deriving DecidableEq, Repr

def isNegativeNumber : (t : Text) → Bool
  | '-' :: t =>
    let t := if t.getLast? = some '\n' then t.dropLast else t
    let whole := t.takeWhile Text.isDecimal
    match t.dropWhile Text.isDecimal with
    | [] => !whole.isEmpty
    | '.' :: digits => !digits.isEmpty && digits.all Text.isDecimal
    | _ => false
  | _ => false

def splitValue (t : Text) : Text × Option Text :=
  match Text.cut? "=" t with
  | some (name, value) => (name, some value)
  | none => (t, none)

/-- The options that a shortened name, or a short name with something behind it, can mean. -/
def meant (t : Text) : List Word :=
  match t with
  | '-' :: '-' :: _ =>
    let (name, value) := splitValue t
    (Flag.names.filter fun n => Text.startsWith n.1 name).map fun n => .option n.2 value
  | _ =>
    Flag.names.filterMap fun n =>
      if n.1 == t.take 2 then some (.letters n.2 (t.drop 2))
      else if Text.startsWith n.1 t then some (.option n.2 none)
      else none

/-- An argument that starts with a hyphen is an option. Long options may be shortened as long as only one of them is
meant, and take a value behind an equals sign; short ones without value may stand together behind one hyphen. -/
def classify (t : Text) : Except Stop Word :=
  if t.head? ≠ some '-' || t.length == 1 then .ok (.plain t)
  else if t == "--" then .ok .separator
  else
    match Flag.ofName? t with
    | some flag => .ok (.option flag none)
    | none =>
      let (name, value) := splitValue t
      match value, Flag.ofName? name with
      | some value, some flag => .ok (.option flag (some value))
      | _, _ =>
        match meant t with
        | [word] => .ok word
        | _ :: _ :: _ => .error .misuse
        | [] =>
          if isNegativeNumber t || t.contains ' ' then .ok (.plain t) else .ok .unknown

/-- Two hyphens alone, next to the path, end the options. -/
def classifyAll : List Text → Except Stop (List Word)
  | [] => .ok []
  | t :: rest => do
    let word ← classify t
    if word = .separator then return word :: rest.map .plain
    return word :: (← classifyAll rest)

/-- Carries out an option without value. -/
def setFlag (a : Arguments) : Flag → Except Stop Arguments
  | .help => .error .help
  | .fileOnly => .ok { a with fileOnly := true }
  | .noXml => .ok { a with noXml := true }
  | .dryRun => .ok { a with dryRun := true }
  | .verbose => .ok { a with verbose := true }
  | _ => .error .misuse

/-- Carries out an option with its value. -/
def setValue (a : Arguments) (flag : Flag) (value : Text) : Except Stop Arguments :=
  match flag with
  | .mode =>
    match Settings.modeOf? value with
    | some mode => .ok { a with mode := some mode }
    | none => .error .misuse
  | .projectRoot => .ok { a with projectRoot := some value }
  | .ignore => .ok { a with ignore := a.ignore ++ [value] }
  | _ => .error .misuse

abbrev Surplus := Bool

/-- The short options that stand together behind one hyphen. The first letter that is none ends them
and counts as an argument too many; a hyphen or a value is a fault. -/
def cluster : (letters : Text) → Except Stop (List Flag × Surplus)
  | [] => .ok ([], false)
  | c :: rest =>
    if c == '-' || c == '=' then .error .misuse
    else
      match Flag.ofName? ['-', c] with
      | some flag => do
        let (flags, surplus) ← cluster rest
        return (flag :: flags, surplus)
      | none => .ok ([], true)

/-- Carries out the arguments in order. The separator belongs to the path before or behind it. -/
def carryOut : (a : Arguments) → (surplus : Surplus) → List Word → Except Stop (Arguments × Surplus)
  | a, surplus, [] => .ok (a, surplus)
  | a, surplus, .plain t :: rest =>
    if a.path.isSome then carryOut a true rest
    else
      match rest with
      | .separator :: rest => carryOut { a with path := some t } surplus rest
      | rest => carryOut { a with path := some t } surplus rest
  | a, surplus, .separator :: rest =>
    match a.path, rest with
    | none, .plain t :: rest => carryOut { a with path := some t } surplus rest
    | _, rest => carryOut a true rest
  | a, _, .unknown :: rest => carryOut a true rest
  | a, surplus, .letters flag more :: rest => do
    let (flags, extra) ← cluster more
    carryOut (← (flag :: flags).foldlM setFlag a) (surplus || extra) rest
  | a, surplus, .option flag value :: rest =>
    if flag.takesValue then
      match value, rest with
      | some value, rest => do carryOut (← setValue a flag value) surplus rest
      | none, .plain value :: rest => do carryOut (← setValue a flag value) surplus rest
      | none, _ => .error .misuse
    else
      match value with
      | none => do carryOut (← setFlag a flag) surplus rest
      | some _ => .error .misuse

/-- Arguments are taken in order, and the first fault, or request for help, ends it. Arguments too many are a fault at
the end. -/
def Arguments.read (words : List Text) : Except Stop (Arguments × Text) := do
  let (a, surplus) ← carryOut {} false (← classifyAll words)
  match a.path with
  | some path => if surplus then throw .misuse else return (a, path)
  | none => throw .misuse

end Rebind.CommandLine
