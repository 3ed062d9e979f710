/-
The arguments of annotations: splitting them, their names, and the resource ids they refer to.
-/
import Rebind.Java.Bracket
import Rebind.Keyed
import Rebind.Text.Search

namespace Rebind.Binding

open Text

/-- The arguments between the commas outside of brackets, without blanks around them and without
the empty ones. -/
def splitArguments (args : Text) : List Text :=
  ((Java.splitOutside Java.openers Java.closers ',' 0 args).map strip).filter (!·.isEmpty)

def namedArgument? (argument : Text) : Option (Text × Text) := do
  let (name, rest) ← run? isWord (dropBlanks argument)
  let value ← spaced? "=" rest
  if value.head? == some '=' then none else some (name, strip value)

def attributes (args : Text) : Keyed Text Text :=
  Keyed.ofList <| (splitArguments args).map fun argument =>
    (namedArgument? argument).getD ("value", argument)

structure IdRef where
  id : Text
  ref : Text
  deriving DecidableEq

def isPlainName : (t : Text) → Bool
  | [] => false
  | c :: t => (isAsciiLetter c || c == '_') && t.all isWord

/-- The id that `R.id.name`, `R2.id.name` or such a reference with a package before it refers to.
`R2` becomes `R`. -/
def idRef? (item : Text) : Option IdRef :=
  match (pieces '.' (withoutBlanks item)).reverse with
  | id :: marker :: holder :: back =>
    if isPlainName id && marker == "id" && (holder == "R" || holder == "R2") &&
        back.all isPlainName then
      some ⟨id, back.reverse.flatMap (· ++ ['.']) ++ "R.id.".toList ++ id⟩
    else none
  | _ => none

def elements (value : Text) : List Text :=
  let value := strip value
  if value.startsWith ['{'] && value.endsWith ['}'] then splitArguments (value.drop 1).dropLast
  else [value]

def idRefs (value : Text) : List IdRef := (elements value).filterMap idRef?

end Rebind.Binding
