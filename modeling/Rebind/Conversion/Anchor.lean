/-
Where a class sets up its content. Generated code goes next to its content statement.
-/
import Rebind.Conversion.Call
import Rebind.Java.Statement

namespace Rebind.Conversion

open Text

/-- An activity sets up its content in `onCreate` with a call of `setContentView`, a fragment in `onCreateView` by
inflating a layout. -/
inductive Screen where
  | activity
  | fragment
deriving DecidableEq, Repr

namespace Screen

def initMethod : Screen → Text × Nat
  | activity => ("onCreate", 1)
  | fragment => ("onCreateView", 3)

def teardownMethod : Screen → Text
  | activity => "onDestroy"
  | fragment => "onDestroyView"

def teardownVisibility : Screen → Text
  | activity => "protected"
  | fragment => "public"

def contentText : Screen → Text
  | activity => "setContentView(...)"
  | fragment => "inflate(R.layout...)"

def isContent : Screen → (code : Text) → Bool
  | activity, code => (search code 0 code.length Before.unqualified contentCall?).isSome
  | fragment, code =>
    (search code 0 code.length Before.unqualified inflateCall?).isSome &&
      holds (withoutBlanks code) "R.layout."

end Screen

inductive Anchor where
  | noMethod
  | noContent (screen : Screen) (method : Java.Method)
  | content (screen : Screen) (method : Java.Method) (statement : Java.Statement)

namespace Anchor

/-- A class that has the methods of both counts as a fragment. -/
def initOf? (type : Java.TypeDecl) : Option (Screen × Java.Method) :=
  let methodOf? (screen : Screen) : Option (Screen × Java.Method) :=
    (type.methodsNamed screen.initMethod.1 screen.initMethod.2).head?.map (screen, ·)
  (methodOf? .fragment).or (methodOf? .activity)

/-- The content statement is the first statement of the method with a call that sets up the content. -/
def locate (unit : Java.CompilationUnit) (type : Java.TypeDecl) : Except Java.ReadError Anchor := do
  match initOf? type with
  | none => return noMethod
  | some (screen, method) =>
    let found := (← Java.statements unit method).find? fun s =>
      screen.isContent (slice unit.masked s.span.start s.span.stop)
    match found with
    | some statement => return content screen method statement
    | none => return noContent screen method

def layout? (unit : Java.CompilationUnit) : Anchor → Option Text
  | content _ _ s =>
    (search unit.masked s.span.start s.span.stop Before.wordStart layoutReference?).map (·.value)
  | _ => none

def complaint? : Anchor → Option Text
  | noMethod => some "no onCreate/onCreateView method; initialization not generated"
  | noContent screen method =>
    some ("no " ++ screen.contentText ++ " statement in " ++ method.name ++
      "; initialization not generated")
  | content .. => none

end Anchor

end Rebind.Conversion
