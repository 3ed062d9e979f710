/-
The statements that register listeners, and the method that releases a binding.
-/
import Rebind.Listener.Kind

namespace Rebind.Listener

def unlines (lines : List Text) : Text := Text.join ['\n'] lines

def stripBreaks (t : Text) : Text :=
  ((t.dropWhile (· == '\n')).reverse.dropWhile (· == '\n')).reverse

def lambdaParams : (names : List Text) → Text
  | [name] => name
  | names => "(" ++ Text.join ", " names ++ ")"

/-- A registration with a lambda. A lambda that has to return a value where the handler gives none
returns true after calling it. -/
def lambdaRegistration (target setter : Text) (callback : Callback) (call : Text) (wrap : Bool)
    (unit : Text) : Text :=
  let head := target ++ "." ++ setter ++ "(" ++ lambdaParams (callback.params.map (·.2)) ++ " -> "
  if wrap then
    unlines [head ++ "\x7b", unit ++ call ++ ";", unit ++ "return true;", "\x7d);"]
  else head ++ call ++ ");"

def callbackMethod (callback : Callback) (call : Text) (unit : Text) : List Text :=
  (unit ++ "@Override") :: (unit ++ callback.signature ++ " \x7b") ::
    (if call.isEmpty then [] else [unit ++ unit ++ call ++ ";"]) ++ [unit ++ "\x7d"]

def anonymousRegistration (target setter type : Text) (callbacks : List Callback)
    (chosen : Callback) (call unit : Text) : Text :=
  let method (c : Callback) := callbackMethod c (if c.name == chosen.name then call else []) unit
  unlines ((target ++ "." ++ setter ++ "(new " ++ type ++ "() \x7b") ::
    List.intercalate [[]] (callbacks.map method) ++ ["\x7d);".toList])

/-- One registration statement without leading blanks, with `unit` as one step of indentation.
`returnsBoolean` tells whether the handler itself gives the value that a callback returns. -/
def registration (kind : Kind) (target call : Text) (callback : Option Text)
    (returnsBoolean : Bool) (unit : Text) : Text :=
  let shape := kind.shape
  let chosen := shape.callback callback
  stripBreaks <|
    match shape.anonymousType with
    | some type =>
      anonymousRegistration target shape.setter type shape.callbacks chosen call unit
    | none =>
      lambdaRegistration target shape.setter chosen call
        (chosen.returnsBoolean && !returnsBoolean) unit

def teardownMethod (visibility method field unit : Text) : Text :=
  stripBreaks <| unlines [
    "@Override",
    visibility ++ " void " ++ method ++ "() \x7b",
    unit ++ "super." ++ method ++ "();",
    unit ++ field ++ " = null;",
    "\x7d"]

end Rebind.Listener
