/-
Calling a handler from a listener callback.
-/
import Rebind.Java.Declaration
import Rebind.Listener.Kind
import Rebind.Naming

namespace Rebind.Listener

open Naming (simpleTypeName)

def callbackConstants : List (Text × Text) :=
  [("TEXT_CHANGED", "onTextChanged"), ("BEFORE_TEXT_CHANGED", "beforeTextChanged"),
   ("AFTER_TEXT_CHANGED", "afterTextChanged"), ("ITEM_SELECTED", "onItemSelected"),
   ("NOTHING_SELECTED", "onNothingSelected")]

def primitiveDefaults : List (Text × Text) :=
  [("int", "0"), ("long", "0L"), ("boolean", "false"), ("float", "0f"), ("double", "0d"),
   ("short", "(short) 0"), ("byte", "(byte) 0"), ("char", "'\\0'")]

def viewTypes : List Text := ["View", "TextView", "CompoundButton", "AdapterView"]

def otherObjectTypes : List Text :=
  ["CharSequence", "Editable", "KeyEvent", "MotionEvent", "String", "Object"]

/-- The callback that calls a handler with these parameters, where the annotation may have chosen
one by a constant. -/
def callbackFor (kind : Kind) (params : List Java.Parameter) (constant : Option Text) : Callback :=
  if kind = .textChanged ∧ constant = none ∧
      params.any (fun p => simpleTypeName p.type == "Editable") then afterTextChanged
  else
    kind.shape.callback
      ((callbackConstants.find? fun (name, _) => some name == constant).map (·.2))

inductive Argument where
  | plain (name : Text)
  | cast (type name : Text)
  | fixed (value : Text)
  deriving DecidableEq

/-- The argument as it is written. -/
def Argument.text : Argument → Text
  | plain name => name
  | cast type name => "(" ++ type ++ ") " ++ name
  | fixed value => value

def Argument.source? : Argument → Option Text
  | plain name => some name
  | cast _ name => some name
  | fixed _ => none

/-- A parameter that the handler declares gets a callback parameter of the same type if there is one left, else a view
cast to the declared type. Where nothing fits, a default value is passed. -/
def argumentFor (free : List (Text × Text)) (param : Java.Parameter) : Argument :=
  let wanted := simpleTypeName param.type
  let ofType (accepts : Text → Bool) : Option Text :=
    (free.find? fun (type, _) => accepts (simpleTypeName type)).map (·.2)
  match ofType (· == wanted) with
  | some name => .plain name
  | none =>
    match if wanted == "CharSequence" then ofType (· == "Editable") else none with
    | some name => .plain name
    | none =>
      let primitive := (primitiveDefaults.find? (·.1 == wanted)).map (·.2)
      match if primitive.isNone && !otherObjectTypes.contains wanted
        then ofType viewTypes.contains else none with
      | some name => .cast param.type name
      | none => .fixed (primitive.getD "null")

/-- No callback parameter is passed twice. -/
def argumentsFor : (free : List (Text × Text)) → List Java.Parameter → List Argument
  | _, [] => []
  | free, p :: ps =>
    let a := argumentFor free p
    a :: argumentsFor (free.filter fun (_, name) => a.source? != some name) ps

def callOf (callback : Callback) (handler : Text) (params : List Java.Parameter) : Text :=
  handler ++ "(" ++ Text.join ", " ((argumentsFor callback.params params).map Argument.text) ++ ")"

end Rebind.Listener
