/-
Conversion to look-ups: the fields stay, and are set by `findViewById` after the content statement.
-/
import Rebind.Conversion.Progress

namespace Rebind.Conversion

/-- The type that a listener of the kind is registered on, where any view will not do, and its
import. -/
def receiverType? : Listener.Kind → Option (Text × Text)
  | .checkedChanged => some ("CompoundButton", "android.widget.CompoundButton")
  | .textChanged | .editorAction => some ("TextView", "android.widget.TextView")
  | .itemClick | .itemLongClick | .itemSelected => some ("AdapterView<?>", "android.widget.AdapterView")
  | _ => none

def lookup (receiver ref : Text) : Text := receiver ++ "findViewById(" ++ ref ++ ")"

/-- The variable that views are looked up in when the content statement returns the inflated one. -/
def inflatedVariable : Text := "view"

/-- What views are looked up in, what becomes of the content statement and what is returned at the
end; `none` when the inflated view is lost. -/
def lookupFrame? (screen : Screen) (content : Text) : Option (Text × Option Text × List Text) :=
  match screen with
  | .activity => some ([], none, [])
  | .fragment =>
    match storedVariable? content with
    | some name => some (name ++ ".", none, [])
    | none =>
      if startsWithReturn content then
        some (inflatedVariable ++ ".",
          some ("View " ++ inflatedVariable ++ " = " ++ Text.strip (content.drop "return".length)),
          ["return " ++ inflatedVariable ++ ";"])
      else none

def lookupTarget (plan : Plan) (receiver : Text) (handler : Binding.HandlerBinding) (id : Text) :
    Conversion Text :=
  match plan.bindings.fieldsById.get? id with
  | some field => return field.name
  | none =>
    let found := lookup receiver (handler.refOf id)
    match receiverType? handler.kind with
    | none => return found
    | some (type, needed) => do
      Conversion.needImports [needed]
      return "((" ++ type ++ ") " ++ found ++ ")"

/-- Converts a class to look-ups. -/
def convertToLookups (plan : Plan) : Conversion Unit := do
  match plan.anchor with
  | .content screen _ content =>
    match lookupFrame? screen content.text with
    | none => plan.note "inflated view is not stored in a variable; findViewById not generated"
    | some (receiver, statement, tail) =>
      let inits := plan.bindings.fields.map fun f => f.name ++ " = " ++ lookup receiver f.ref ++ ";"
      let listeners ← plan.registrations (lookupTarget plan receiver)
      if inits.isEmpty && listeners.isEmpty && statement.isNone then return
      plan.replaceContent content [] (statement.getD content.text) (inits ++ listeners ++ tail)
  | _ => return

end Rebind.Conversion
