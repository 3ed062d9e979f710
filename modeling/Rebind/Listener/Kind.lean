/-
The listeners that a handler method can be annotated for: which setter registers each, which
callbacks its interface has, and whether a lambda can implement it.
-/
import Rebind.Text.Basic

namespace Rebind.Listener

/-- The interactions that handlers are bound to. -/
inductive Kind where
  | click
  | longClick
  | checkedChanged
  | textChanged
  | editorAction
  | focusChange
  | itemClick
  | itemLongClick
  | itemSelected
  | touch
  deriving DecidableEq

namespace Kind

/-- All kinds. -/
def all : List Kind :=
  [.click, .longClick, .checkedChanged, .textChanged, .editorAction, .focusChange, .itemClick,
   .itemLongClick, .itemSelected, .touch]

/-- The name of the annotation for handlers of the kind. -/
def annotationName : Kind → Text
  | click => "OnClick"
  | longClick => "OnLongClick"
  | checkedChanged => "OnCheckedChanged"
  | textChanged => "OnTextChanged"
  | editorAction => "OnEditorAction"
  | focusChange => "OnFocusChange"
  | itemClick => "OnItemClick"
  | itemLongClick => "OnItemLongClick"
  | itemSelected => "OnItemSelected"
  | touch => "OnTouch"

def ofAnnotationName? (name : Text) : Option Kind := all.find? fun k => k.annotationName == name

end Kind

/-- A method of a listener interface. -/
structure Callback where
  name : Text
  params : List (Text × Text)
  returnsBoolean : Bool := false
  deriving DecidableEq

def Callback.signature (c : Callback) : Text :=
  "public " ++ (if c.returnsBoolean then "boolean" else "void") ++ " " ++ c.name ++ "(" ++
    Text.join ", " (c.params.map fun (type, name) => type ++ " " ++ name) ++ ")"

/-- How listeners of a kind are registered. -/
structure Shape where
  setter : Text
  default : Callback
  callbacks : List Callback := [default]
  anonymousType : Option Text := none
  imports : List Text := []

def Shape.callback (s : Shape) (name : Option Text) : Callback :=
  (s.callbacks.find? fun c => some c.name == name).getD s.default

def itemParams : List (Text × Text) :=
  [("AdapterView<?>", "parent"), ("View", "view"), ("int", "position"), ("long", "id")]

def beforeTextChanged : Callback :=
  ⟨"beforeTextChanged",
   [("CharSequence", "s"), ("int", "start"), ("int", "count"), ("int", "after")], false⟩

def onTextChanged : Callback :=
  ⟨"onTextChanged",
   [("CharSequence", "s"), ("int", "start"), ("int", "before"), ("int", "count")], false⟩

def afterTextChanged : Callback := ⟨"afterTextChanged", [("Editable", "s")], false⟩

def onItemSelected : Callback := ⟨"onItemSelected", itemParams, false⟩

def onNothingSelected : Callback := ⟨"onNothingSelected", [("AdapterView<?>", "parent")], false⟩

/-- The shape of the listeners of a kind. -/
def Kind.shape : Kind → Shape
  | click => { setter := "setOnClickListener", default := ⟨"onClick", [("View", "v")], false⟩ }
  | longClick =>
    { setter := "setOnLongClickListener", default := ⟨"onLongClick", [("View", "v")], true⟩ }
  | checkedChanged => {
      setter := "setOnCheckedChangeListener"
      default :=
        ⟨"onCheckedChanged", [("CompoundButton", "buttonView"), ("boolean", "isChecked")], false⟩ }
  | textChanged => {
      setter := "addTextChangedListener"
      default := onTextChanged
      callbacks := [beforeTextChanged, onTextChanged, afterTextChanged]
      anonymousType := some "TextWatcher".toList
      imports := ["android.text.Editable", "android.text.TextWatcher"] }
  | editorAction => {
      setter := "setOnEditorActionListener"
      default :=
        ⟨"onEditorAction", [("TextView", "v"), ("int", "actionId"), ("KeyEvent", "event")], true⟩ }
  | focusChange => {
      setter := "setOnFocusChangeListener"
      default := ⟨"onFocusChange", [("View", "v"), ("boolean", "hasFocus")], false⟩ }
  | itemClick =>
    { setter := "setOnItemClickListener", default := ⟨"onItemClick", itemParams, false⟩ }
  | itemLongClick =>
    { setter := "setOnItemLongClickListener", default := ⟨"onItemLongClick", itemParams, true⟩ }
  | itemSelected => {
      setter := "setOnItemSelectedListener"
      default := onItemSelected
      callbacks := [onItemSelected, onNothingSelected]
      anonymousType := some "AdapterView.OnItemSelectedListener".toList
      imports := ["android.view.View", "android.widget.AdapterView"] }
  | touch => {
      setter := "setOnTouchListener"
      default := ⟨"onTouch", [("View", "v"), ("MotionEvent", "event")], true⟩ }

end Rebind.Listener
