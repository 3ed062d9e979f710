/-
The naming conventions of an Android project: resource ids and layouts in snake case, the fields
and classes generated for them in camel case, and the ids suggested for views.

An absent name and the empty one are treated alike, so every function here takes a plain text.
-/
import Rebind.Text.Blank
import Rebind.Text.Case

namespace Rebind.Naming

open Text

def defaultFieldName : Text := "view"

def defaultLayoutName : Text := "layout"

def segments (id : Text) : List Text := (pieces '_' id).filter fun p => !p.isEmpty

def capitalize : (word : Text) → Text
  | [] => []
  | c :: rest => upperChar c ++ toLower rest

/-- The name of the field generated for a resource id: `checkout_button` gives `checkoutButton`.
An id without an underscore is kept as it is. -/
def fieldName (id : Text) : Text :=
  if id.isEmpty then defaultFieldName
  else if !id.contains '_' then id
  else
    match segments id with
    | [] => defaultFieldName
    | first :: rest => toLower first ++ rest.flatMap capitalize

def bindingClassName (layout : Text) : Text :=
  match segments layout with
  | [] => "ActivityMainBinding"
  | parts => parts.flatMap capitalize ++ "Binding"

def snakeChar (c : Char) : Text := if isUpper c then '_' :: lowerChar c else lowerChar c

def snakeCase : (name : Text) → Text
  | [] => defaultLayoutName
  | c :: rest => lowerChar c ++ rest.flatMap snakeChar

/-- The suffixes of class names that tell a screen's role, with the layout names' beginnings. -/
def roles : List (Text × Text) :=
  [("Activity", "activity_"), ("Fragment", "fragment_"), ("Dialog", "dialog_")]

def layoutNameOfClass (className : Text) : Option Text :=
  if className.isEmpty then none
  else
    match roles.findSome? fun (suffix, start) => (before? suffix className).map (start, ·) with
    | some (start, stem) => some (start ++ snakeCase stem)
    | none => some (snakeCase className)

/-- What a view type's name may contain, in lower case, and the id prefix that goes with it. -/
def typePrefixes : List (Text × Text) :=
  [("radiobutton", "rb"), ("checkbox", "cb"), ("edittext", "et"), ("textview", "tv"),
   ("imageview", "iv"), ("recyclerview", "rv"), ("listview", "lv"), ("scrollview", "sv"),
   ("switch", "sw"), ("spinner", "sp"), ("progressbar", "pb"), ("seekbar", "sb"),
   ("webview", "wv"), ("cardview", "cv"), ("toolbar", "tb"), ("button", "btn"),
   ("layout", "layout")]

def idPrefixOfType (type : Text) : Text :=
  ((typePrefixes.find? fun (needle, _) => (toLower type).holds needle).map (·.2)).getD "view"

/-- A lower case ASCII letter, then such letters, digits and underscores; one line break may
follow. -/
def isConventionalId (id : Text) : Bool :=
  match if id.endsWith ['\n'] then id.dropLast else id with
  | [] => false
  | c :: rest => c.isLower && rest.all fun d => d.isLower || d.isDigit || d == '_'

/-- The id a field would have by convention: `loginButton` of type `Button` gives
`btn_login_button`. -/
def suggestedId (field type : Text) : Text :=
  let base := snakeCase (if field.isEmpty then defaultFieldName else field)
  let start := idPrefixOfType type
  if base.startsWith start then base else start ++ '_' :: base

def rootIdOfLayout (layout : Text) : Text :=
  (if layout.isEmpty then defaultLayoutName else fieldName layout) ++ "Root"

def simpleTypeName (type : Text) : Text :=
  afterLast '.' (strip (type.takeWhile (· != '<')))

def elementRoles : List (Text × Text) :=
  [("Button", "Button"), ("TextView", "Text"), ("ImageView", "Image"),
   ("LinearLayout", "Linear"), ("RelativeLayout", "Relative"), ("Layout", "Layout")]

def elementRole (tag : Text) : Text :=
  ((elementRoles.find? fun (needle, _) => (afterLast '.' tag).holds needle).map (·.2)).getD "View"

def numbered (base : Text) : Nat → Text
  | 0 => base
  | k + 1 => base ++ numeral (k + 1)

/-- The first of `base`, `base1`, `base2`, … that is not used. Among one more candidates than
there are used names one is free. -/
def uniqueName (base : Text) (used : List Text) : Text :=
  (((List.range (used.length + 1)).map (numbered base)).find? fun name =>
    !used.contains name).getD base

end Rebind.Naming
