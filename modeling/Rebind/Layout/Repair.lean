/-
Additions to layouts: ids for views that code refers to.

Nothing that a layout holds is changed or taken away.
-/
import Rebind.Binding.Extraction
import Rebind.Layout.Session

namespace Rebind.Layout

open Rebind.Markup

abbrev Repair := ExceptT ChangeError (StateM Session)

namespace Repair

def ask {α : Type} (f : Session → α × Session) : Repair α := fun s => (.ok (f s).1, (f s).2)

/-- A change of a layout. -/
def change (name : Text) (f : LayoutFile → Except ChangeError LayoutFile) : Repair Unit := fun s =>
  match s.change name f with
  | .ok s => (.ok (), s)
  | .error e => (.error e, s)

def layout? (name : Text) : Repair (Option LayoutFile) :=
  ask fun s => (s.layout? name, s.load name)

end Repair

def hasId (e : Element) : Bool := hasAttribute e idAttribute

def isFree (type : Text) (v : Visit) : Bool :=
  !isInclude v.element && Text.toLower (simpleTag v.element) == type && !hasId v.element

/-- The first view of a type without id; there is none of a type without name. -/
def Session.findFree (s : Session) (type : Text) (name : Text) : Option Visit × Session :=
  let wanted := Text.toLower (Naming.simpleTypeName type)
  if wanted.isEmpty then (none, s) else s.find (isFree wanted) name

def Session.nameless (s : Session) (name : Text) : List Visit :=
  (s.visits false name).filter fun v =>
    !v.place.isEmpty && !isInclude v.element && !hasId v.element

namespace Repair

/-- Ids for elements of a layout, none of them used before; gives the new ids. -/
def nameAll (base : Text) : (used : List Text) → List Visit → Repair (List Text)
  | _, [] => pure []
  | used, v :: rest => do
    let id := Naming.uniqueName (base ++ Naming.elementRole (tagName v.element)) used
    change v.layout fun l => l.assignId v.place id
    return id :: (← nameAll base (used ++ [id]) rest)

/-- Every element of a layout below its root gets an id, include elements excepted; gives the new
ids. -/
def nameChildren (name : Text) : Repair (List Text) := do
  let used ← ask fun s => s.collectIds name
  let missing ← ask fun s => (s.nameless name, s)
  nameAll (Text.without '_' name) used missing

def touchAttributes : List Text := ["clickable", "focusable"]

def ensureOnRoot (name key : Text) : Repair Unit :=
  change name fun l =>
    if hasAttribute l.document.root key then .ok l else l.setAttribute [] key "true"

/-- The id of the root of a layout, given to it if it has none; then the root is made to react to
touch, too, and everything inside gets ids. A root that merges into its surroundings cannot have
one. -/
def rootId (name : Text) : Repair (Option Text) := do
  match (← layout? name).map (·.document.root) with
  | none => return none
  | some root =>
    match (viewId? root).filter fun id => !id.isEmpty with
    | some id => return some id
    | none =>
      if tagName root == "merge" || hasId root then return none
      let used ← ask fun s => s.collectIds name
      let id := Naming.uniqueName (Naming.rootIdOfLayout name) used
      change name fun l => l.assignId [] id
      touchAttributes.forM (ensureOnRoot name)
      discard <| nameChildren name
      return some id

end Repair

/-- What was found for an id bound in code. -/
inductive IdStatus where
  | unchecked
  | found
  | created (tag layout : Text)
  | missing
  | framework
deriving DecidableEq, Repr

structure IdReport where
  status : IdStatus
  suggestion : Option Text := none
deriving DecidableEq, Repr

/-- What was found, in words. -/
def IdStatus.message : IdStatus → Text
  | unchecked => "Layout file not found - assuming ID exists"
  | found => "ID exists"
  | created tag layout => "ID created on " ++ tag ++ " in " ++ layout
  | missing => "ID missing - marker comment added"
  | framework => "Framework ID - not checked"

/-- The report on an id. -/
def IdReport.message (r : IdReport) : Text :=
  r.status.message ++
    match r.suggestion with
    | some name => " (suggested name: " ++ name ++ ")"
    | none => []

def marker (b : Binding.FieldBinding) : Text :=
  " TODO: Add android:id=\"@+id/" ++ b.id ++ "\" to a " ++ Naming.simpleTypeName b.type ++
    " view for field '" ++ b.name ++ "' "

namespace Repair

/-- An id that is bound in code and stands nowhere goes to the first view of the bound type without id; when there is
none, a comment at the top of the layout says what is missing. -/
def place (name : Text) (b : Binding.FieldBinding) : Repair IdStatus := do
  match ← ask fun s => s.findFree b.type name with
  | some v =>
    change v.layout fun l => l.assignId v.place b.id
    return .created (simpleTag v.element) v.layout
  | none =>
    change name fun l =>
      if hasComment l.document.root (marker b) then .ok l else l.addComment [] (marker b)
    return .missing

def ensureId (name : Text) (known : List Text) (b : Binding.FieldBinding) : Repair IdReport := do
  if b.isFramework then return { status := .framework }
  let status ← if known.contains b.id then pure .found else place name b
  return ⟨status,
    if Naming.isConventionalId b.id then none else some (Naming.suggestedId b.name b.type)⟩

/-- The reports on the ids of fields, one after the other. An id counts as known once it was looked
for. -/
def ensureIdsFrom (name : Text) : (known : List Text) → (reports : Keyed Text IdReport) →
    List Binding.FieldBinding → Repair (Keyed Text IdReport)
  | _, reports, [] => pure reports
  | known, reports, b :: rest => do
    let report ← ensureId name known b
    ensureIdsFrom name (if b.isFramework then known else b.id :: known)
      (reports.insert b.id report) rest

/-- Every id that fields are bound to is in the layout, or a comment there asks for it; gives what
was found for each id. -/
def ensureIds (fields : List Binding.FieldBinding) (name : Text) :
    Repair (Keyed Text IdReport) := do
  match ← layout? name with
  | none => return Keyed.ofList (fields.map fun b => (b.id, { status := .unchecked }))
  | some layout =>
    let known ← ask fun s => s.collectIds layout.name
    ensureIdsFrom layout.name known [] fields

end Repair

end Rebind.Layout
