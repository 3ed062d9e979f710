/-
The layouts of a project as one conversion sees them. Later questions see earlier additions.
-/
import Rebind.Keyed
import Rebind.Layout.File
import Rebind.Layout.Walk

namespace Rebind.Layout

open Rebind.Markup

/-- The files of a project's layouts, and those that were read, `none` for one that is no layout. -/
structure Session where
  files : Keyed Text Bytes
  read : Keyed Text (Option LayoutFile) := []

namespace Session

def file? (s : Session) (name : Text) : Option Bytes :=
  if name.isEmpty then none else s.files.get? name

/-- The layout of a name as it is now. -/
def layout? (s : Session) (name : Text) : Option LayoutFile :=
  if name.isEmpty then none
  else
    match s.read.get? name with
    | some layout => layout
    | none => s.file? name >>= LayoutFile.ofBytes? name

/-- A layout is read when it is first asked for and stays as it is from then on, with what was added to it. -/
def load (s : Session) (name : Text) : Session :=
  if name.isEmpty || s.read.has name then s
  else { s with read := s.read ++ [(name, s.layout? name)] }

def loadAll (s : Session) (names : List Text) : Session := names.foldl load s

/-- The order of reading is the order in which changed layouts are written. -/
def changed (s : Session) : List LayoutFile :=
  (s.read.filterMap (·.2)).filter LayoutFile.changed

def root? (s : Session) : Family := fun name => (s.layout? name).map (·.document.root)

/-- The elements of a layout, and of the layouts it includes when they are to be gone into. A layout has
a file or was read, so there are no more of them than of both. -/
def visits (s : Session) (descend : Bool) (name : Text) : List Visit :=
  match s.root? name with
  | some root => Layout.visits s.root? descend (s.files.length + s.read.length) [name] [] name root
  | none => []

/-- The elements of a layout up to the first one that satisfies `stop`, that one, and the session in
which the layouts on the way were read. -/
def walk (s : Session) (descend : Bool) (stop : Visit → Bool) (name : Text) :
    List Visit × Option Visit × Session :=
  let all := s.visits descend name
  let passed := all.takeWhile fun v => !stop v
  let found := all.find? stop
  (passed ++ found.toList, found, s.loadAll (passed.filterMap (·.opens)))

def find (s : Session) (stop : Visit → Bool) (name : Text) : Option Visit × Session :=
  (s.walk true stop name).2

def ids (s : Session) (name : Text) : List Text :=
  (s.visits true name).filterMap fun v => (viewId? v.element).filter fun id => !id.isEmpty

def collectIds (s : Session) (name : Text) : List Text × Session :=
  (s.ids name, (s.walk true (fun _ => false) name).2.2)

/-- Where an id stands. -/
def locate (s : Session) (id : Text) (name : Text) : Option Visit × Session :=
  s.find (fun v => viewId? v.element == some id) name

def findInclude (s : Session) (id : Text) (name : Text) : Option Visit × Session :=
  s.find (fun v => isInclude v.element && viewId? v.element == some id) name

/-- The session with a layout changed. -/
def change (s : Session) (name : Text) (f : LayoutFile → Except ChangeError LayoutFile) :
    Except ChangeError Session :=
  match s.layout? name with
  | none => .error .noElement
  | some layout => (f layout).map fun layout => { s with read := s.read.insert name (some layout) }

end Session

end Rebind.Layout
