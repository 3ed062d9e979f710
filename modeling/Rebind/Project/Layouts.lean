/-
The layouts of a project: the files of its resource folders for layouts, by name. A folder for layouts lies in a folder
`res` and has a name that starts with `layout`.
-/
import Rebind.Project.Tree

namespace Rebind.Project

def skippedFolders : List Text := ["build", ".git", ".gradle", ".idea", "node_modules"]

def layoutEnding : Text := ".xml"

/-- A layout file: the folders between the project and it, its folder's name, and its own. -/
structure LayoutEntry where
  folders : List Text
  folder : Text
  file : Text

namespace LayoutEntry

/-- The file that the names on the way from the project lead to, if it is a layout. The names of the
project's own path count for what its folder and the one around it are called. -/
def of? (root : Path) (names : List Text) : Option LayoutEntry :=
  let folders := names.dropLast
  match (root.parts ++ folders).reverse, names.getLast? with
  | folder :: outer :: _, some file =>
    if outer == "res" && Text.startsWith folder "layout" && Text.endsWith file layoutEnding &&
        !folders.any skippedFolders.contains then
      some ⟨folders, folder, file⟩
    else none
  | _, _ => none

def name (e : LayoutEntry) : Text := e.file.take (e.file.length - layoutEnding.length)

def path (root : Path) (e : LayoutEntry) : Path := { root with parts := root.parts ++ e.folders ++ [e.file] }

def isPlain (e : LayoutEntry) : Bool := e.folder == "layout"

/-- Folders are gone through from the outside in and by name. -/
def le (a b : LayoutEntry) : Bool :=
  if a.folders = b.folders then Text.le a.file b.file else namesLe a.folders b.folders

end LayoutEntry

/-- The first file of a name counts. -/
def indexEntries (root : Path) (entries : List LayoutEntry) (index : Keyed Text Path) :
    Keyed Text Path :=
  entries.foldl (fun m e => if m.has e.name then m else m.insert e.name (e.path root)) index

/-- What lies in the plain folder `layout` comes before what lies in folders for special screens. -/
def layoutIndex (t : Tree) (root : Path) : Except FileError (Keyed Text Path) := do
  match (← t.find? root).filter t.isFolder with
  | some folder =>
    let entries := ((t.below folder).filterMap (LayoutEntry.of? root)).mergeSort LayoutEntry.le
    return indexEntries root (entries.filter fun e => !e.isPlain)
      (indexEntries root (entries.filter LayoutEntry.isPlain) [])
  | none => return []

def layoutFiles (t : Tree) (index : Keyed Text Path) : Keyed Text Bytes :=
  index.filterMap fun (name, path) => (t.read path).toOption.map (name, ·)

end Rebind.Project
