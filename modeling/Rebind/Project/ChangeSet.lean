/-
Writes of files that wait to be made together.
-/
import Rebind.Project.Writing

namespace Rebind.Project

abbrev ChangeSet := Keyed Path Bytes

namespace ChangeSet

def add (c : ChangeSet) (p : Path) (bytes : Bytes) : ChangeSet := c.insert p bytes

def writeAll (t : Tree) : ChangeSet → Except FileError Unit × Tree
  | [] => (.ok (), t)
  | (p, bytes) :: rest =>
    match t.write p bytes with
    | .ok t => writeAll t rest
    | .error why => (.error why, t)

/-- Makes the writes: the paths written, the writes that still wait, and the tree. When one fails the
earlier ones stay made and all of them wait. -/
def commit (c : ChangeSet) (t : Tree) : Except FileError (List Path) × ChangeSet × Tree :=
  match writeAll t c with
  | (.ok (), t) => (.ok (c.map (·.1)), [], t)
  | (.error why, t) => (.error why, c, t)

end ChangeSet

end Rebind.Project
