/-
The folder of the project that a file belongs to.
-/
import Rebind.Project.Tree

namespace Rebind.Project

def markers : List (List Text) :=
  [["settings.gradle", "settings.gradle.kts"], ["build.gradle", "build.gradle.kts"]]

def outward (l : Location) : List Location :=
  (List.range (l.length + 1)).map fun n => l.take (l.length - n)

/-- The nearest folder around a file that holds a settings script, else the nearest one that holds a build script, else
the file's own. -/
def projectRoot (t : Tree) (p : Path) : Except FileError Location := do
  if p.text.contains '\x00' then throw .nul
  let spelled := t.resolve p
  let isFile := (← t.found? (t.follow [] spelled)).any t.isFile
  let start := if isFile then spelled.dropLast else spelled
  let found := markers.findSome? fun names =>
    (outward start).find? fun l => names.any fun name => t.isFile (l ++ [name])
  return found.getD start

end Rebind.Project
