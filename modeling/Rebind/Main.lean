/-
The program: it gathers the files that a run looks at, carries the run out, writes what it changed
and prints what it has to say.
-/
import Rebind.CommandLine.Run

namespace Rebind.Program

open Rebind.Project

def name : Text := "rebind"

def usage : String :=
  "usage: rebind [-h] [--file-only] [--mode view_binding|find_view_by_id]\n" ++
  "              [--project-root DIR] [--no-xml] [--ignore GLOB] [--dry-run] [-v] path"

def systemPath (l : Location) : String :=
  "/" ++ "/".intercalate (l.map String.ofList)

def locationOf (path : String) : Location := Path.partsOf path.toList

def isRead (file : Text) : Bool :=
  Text.endsWith file sourceEnding || Text.endsWith file layoutEnding ||
    markers.any fun names => names.contains file

def gatherFile (t : Tree) (l : Location) : IO Tree := do
  let bytes ← IO.FS.readBinFile (systemPath l)
  return t.putFile l bytes.toList

/-- The tree with the files below a location, as far as they are read by a conversion, and the
folders. -/
partial def gather (t : Tree) (l : Location) : IO Tree := do
  let path ← IO.FS.realPath (systemPath l)
  if ← path.isDir then
    let mut t := t.putFolder l
    for entry in ← path.readDir do
      let below := l ++ [entry.fileName.toList]
      if ← entry.path.isDir then
        if !skippedFolders.contains entry.fileName.toList then t ← gather t below
      else if isRead entry.fileName.toList then t ← gatherFile t below
    return t
  else gatherFile t l

def gatherIfThere (t : Tree) (l : Location) : IO Tree := do
  try gather t l catch _ => return t

def gatherMarkers (t : Tree) (l : Location) : IO Tree :=
  (outward l).foldlM (fun t around =>
    markers.flatten.foldlM (fun t marker => do
      try gatherFile t (around ++ [marker]) catch _ => return t) t) t

/-- The files that a run with the given words looks at. -/
def gatherFor (here : Location) (words : List Text) : IO Tree := do
  let t : Tree := { here, folders := [here] }
  match CommandLine.Arguments.read words with
  | .error _ => return t
  | .ok (a, path) =>
    let p := Path.ofText path
    let t ← gatherIfThere t (t.resolve p)
    let t ← gatherMarkers t (t.resolve p)
    let given := (a.projectRoot.filter fun r => !r.isEmpty).map Path.ofText
    match given.map t.resolve, projectRoot t p with
    | some l, _ | none, .ok l => gatherIfThere t l
    | none, .error _ => return t

/-- The variables that settings are read from. -/
def environment : IO (Keyed Text Text) := do
  let names := Settings.plainNames ++ ["ignore_patterns".toList]
  let spellings := names.flatMap fun n =>
    [Settings.variableStart ++ n, Text.toUpper (Settings.variableStart ++ n)]
  spellings.filterMapM fun n => do
    return (← IO.getEnv (String.ofList n)).map (n, ·.toList)

def writeFile (l : Location) (bytes : Bytes) : IO Unit := do
  let target := systemPath l
  let beside := systemPath (l.dropLast ++ ['.' :: l.getLast?.getD [] ++ ".new".toList])
  IO.FS.writeBinFile beside ⟨bytes.toArray⟩
  IO.FS.rename beside target

def writeChanges (before after : Tree) : IO Unit :=
  after.files.forM fun (l, bytes) => do
    if before.files.get? l != some bytes then writeFile l bytes

/-- Carries a run out; gives the number that the program ends with. -/
def run (words : List Text) : IO UInt32 := do
  let here := locationOf (← IO.currentDir).toString
  let t ← gatherFor here words
  match CommandLine.run name words (← environment) t with
  | .ok result =>
    writeChanges t result.tree
    IO.print (String.ofList result.output)
    IO.eprint (String.ofList result.errors)
    return result.exit.toUInt32
  | .error (.stopped .help) =>
    IO.println usage
    return 0
  | .error (.stopped .misuse) =>
    IO.eprintln usage
    return 2
  | .error (.file why) | .error (.journal (.file why)) =>
    IO.eprintln ("[ERROR] " ++ String.ofList (why.message ⟨[], []⟩))
    return 1
  | .error _ =>
    IO.eprintln "[ERROR] The settings cannot be used"
    return 1

end Rebind.Program

/-- The program. -/
def main (words : List String) : IO UInt32 := Rebind.Program.run (words.map String.toList)
