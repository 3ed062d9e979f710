/-
Writing files and making folders.

A file is first written under a longer name beside its place and then takes its place, so that it is
never seen half written; that name has to be short enough too. What a path spells counts for the
place beside it, and where the path leads counts for the place itself.
-/
import Rebind.Project.Tree

namespace Rebind.Project.Tree

def extraName : Nat := 10

def endsInDots (p : Path) : Bool := p.parts.getLast?.all fun name => name == "..".toList

/-- The tree with a file written. The folder it goes to has to be there, and no folder in its place. -/
def write (t : Tree) (p : Path) (bytes : Bytes) : Except FileError Tree := do
  if p.text.contains '\x00' then throw .nul
  let folder ← t.follow [] (t.resolve p.parent)
  if !t.isFolder folder then throw (if t.isFile folder then .notAFolder else .notFound)
  if maxName < byteCount p.name + extraName then throw .tooLong
  let l ← t.locate p
  if endsInDots p then throw .busy
  if t.isFolder l then throw .isAFolder
  return t.putFile l bytes

def makeFolders (t : Tree) : (l : Location) → (parts : List Text) → Except FileError Tree
  | _, [] => .ok t
  | l, part :: rest =>
    if part == ".." then t.makeFolders l.dropLast rest
    else if maxName < byteCount part then .error .tooLong
    else
      let next := l ++ [part]
      if t.isFile next then .error (if rest.isEmpty then .isAFile else .notAFolder)
      else (if t.isFolder next then t else t.putFolder next).makeFolders next rest

/-- The tree with an empty file where a path spells one, unless there is a file, and with the folders
that it lies in; and the location of the file. -/
def makeFile (t : Tree) (p : Path) : Except FileError (Tree × Location) := do
  if p.text.contains '\x00' then throw .nul
  let t ← t.makeFolders (t.start p) p.parent.parts
  let l := t.resolve p
  if t.isFolder l then throw .isAFolder
  if maxName < byteCount p.name then throw .tooLong
  return (if t.isFile l then t else t.putFile l [], l)

end Rebind.Project.Tree
