/-
The files and folders that a conversion works on.

A path is spelled from the working folder or from the top and may hold two dots, which lead back to the folder above.
The system limits how long names and paths are.
-/
import Rebind.Keyed
import Rebind.Project.Path
import Rebind.Text.Quoted

namespace Rebind.Project

/-- A location is the names from the top down. -/
abbrev Location := List Text

structure Tree where
  files : Keyed Location Bytes := []
  folders : List Location := []
  here : Location := []
deriving DecidableEq

/-- Why a file cannot be read or written. -/
inductive FileError where
  | notFound
  | notAFolder
  | isAFolder
  | isAFile
  /-- The path ends in dots, or nowhere, so that no file can take its place. -/
  | busy
  | tooLong
  | nul
deriving DecidableEq, Repr

def FileError.message (path : Path) : FileError → Text
  | notFound => "[Errno 2] No such file or directory: " ++ Text.quoted path.text
  | notAFolder => "[Errno 20] Not a directory: " ++ Text.quoted path.text
  | isAFolder => "[Errno 21] Is a directory: " ++ Text.quoted path.text
  | isAFile => "[Errno 17] File exists: " ++ Text.quoted path.text
  | busy => "[Errno 16] Device or resource busy: " ++ Text.quoted path.text
  | tooLong => "[Errno 36] File name too long: " ++ Text.quoted path.text
  | nul => "embedded null byte"

def maxName : Nat := 255

def maxPath : Nat := 4095

def byteCount (t : Text) : Nat := (Text.utf8 t).length

namespace Tree

def isFile (t : Tree) (l : Location) : Bool := t.files.has l

/-- A folder is there when it was made or when something lies in it. -/
def isFolder (t : Tree) (l : Location) : Bool :=
  l.isEmpty || (!t.isFile l &&
    (t.folders.any l.isPrefixOf || t.files.any fun f => l.isPrefixOf f.1))

/-- The location that the parts of a path lead to from a location. Every part but the last has to lead
into a folder. -/
def follow (t : Tree) : (l : Location) → (parts : List Text) → Except FileError Location
  | l, [] => .ok l
  | l, part :: rest =>
    if t.isFolder l then
      if part == ".." then t.follow l.dropLast rest
      else if maxName < byteCount part then .error .tooLong
      else t.follow (l ++ [part]) rest
    else if t.isFile l then .error .notAFolder
    else .error .notFound

def start (t : Tree) (p : Path) : Location := if p.root.isEmpty then t.here else []

/-- The location of a path. -/
def locate (t : Tree) (p : Path) : Except FileError Location :=
  if p.text.contains '\x00' then .error .nul
  else if maxPath < byteCount p.text then .error .tooLong
  else t.follow (t.start p) p.parts

def resolve (t : Tree) (p : Path) : Location :=
  p.parts.foldl (fun (l : Location) (part : Text) => if part == ".." then l.dropLast else l ++ [part])
    (t.start p)

def pathTo (t : Tree) (l : Location) : Path :=
  let shared := ((t.here.zip l).takeWhile fun (a, b) => a == b).length
  ⟨[], List.replicate (t.here.length - shared) "..".toList ++ l.drop shared⟩

/-- Where a look at a location finds something, if anything is there. A name that is too long cannot
be looked for; all other errors mean that nothing is there. -/
def found? (t : Tree) : Except FileError Location → Except FileError (Option Location)
  | .ok l => .ok (if t.isFile l || t.isFolder l then some l else none)
  | .error .tooLong => .error .tooLong
  | .error _ => .ok none

def find? (t : Tree) (p : Path) : Except FileError (Option Location) := t.found? (t.locate p)

def hasFile (t : Tree) (p : Path) : Except FileError Bool := return (← t.find? p).any t.isFile

/-- What a file holds. -/
def read (t : Tree) (p : Path) : Except FileError Bytes := do
  let l ← t.locate p
  match t.files.get? l with
  | some bytes => return bytes
  | none => throw (if t.isFolder l then .isAFolder else .notFound)

def putFile (t : Tree) (l : Location) (bytes : Bytes) : Tree :=
  { t with files := t.files.insert l bytes }

def putFolder (t : Tree) (l : Location) : Tree :=
  if t.folders.contains l then t else { t with folders := t.folders ++ [l] }

def below (t : Tree) (folder : Location) : List (List Text) :=
  t.files.filterMap fun f =>
    if folder.isPrefixOf f.1 && decide (folder.length < f.1.length) then some (f.1.drop folder.length)
    else none

end Tree

def namesLe : (a b : List Text) → Bool
  | [], _ => true
  | _ :: _, [] => false
  | a :: as, b :: bs => if a == b then namesLe as bs else Text.le a b

end Rebind.Project
