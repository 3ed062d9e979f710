/-
Paths of files, in a normal form that needs no look at the files.
-/
import Rebind.Text.Basic

namespace Rebind.Project

/-- A path: the slashes it starts with, of which two are told from one and from more, and its parts. -/
structure Path where
  root : Text
  parts : List Text
deriving DecidableEq, Repr

namespace Path

def rootOf : (t : Text) → Text
  | '/' :: '/' :: '/' :: _ => ['/']
  | '/' :: '/' :: _ => ['/', '/']
  | '/' :: _ => ['/']
  | _ => []

/-- Empty parts and single dots are left out, two dots are kept. -/
def partsOf (t : Text) : List Text :=
  (Text.pieces '/' t).filter fun p => !p.isEmpty && p != ['.']

def ofText (t : Text) : Path := ⟨rootOf t, partsOf t⟩

def text (p : Path) : Text :=
  if p.root.isEmpty && p.parts.isEmpty then ['.'] else p.root ++ Text.join "/" p.parts

/-- The last part. -/
def name (p : Path) : Text := p.parts.getLast?.getD []

def parent (p : Path) : Path := { p with parts := p.parts.dropLast }

def child (p : Path) (part : Text) : Path := { p with parts := p.parts ++ [part] }

/-- A name without what follows its last dot, where something stands on both sides of that dot. -/
def stemOf (name : Text) : Text :=
  let ending := Text.afterLast '.' name
  let stem := Text.beforeLast '.' name
  if !name.contains '.' || stem.isEmpty || ending.isEmpty then name else stem

def stem (p : Path) : Text := stemOf p.name

end Path

end Rebind.Project
