/-
What reading remarks about a document that it can make sense of.
-/
import Rebind.Markup.Name

namespace Rebind.Markup

/-- Some documents are formed well enough to be read and still break a rule on names, namespaces or identifiers. Each
such place gives a remark, which is a fault or only a warning. -/
inductive Remark where
  /-- A colon stands where none may. -/
  | malformedName (name : Text)
  | unknownQualifier (name : QName)
  /-- An attribute of the same name and namespace stands before, under another qualifier. -/
  | repeatedAttribute (name : QName)
  | reservedDeclaration (qualifier : Option Text) (uri : Text)
  /-- A qualifier is declared to stand for nothing. -/
  | emptyDeclaration (qualifier : Text)
  | malformedSpace (uri : Text)
  | relativeSpace (uri : Text)
  | unknownSpacing (value : Text)
  /-- The target of a processing instruction starts with `xml`. -/
  | reservedTarget (target : Text)
  | qualifiedTarget (target : Text)
  | malformedId (id : Text)
  | repeatedId (id : Text)
deriving DecidableEq, Repr

def Remark.isFault : Remark → Bool
  | relativeSpace _ | unknownSpacing _ | reservedTarget _ => false
  | _ => true

def knownTargets : List Text := ["xml-stylesheet", "xml-model"]

def targetRemarks (target : Text) : List Remark :=
  (if (target.take 3).map Char.toLower == "xml" && !knownTargets.contains target then
    [.reservedTarget target] else []) ++
  (if target.contains ':' then [.qualifiedTarget target] else [])

def isId (value : Text) : Bool :=
  isName (((value.dropWhile isSpace).reverse.dropWhile isSpace).reverse)

/-- What reading has noted so far: its remarks, and what elements are identified by, in both lists
the last first. -/
structure Notes where
  remarks : List Remark := []
  ids : List Text := []
deriving DecidableEq, Repr

namespace Notes

def add (n : Notes) (remarks : List Remark) : Notes :=
  { n with remarks := remarks.reverse ++ n.remarks }

def addId (n : Notes) (id : Text) : Notes :=
  { (n.add ((if isId id then [] else [.malformedId id]) ++
      if n.ids.contains id then [.repeatedId id] else [])) with ids := id :: n.ids }

def maxMinded : Nat := 100

/-- The remarks of a list that are minded, where `faults` and `warnings` may still be: once there were
enough of a kind, later ones are passed over. -/
def minded : (faults warnings : Nat) → List Remark → List Remark
  | _, _, [] => []
  | faults, warnings, r :: rest =>
    if r.isFault then
      if faults = 0 then minded faults warnings rest else r :: minded (faults - 1) warnings rest
    else if warnings = 0 then minded faults warnings rest
    else r :: minded faults (warnings - 1) rest

/-- The last remark on a document decides: the document is refused when that one is a fault. -/
def areAcceptable (n : Notes) : Bool :=
  !(minded maxMinded maxMinded n.remarks.reverse).getLast?.any Remark.isFault

end Notes

end Rebind.Markup
