/-
Namespaces: what the qualifiers of names stand for.

An element declares namespaces under qualifiers, or one as the default for element names without qualifier. A
declaration holds for the element and everything inside it, up to one of the same qualifier further in.
-/
import Rebind.Markup.Reference
import Rebind.Markup.Remark
import Rebind.Markup.Tree

namespace Rebind.Markup

def xmlSpace : Text := "http://www.w3.org/XML/1998/namespace"

def declarationSpace : Text := "http://www.w3.org/2000/xmlns/"

/-- What a qualifier, or its absence, stands for inside the given tags, of which the nearest comes
first. -/
def bound? (scope : List Tag) (qualifier : Option Text) : Option Text :=
  (scope.flatMap Tag.declarations).find? (fun d => d.1 = qualifier) |>.map (·.2)

def spaceOf? (scope : List Tag) (qualifier : Text) : Option Text :=
  if qualifier == "xml" then some xmlSpace else bound? scope (some qualifier)

def defaultSpace? (scope : List Tag) : Option Text :=
  (bound? scope none).filter fun uri => !uri.isEmpty

def declared? (name : QName) : Option (Option Text) :=
  match name.qualifier with
  | none => if name.base == "xmlns" then some none else none
  | some q => if q == "xmlns" then some (some name.base) else none

/-- Declarations that may not be made are remarked on, and most of them do not count. -/
def judge : (declaration : Option Text × Text) → List Remark × Bool
  | (none, uri) =>
    if uri.isEmpty then ([], true)
    else if uri == xmlSpace || uri == declarationSpace then ([.reservedDeclaration none uri], false)
    else if !isReference uri then ([.malformedSpace uri], true)
    else (if isAbsolute uri then [] else [.relativeSpace uri], true)
  | (some q, uri) =>
    if q == "xml" then (if uri == xmlSpace then [] else [.reservedDeclaration q uri], false)
    else if q == "xmlns" || uri == xmlSpace || uri == declarationSpace then
      ([.reservedDeclaration q uri], false)
    else if uri.isEmpty then ([.emptyDeclaration q], false)
    else (if isReference uri then [] else [.malformedSpace uri], true)

def declaration? (written : QName × Text) : Option (Option Text × Text) :=
  ((declared? written.1).map (·, written.2)).filter fun d => (judge d).2

def nameRemarks (name : QName) : List Remark :=
  if name.isWellFormed then [] else [.malformedName name.text]

def spacing : QName := ⟨some "xml", "space"⟩

def identity : QName := ⟨some "xml", "id"⟩

/-- The remarks on an attribute as it is written. -/
def attributeRemarks (written : QName × Text) : List Remark :=
  let (name, value) := written
  nameRemarks name ++
  (if name = spacing && value != "default" && value != "preserve" then [.unknownSpacing value]
    else []) ++
  match declared? name with
  | some qualifier => (judge (qualifier, value)).1
  | none => []

def areDistinct {α : Type} [DecidableEq α] : List α → Bool
  | [] => true
  | a :: as => !as.contains a && areDistinct as

def Attribute.of? (scope : List Tag) (name : QName) (value : Text) : Option Attribute :=
  match name.qualifier with
  | none => some ⟨name, none, value⟩
  | some q => (spaceOf? scope q).map fun uri => ⟨name, some uri, value⟩

/-- A name whose qualifier nothing declares keeps it as a part of itself. -/
def Attribute.unqualified (name : QName) (value : Text) : Attribute := ⟨⟨none, name.text⟩, none, value⟩

def Attribute.expanded (a : Attribute) : Option Text × Text := (a.space, a.name.base)

def repetitions (earlier : List Attribute) : List Attribute → List Remark
  | [] => []
  | a :: as =>
    (if earlier.any fun b => b.expanded = a.expanded then [.repeatedAttribute a.name] else []) ++
      repetitions (a :: earlier) as

/-- The tag of a name and attributes as they are written inside the given tags, with the remarks on
it. It is refused when a qualifier is declared twice or an attribute is written twice; attributes
whose qualifier nothing declares are looked at for that only when several others are repeated. -/
def Tag.of? (scope : List Tag) (name : QName) (attributes : List (QName × Text)) :
    Option (Tag × List Remark) :=
  let declarations := attributes.filterMap declaration?
  let inner : List Tag := ⟨name, none, declarations, []⟩ :: scope
  let plain := attributes.filter fun a => (declared? a.1).isNone
  let known := plain.filterMap fun (name, value) => Attribute.of? inner name value
  let repeated := repetitions [] known
  let checked := if repeated.length ≤ 1 then known.map (·.name) else plain.map (·.1)
  if !areDistinct (declarations.map (·.1)) || !areDistinct checked then none
  else
    let resolved := plain.map fun (name, value) =>
      (Attribute.of? inner name value).getD (.unqualified name value)
    let unknown := (plain.filter fun (name, value) => (Attribute.of? inner name value).isNone).map
      fun a => Remark.unknownQualifier a.1
    let remarks := nameRemarks name ++ attributes.flatMap attributeRemarks ++ unknown ++ repeated
    match name.qualifier with
    | none => some (⟨name, defaultSpace? inner, declarations, resolved⟩, remarks)
    | some q =>
      match spaceOf? inner q with
      | some uri => some (⟨name, some uri, declarations, resolved⟩, remarks)
      | none =>
        some (⟨⟨none, name.text⟩, none, declarations, resolved⟩, remarks ++ [.unknownQualifier name])

def Notes.addTag (n : Notes) (tag : Tag) (remarks : List Remark) : Notes :=
  (tag.attributes.filter fun a => a.name = identity).foldl (fun n a => n.addId a.value)
    (n.add remarks)

end Rebind.Markup
