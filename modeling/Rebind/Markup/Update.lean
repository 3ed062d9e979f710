/-
Changes of documents: attributes and comments.
-/
import Rebind.Markup.Namespace

namespace Rebind.Markup

/-- Why a change is refused. -/
inductive UpdateError where
  /-- A text holds characters that no document may hold. -/
  | illegalText
  | illegalName (name : Text)
  | illegalComment
deriving DecidableEq, Repr

/-- The message for a refused change. -/
def UpdateError.message : UpdateError → Text
  | illegalText =>
    "All strings must be XML compatible: Unicode or ASCII, no NULL bytes or control characters"
  | illegalName name => "Invalid attribute name '" ++ name ++ "'"
  | illegalComment => "Comment may not contain '--' or end with '-'"

def madeUp (n : Nat) : Text := "ns" ++ Text.numeral n

/-- The namespaces that a search for a qualifier looks at, from the element `tag` outwards: what each
tag declares, and behind that for the tags around the element their own. -/
def candidates (tag : Tag) (around : List Tag) : List (Option Text × Text) :=
  tag.declarations ++ around.flatMap fun outer =>
    outer.declarations ++ (outer.space.map fun uri => (outer.name.qualifier, uri)).toList

/-- An attribute is written under the nearest qualifier that stands for its namespace, or under one that is made up. -/
def qualifierFor? (tag : Tag) (around : List Tag) (uri : Text) : Option Text :=
  (candidates tag around).findSome? fun (qualifier, bound) =>
    match qualifier with
    | some q =>
      if bound == uri && bound? (tag :: around) (some q) == some uri then some q else none
    | none => none

def freshNumber (scope : List Tag) (handedOut : Nat) : Nat :=
  let free := (List.range ((scope.flatMap Tag.declarations).length + 1)).find? fun i =>
    (bound? scope (some (madeUp (handedOut + i)))).isNone
  handedOut + free.getD 0

/-- The tag with an attribute under a qualifier that stands for its namespace: the first one of that
name and namespace takes the qualifier and the value, and a new one goes last. -/
def Tag.putAttribute (tag : Tag) (a : Attribute) : Tag :=
  let isIt (b : Attribute) := b.expanded = a.expanded
  match tag.attributes.dropWhile (!isIt ·) with
  | [] => { tag with attributes := tag.attributes ++ [a] }
  | _ :: rest => { tag with attributes := tag.attributes.takeWhile (!isIt ·) ++ a :: rest }

/-- An attribute that is there keeps its place and takes qualifier and value; another one goes last. -/
def Tag.setAttribute (tag : Tag) (around : List Tag) (handedOut : Nat) (uri name value : Text) :
    Except UpdateError (Tag × Nat) :=
  if !isName name then .error (.illegalName name)
  else if !isLegalText value then .error .illegalText
  else
    match qualifierFor? tag around uri with
    | some q => .ok (tag.putAttribute ⟨⟨some q, name⟩, some uri, value⟩, handedOut)
    | none =>
      let n := freshNumber (tag :: around) handedOut
      let declaring := { tag with declarations := tag.declarations ++ [(some (madeUp n), uri)] }
      .ok (declaring.putAttribute ⟨⟨some (madeUp n), name⟩, some uri, value⟩, n + 1)

namespace Content

def leading : Content → Text
  | chars text rest => text ++ leading rest
  | cdata text rest => text ++ leading rest
  | _ => []

def insertComment (text tail : Text) : Content → Content
  | chars t rest => chars t (insertComment text tail rest)
  | cdata t rest => cdata t (insertComment text tail rest)
  | rest => comment text (if tail.isEmpty then rest else chars tail rest)

/-- A comment as the first item but characters, with the characters before it repeated behind it, so
that what follows keeps its indentation. -/
def addComment (text : Text) (c : Content) : Except UpdateError Content :=
  if !isLegalText text then .error .illegalText
  else if Text.holds text "--" || Text.endsWith text "-" then .error .illegalComment
  else .ok (c.insertComment text c.leading)

end Content

end Rebind.Markup
