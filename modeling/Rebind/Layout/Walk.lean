/-
The elements of a layout, and through include elements those of other layouts, from the outside in
and in the order of the files.

An include element stands for the root of the layout it names and is not itself gone into. It is not
followed into a layout that is already open on the way to it. How many layouts can be open at once is
bounded by how many there are, and that is what the recursion counts down.
-/
import Rebind.Layout.View

namespace Rebind.Layout

open Rebind.Markup

abbrev Family := Text → Option Element

/-- An element as it is come upon: where it stands, the ids of the include elements it is reached
through from the outermost on, and the layout that it leads into. -/
structure Visit where
  layout : Text
  place : Place
  element : Element
  chain : List Text
  opens : Option Text
deriving DecidableEq, Repr

/-- The layout that an element leads into, if includes are followed and it is not one of `opened`. -/
def leadsTo? (descend : Bool) (opened : List Text) (e : Element) : Option Text :=
  match includedLayout? e with
  | some name => if descend && !name.isEmpty && !opened.contains name then some name else none
  | none => none

/-- The ids of the includes for what is behind an include element: one without id adds none. -/
def chainBehind (chain : List Text) (e : Element) : List Text :=
  match viewId? e with
  | some id => if id.isEmpty then chain else chain ++ [id]
  | none => chain

/-- The elements of a content from its element number `i` on. `visit` makes the visit of an element at
a place, `behind` gives what an include element leads to. -/
def contentVisits (visit : Place → Element → Visit) (behind : Visit → List Visit) :
    (place : Place) → (i : Nat) → Content → List Visit
  | _, _, .done => []
  | place, i, .chars _ rest => contentVisits visit behind place i rest
  | place, i, .cdata _ rest => contentVisits visit behind place i rest
  | place, i, .comment _ rest => contentVisits visit behind place i rest
  | place, i, .instruction _ _ rest => contentVisits visit behind place i rest
  | place, i, .element tag inner rest =>
    let v := visit (place ++ [i]) ⟨tag, inner⟩
    (v :: if isInclude v.element then behind v
      else contentVisits visit behind (place ++ [i]) 0 inner) ++
      contentVisits visit behind place (i + 1) rest

/-- The elements of the layout `name` with the given root, and of the layouts it includes up to
`depth` of them inside one another. -/
def visits (family : Family) (descend : Bool) :
    (depth : Nat) → (opened chain : List Text) → (name : Text) → (root : Element) → List Visit
  | depth, opened, chain, name, root =>
    let visit (place : Place) (e : Element) : Visit :=
      ⟨name, place, e, chain, leadsTo? descend opened e⟩
    let behind (v : Visit) : List Visit :=
      match v.opens, depth with
      | some next, depth + 1 =>
        match family next with
        | some root =>
          visits family descend depth (next :: opened) (chainBehind chain v.element) next root
        | none => []
      | _, _ => []
    visit [] root :: if isInclude root then behind (visit [] root)
      else contentVisits visit behind [] 0 root.inner
termination_by depth => depth

end Rebind.Layout
