/-
Documents as trees.
-/
import Rebind.Markup.Encoding
import Rebind.Markup.Name

namespace Rebind.Markup

structure Attribute where
  name : QName
  space : Option Text
  value : Text
deriving DecidableEq, Repr

/-- The start of an element: its name, the namespace of that name, the namespaces it declares (under
a qualifier or as the default one) and its attributes. -/
structure Tag where
  name : QName
  space : Option Text
  declarations : List (Option Text × Text)
  attributes : List Attribute
deriving DecidableEq, Repr

/-- What stands between two tags, written as a list: each kind of item is followed by the rest, and an element holds
content of its own. Runs of characters come as one item. -/
inductive Content where
  | done
  | chars (text : Text) (rest : Content)
  | cdata (text : Text) (rest : Content)
  | comment (text : Text) (rest : Content)
  | instruction (target : Text) (data : Option Text) (rest : Content)
  | element (tag : Tag) (inner : Content) (rest : Content)
deriving DecidableEq, Repr

structure Element where
  tag : Tag
  inner : Content
deriving DecidableEq, Repr

inductive Aside where
  | comment (text : Text)
  | instruction (target : Text) (data : Option Text)
deriving DecidableEq, Repr

structure Document where
  encoding : Encoding
  before : List Aside
  root : Element
  after : List Aside
  handedOut : Nat := 0
deriving DecidableEq, Repr

namespace Content

def reverseOnto : (c onto : Content) → Content
  | done, onto => onto
  | chars text rest, onto => reverseOnto rest (chars text onto)
  | cdata text rest, onto => reverseOnto rest (cdata text onto)
  | comment text rest, onto => reverseOnto rest (comment text onto)
  | instruction target data rest, onto => reverseOnto rest (instruction target data onto)
  | element tag inner rest, onto => reverseOnto rest (element tag inner onto)

def reverse (c : Content) : Content := c.reverseOnto done

/-- The elements among the items. -/
def elements : Content → List Element
  | done => []
  | chars _ rest => elements rest
  | cdata _ rest => elements rest
  | comment _ rest => elements rest
  | instruction _ _ rest => elements rest
  | element tag inner rest => ⟨tag, inner⟩ :: elements rest

/-- The comments among the items. -/
def comments : Content → List Text
  | done => []
  | chars _ rest => comments rest
  | cdata _ rest => comments rest
  | comment text rest => text :: comments rest
  | instruction _ _ rest => comments rest
  | element _ _ rest => comments rest

/-- The content with `f` applied to its element number `i`; `none` when there is no such element or
`f` refuses it. -/
def modify? (f : Element → Option Element) : (i : Nat) → Content → Option Content
  | _, done => none
  | i, chars text rest => (modify? f i rest).map (chars text)
  | i, cdata text rest => (modify? f i rest).map (cdata text)
  | i, comment text rest => (modify? f i rest).map (comment text)
  | i, instruction target data rest => (modify? f i rest).map (instruction target data)
  | 0, element tag inner rest => (f ⟨tag, inner⟩).map fun e => element e.tag e.inner rest
  | i + 1, element tag inner rest => (modify? f i rest).map (element tag inner)

end Content

abbrev Place := List Nat

namespace Element

def at? : (around : List Tag) → Place → Element → Option (List Tag × Element)
  | around, [], e => some (around, e)
  | around, i :: place, e =>
    match e.inner.elements[i]? with
    | some child => at? (e.tag :: around) place child
    | none => none

def modify? (f : Element → Option Element) : Place → Element → Option Element
  | [], e => f e
  | i :: place, e => (e.inner.modify? (modify? f place) i).map fun inner => { e with inner }

end Element

end Rebind.Markup
