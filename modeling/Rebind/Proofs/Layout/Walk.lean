/-
The walk of a layout as a run that ends.

`Walks` gives one rule for each thing that can happen at an element: its children are walked in order, or it is an
include element that leads nowhere, to a layout that is missing, or to one that is walked in its place.
-/
import Rebind.Layout.Walk

namespace Rebind.Layout

open Rebind.Markup List

variable {root e c : Element} {i : Nat} {place : Place} {descend : Bool} {opened names : List Text} {next : Text}

/-! ## Elements outside of includes -/

def elementAt? (root : Element) (place : Place) : Option Element := (root.at? [] place).map (·.2)

theorem map_snd_at? (place : Place) (around : List Tag) (e : Element) :
    (e.at? around place).map (·.2) = elementAt? e place := by
  induction place generalizing around e with
  | nil => rfl
  | cons i place ih =>
    unfold elementAt?
    rw [Element.at?, Element.at?]
    cases e.inner.elements[i]? with
    | none => rfl
    | some c => exact (ih _ c).trans (ih _ c).symm

@[simp] theorem elementAt?_nil (root : Element) : elementAt? root [] = some root := rfl

theorem elementAt?_cons (root : Element) (i : Nat) (place : Place) :
    elementAt? root (i :: place) = root.inner.elements[i]? >>= fun c => elementAt? c place := by
  unfold elementAt?
  rw [Element.at?]
  cases root.inner.elements[i]? with
  | none => rfl
  | some c => exact map_snd_at? place [root.tag] c

/-- The element stands at the place, and nothing around it is an include element. -/
def VisibleAt (root : Element) (place : Place) (e : Element) : Prop :=
  elementAt? root place = some e ∧
    ∀ above below a, place = above ++ below → below ≠ [] → elementAt? root above = some a → isInclude a = false

theorem visibleAt_nil : VisibleAt root [] e ↔ root = e := by
  constructor
  · intro h
    exact Option.some.inj h.1
  · intro h
    subst h
    refine ⟨rfl, fun above below a heq hne => ?_⟩
    exact absurd (append_eq_nil_iff.1 heq.symm).2 hne

theorem visibleAt_cons : VisibleAt root (i :: place) e ↔
      isInclude root = false ∧ ∃ c, root.inner.elements[i]? = some c ∧ VisibleAt c place e := by
  constructor
  · rintro ⟨hat, hopen⟩
    rw [elementAt?_cons] at hat
    obtain ⟨c, hc, hat⟩ := Option.bind_eq_some_iff.1 hat
    refine ⟨hopen [] (i :: place) root rfl (by simp) rfl, c, hc, hat, fun above below a heq hne ha => ?_⟩
    refine hopen (i :: above) below a (by rw [heq]; rfl) hne ?_
    rw [elementAt?_cons, hc]
    exact ha
  · rintro ⟨hroot, c, hc, hat, hopen⟩
    refine ⟨by rw [elementAt?_cons, hc]; exact hat, fun above below a heq hne ha => ?_⟩
    cases above with
    | nil =>
      obtain rfl := Option.some.inj ha
      exact hroot
    | cons j above =>
      obtain ⟨rfl, rfl⟩ := heq
      rw [elementAt?_cons, hc] at ha
      exact hopen above below a rfl hne ha

theorem VisibleAt.child (h : VisibleAt root place e)
    (he : isInclude e = false) (hc : e.inner.elements[i]? = some c) : VisibleAt root (place ++ [i]) c := by
  induction place generalizing root with
  | nil =>
    obtain rfl := visibleAt_nil.1 h
    exact visibleAt_cons.2 ⟨he, c, hc, visibleAt_nil.2 rfl⟩
  | cons j place ih =>
    obtain ⟨hroot, d, hd, h⟩ := visibleAt_cons.1 h
    exact visibleAt_cons.2 ⟨hroot, d, hd, ih h⟩

theorem VisibleAt.eq_of_isInclude (h : VisibleAt root place e)
    (hroot : isInclude root = true) : place = [] ∧ e = root := by
  cases place with
  | nil => exact ⟨rfl, (visibleAt_nil.1 h).symm⟩
  | cons i place =>
    rw [(visibleAt_cons.1 h).1] at hroot
    cases hroot

/-! ## Runs of the walk -/

def visitOf (descend : Bool) (opened chain : List Text) (name : Text) (place : Place) (e : Element) : Visit :=
  ⟨name, place, e, chain, leadsTo? descend opened e⟩

@[simp] theorem visitOf_opens (descend : Bool) (opened chain : List Text) (name : Text) (place : Place) (e : Element) :
    (visitOf descend opened chain name place e).opens = leadsTo? descend opened e := rfl

@[simp] theorem visitOf_element (descend : Bool) (opened chain : List Text) (name : Text) (place : Place)
    (e : Element) : (visitOf descend opened chain name place e).element = e := rfl

/-- The walk of an element, with the layouts `opened` on the way to it, ends with these visits. -/
inductive Walks (family : Family) :
    (opened chain : List Text) → (name : Text) → Place → Element → List Visit → Prop where
  | plain {opened chain : List Text} {name : Text} {place : Place} {e : Element} {inner : Element × Nat → List Visit}
      (noInclude : isInclude e = false)
      (children : ∀ c i, (c, i) ∈ e.inner.elements.zipIdx →
        Walks family opened chain name (place ++ [i]) c (inner (c, i))) :
      Walks family opened chain name place e
        (visitOf true opened chain name place e :: e.inner.elements.zipIdx.flatMap inner)
  | nowhere {opened chain : List Text} {name : Text} {place : Place} {e : Element} (isInclude : isInclude e = true)
      (leads : leadsTo? true opened e = none) :
      Walks family opened chain name place e [visitOf true opened chain name place e]
  | missing {opened chain : List Text} {name next : Text} {place : Place} {e : Element}
      (leads : leadsTo? true opened e = some next) (none : family next = none) :
      Walks family opened chain name place e [visitOf true opened chain name place e]
  | followed {opened chain : List Text} {name next : Text} {place : Place} {e root : Element} {behind : List Visit}
      (leads : leadsTo? true opened e = some next) (found : family next = some root)
      (walk : Walks family (next :: opened) (chainBehind chain e) next [] root behind) :
      Walks family opened chain name place e (visitOf true opened chain name place e :: behind)

theorem leadsTo?_eq_some : leadsTo? descend opened e = some next ↔
      includedLayout? e = some next ∧ descend = true ∧ next ≠ [] ∧ next ∉ opened := by
  unfold leadsTo?
  cases includedLayout? e with
  | none => simp
  | some name =>
    simp only [Option.ite_none_right_eq_some, Bool.and_eq_true, Bool.not_eq_true', isEmpty_eq_false_iff,
      contains_eq_mem, decide_eq_false_iff_not, Option.some.injEq]
    constructor
    · rintro ⟨⟨⟨h1, h2⟩, h3⟩, rfl⟩
      exact ⟨rfl, h1, h2, h3⟩
    · rintro ⟨rfl, h1, h2, h3⟩
      exact ⟨⟨⟨h1, h2⟩, h3⟩, rfl⟩

theorem isInclude_of_leadsTo? (h : leadsTo? descend opened e = some next) : isInclude e = true := by
  have hincluded := (leadsTo?_eq_some.1 h).1
  unfold includedLayout? at hincluded
  split at hincluded
  · next hinclude => exact hinclude
  · cases hincluded

/-! ## The visits are those of a run -/

def elementVisits (visit : Place → Element → Visit) (behind : Visit → List Visit) (place : Place) (e : Element) :
    List Visit :=
  visit place e :: if isInclude e then behind (visit place e) else contentVisits visit behind place 0 e.inner

theorem contentVisits_eq {visit behind}
    (hvisit : ∀ place e, (visit place e).element = e) (place : Place) (i : Nat) (c : Content) :
    contentVisits visit behind place i c =
      (c.elements.zipIdx i).flatMap fun p => elementVisits visit behind (place ++ [p.2]) p.1 := by
  induction c generalizing i with
  | done => rfl
  | chars _ _ ih | cdata _ _ ih | comment _ _ ih | instruction _ _ _ ih => exact ih i
  | element tag inner rest _ ih =>
    simp only [contentVisits, Content.elements, zipIdx_cons, flatMap_cons, elementVisits, hvisit, ih]

section Layout

variable {family : Family} {opened chain : List Text} {name : Text} {behind : Visit → List Visit}
  (hbehind : ∀ place e, isInclude e = true → Walks family opened chain name place e
    (visitOf true opened chain name place e :: behind (visitOf true opened chain name place e)))

include hbehind

theorem walks_of_children (h : ∀ c i, (c, i) ∈ e.inner.elements.zipIdx → Walks family opened chain name (place ++ [i]) c
      (elementVisits (visitOf true opened chain name) behind (place ++ [i]) c)) :
    Walks family opened chain name place e (elementVisits (visitOf true opened chain name) behind place e) := by
  unfold elementVisits
  cases he : isInclude e with
  | true => exact hbehind place e he
  | false =>
    rw [contentVisits_eq (fun _ _ => rfl)]
    exact .plain he h

theorem walks_content (content : Content) (place : Place) (k : Nat)
    (hc : (c, i) ∈ content.elements.zipIdx k) : Walks family opened chain name (place ++ [i]) c
      (elementVisits (visitOf true opened chain name) behind (place ++ [i]) c) := by
  induction content generalizing place k c i with
  | done => simp [Content.elements] at hc
  | chars _ _ ih | cdata _ _ ih | comment _ _ ih | instruction _ _ _ ih => exact ih place k hc
  | element tag inner rest ihInner ihRest =>
    rcases mem_cons.1 hc with heq | hc
    · obtain ⟨rfl, rfl⟩ := Prod.mk.inj heq
      exact walks_of_children hbehind fun c j hc => ihInner (place ++ [i]) 0 hc
    · exact ihRest place (k + 1) hc

/-- What one layout adds to a run: if what is behind its include elements is walked, all of it is. -/
theorem walks_elementVisits (place : Place) (e : Element) :
    Walks family opened chain name place e (elementVisits (visitOf true opened chain name) behind place e) :=
  walks_of_children hbehind fun _ _ hc => walks_content hbehind e.inner place 0 hc

end Layout

def unopened (names opened : List Text) : List Text := names.filter fun n => !opened.contains n

theorem length_unopened_lt (hmem : next ∈ names) (hnot : next ∉ opened) :
    (unopened names (next :: opened)).length < (unopened names opened).length := by
  have hfilter : unopened names (next :: opened) = (unopened names opened).filter fun n => !(n == next) := by
    rw [unopened, unopened, filter_filter]
    simp only [contains_cons, Bool.not_or]
  rw [hfilter]
  refine length_filter_lt_length_iff_exists.2 ⟨next, ?_, by simp⟩
  rw [unopened, mem_filter]
  simpa using ⟨hmem, hnot⟩

/-- The outcome of such a run is `visits` if its count is not below the number of layouts not yet open. -/
theorem walks_visits {family} (hnames : ∀ n root, family n = some root → n ∈ names)
    {depth} (hdepth : (unopened names opened).length ≤ depth) (chain : List Text)
    (name : Text) (root : Element) :
    Walks family opened chain name [] root (visits family true depth opened chain name root) := by
  induction depth generalizing opened chain name root with
  | zero =>
    rw [visits]
    refine walks_elementVisits (fun place e he => ?_) [] root
    cases hleads : leadsTo? true opened e with
    | none =>
      simp only [visitOf_opens, hleads]
      exact .nowhere he hleads
    | some next =>
      simp only [visitOf_opens, hleads]
      cases hroot : family next with
      | none => exact .missing hleads hroot
      | some root' =>
        -- a layout to go into would be one that is not open yet
        have := length_unopened_lt (hnames next root' hroot) (leadsTo?_eq_some.1 hleads).2.2.2
        omega
  | succ depth ih =>
    rw [visits]
    refine walks_elementVisits (fun place e he => ?_) [] root
    cases hleads : leadsTo? true opened e with
    | none =>
      simp only [visitOf_opens, hleads]
      exact .nowhere he hleads
    | some next =>
      simp only [visitOf_opens, visitOf_element, hleads]
      cases hroot : family next with
      | none => exact .missing hleads hroot
      | some root' =>
        have hfewer := length_unopened_lt (hnames next root' hroot) (leadsTo?_eq_some.1 hleads).2.2.2
        exact .followed hleads hroot (ih (by omega) (chainBehind chain e) next root')

end Rebind.Layout
