/-
Walks of a layout before and after additions.

As far as ids go, an addition is quiet (`Session.Quiet`) or gives one view the id that it lacked (`Session.Gives`).
-/
import Mathlib.Data.List.Forall2
import Rebind.Proofs.Layout.Agreement
import Rebind.Proofs.Text.Matching

namespace Rebind.Layout

open Rebind.Markup List Option Bool

variable {e e' : Element} {name : Text} {place : Place} {a : LayoutFile}

/-! ## Elements with additions -/

/-- The second element has the name of the first, includes the same, and has all that describes the first. -/
structure Later (e e' : Element) : Prop where
  name : e'.tag.name = e.tag.name
  included : includedLayout? e' = includedLayout? e
  kept : ∀ key value, androidAttribute? e key = some value → androidAttribute? e' key = some value

theorem Later.of_grown {p} (h : e.tag.Grown (Gained p) e'.tag) : Later e e' := by
  refine ⟨h.name, ?_, fun _ _ => androidAttribute?_of_grown h⟩
  obtain ⟨gained, hattributes, hnew, -⟩ := h.attributes
  have hnone : gained.find? (fun a => a.space.isNone && a.name.base == layoutAttribute) = none := by
    refine find?_eq_none.2 fun x hx => ?_
    obtain ⟨key, hkey, -⟩ := hnew x hx
    have hspace : x.space = some androidSpace := (Prod.mk.inj hkey).1
    simp [hspace]
  unfold includedLayout?
  rw [isInclude_of_tag h.name, hattributes, find?_append, hnone, or_none]

section Later

variable {e e' : Element} (h : Later e e')

include h

theorem Later.isInclude : isInclude e' = isInclude e := isInclude_of_tag h.name

theorem Later.leadsTo? (descend : Bool) (opened : List Text) :
    leadsTo? descend opened e' = leadsTo? descend opened e := by
  unfold Layout.leadsTo?
  rw [h.included]

theorem Later.viewId? {id} (hid : viewId? e = some id) : viewId? e' = some id := by
  unfold Layout.viewId? at hid ⊢
  cases hraw : androidAttribute? e idAttribute with
  | none =>
    rw [hraw] at hid
    cases hid
  | some raw =>
    rw [h.kept _ _ hraw]
    rw [hraw] at hid
    exact hid

theorem Later.hasId (hid : hasId e' = false) : hasId e = false := by
  unfold Layout.hasId hasAttribute at hid ⊢
  cases hraw : androidAttribute? e idAttribute with
  | none => rfl
  | some raw =>
    rw [h.kept _ _ hraw] at hid
    cases hid

end Later

/-- At every place there is a later element, or none as before. -/
def AllLater (e e' : Element) : Prop := ∀ place, Option.Rel Later (elementAt? e place) (elementAt? e' place)

variable {a b : LayoutFile} {α β : Type} {place : Place} {key value : Text}

theorem LayoutFile.Extended.allLater (h : a.Extended b) : AllLater a.document.root b.document.root := by
  obtain ⟨c, texts, hgrown, hinner⟩ := h.root.inner
  intro place
  cases place with
  | nil => exact .some (.of_grown h.root.tag)
  | cons i place =>
    have hsame : elementAt? b.document.root (i :: place) = elementAt? ⟨b.document.root.tag, c⟩ (i :: place) := by
      rw [elementAt?_cons, elementAt?_cons, hinner, Content.elements_withComments]
    rw [hsame]
    exact rel_imp (elementAt?_of_grown (by exact hgrown) i place) fun _ _ hlater => .of_grown hlater.1

namespace AllLater

variable {e e' : Element} (h : AllLater e e')

include h

theorem here : Later e e' := by
  have hroot := h []
  cases hroot with
  | some hroot => exact hroot

theorem child (i : Nat) : Option.Rel AllLater e.inner.elements[i]? e'.inner.elements[i]? := by
  have hat : ∀ place, Option.Rel Later (e.inner.elements[i]? >>= fun c => elementAt? c place)
      (e'.inner.elements[i]? >>= fun c => elementAt? c place) := by
    intro place
    rw [← elementAt?_cons, ← elementAt?_cons]
    exact h (i :: place)
  generalize e.inner.elements[i]? = c, e'.inner.elements[i]? = c' at hat
  cases c <;> cases c'
  · exact .none
  · cases hat []
  · cases hat []
  · exact .some hat

end AllLater

theorem forall₂_of_getElem? {r} {l : List α} {l' : List β} (h : ∀ i : Nat, Option.Rel r l[i]? l'[i]?) :
    List.Forall₂ r l l' := by
  have hhead := h 0
  induction l generalizing l' with
  | nil =>
    cases l' with
    | nil => exact .nil
    | cons b l' => cases hhead
  | cons a l ih =>
    cases l' with
    | nil => cases hhead
    | cons b l' =>
      cases hhead with
      | some hab => exact .cons hab (ih (fun i => h (i + 1)) (h 1))

theorem exists_of_forall₂ {r} {l : List α} {l' : List β} (h : List.Forall₂ r l l') :
    (∀ a ∈ l, ∃ b ∈ l', r a b) ∧ ∀ b ∈ l', ∃ a ∈ l, r a b := by
  induction h with
  | nil => simp
  | cons hab _ ih => simp_all

theorem AllLater.children (h : AllLater e e') :
    List.Forall₂ (fun p q => p ∈ e.inner.elements.zipIdx ∧ q ∈ e'.inner.elements.zipIdx ∧ p.2 = q.2 ∧ AllLater p.1 q.1)
      e.inner.elements.zipIdx e'.inner.elements.zipIdx := by
  refine forall₂_of_getElem? fun i => ?_
  have hchild := h.child i
  rw [getElem?_zipIdx, getElem?_zipIdx]
  cases hc : e.inner.elements[i]? <;> cases hc' : e'.inner.elements[i]? <;> rw [hc, hc'] at hchild
  · exact .none
  · cases hchild
  · cases hchild
  · cases hchild with
    | some hchild =>
      simp only [map_some, Nat.zero_add]
      exact .some ⟨mem_zipIdx_iff_getElem?.2 hc, mem_zipIdx_iff_getElem?.2 hc', rfl, hchild⟩

/-! ## Walks -/

/-- The visits are of one place, the second one later. -/
structure SameSpot (v w : Visit) : Prop where
  layout : w.layout = v.layout
  place : w.place = v.place
  later : Later v.element w.element

theorem Walks.later {family family'} (hfamily : ∀ n, Option.Rel AllLater (family n) (family' n))
    {opened chain chain' : List Text} {vs vs' : List Visit}
    (h : Walks family opened chain name place e vs) (h' : Walks family' opened chain' name place e' vs')
    (he : AllLater e e') : List.Forall₂ SameSpot vs vs' := by
  induction h generalizing chain' e' vs' with
  | @plain opened _ name place e inner hplain _ ih =>
    rw [← he.here.isInclude] at hplain
    cases h' with
    | @plain _ _ _ _ _ inner' _ hchildren' =>
      refine .cons ⟨rfl, rfl, he.here⟩ (rel_flatMap he.children ?_)
      rintro ⟨c, i⟩ ⟨c', j⟩ ⟨hc, hc', rfl, hlater⟩
      exact ih c i hc (hchildren' c' i hc') hlater
    | nowhere hinclude _ => exact absurd (hplain.symm.trans hinclude) false_ne_true
    | missing hleads _ | followed hleads _ _ =>
      exact absurd (hplain.symm.trans (isInclude_of_leadsTo? hleads)) false_ne_true
  | @nowhere opened _ _ _ e hinclude hleads =>
    rw [← he.here.isInclude] at hinclude
    rw [← he.here.leadsTo?] at hleads
    cases h' with
    | plain hplain _ => exact absurd (hplain.symm.trans hinclude) false_ne_true
    | nowhere _ _ | missing _ _ => exact .cons ⟨rfl, rfl, he.here⟩ .nil
    | followed hleads' _ _ => cases hleads.symm.trans hleads'
  | @missing opened _ _ next _ e hleads hmissing =>
    rw [← he.here.leadsTo?] at hleads
    cases h' with
    | plain hplain _ => exact absurd (hplain.symm.trans (isInclude_of_leadsTo? hleads)) false_ne_true
    | nowhere _ _ | missing _ _ => exact .cons ⟨rfl, rfl, he.here⟩ .nil
    | followed hleads' hfound _ =>
      obtain rfl := some.inj (hleads.symm.trans hleads')
      have hnone := hfamily next
      rw [hmissing, hfound] at hnone
      cases hnone
  | @followed opened _ _ next _ e root _ hleads hfound _ ih =>
    rw [← he.here.leadsTo?] at hleads
    have hboth := hfamily next
    rw [hfound] at hboth
    cases h' with
    | plain hplain _ => exact absurd (hplain.symm.trans (isInclude_of_leadsTo? hleads)) false_ne_true
    | nowhere _ hleads' => cases hleads.symm.trans hleads'
    | missing hleads' hmissing =>
      obtain rfl := some.inj (hleads.symm.trans hleads')
      rw [hmissing] at hboth
      cases hboth
    | followed hleads' hfound' hwalk' =>
      obtain rfl := some.inj (hleads.symm.trans hleads')
      rw [hfound'] at hboth
      cases hboth with
      | some hboth => exact .cons ⟨rfl, rfl, he.here⟩ (ih hwalk' hboth)

namespace Session

variable {s s' : Session}

theorem visits_congr (h : s'.layout? = s.layout?) (name : Text) : s'.visits true name = s.visits true name := by
  have hfamily : s'.root? = s.root? := by
    unfold root?
    rw [h]
  cases hroot : s.root? name with
  | none => rw [visits, visits, hfamily, hroot]
  | some root =>
    have hwalk := walks (s := s') (by rw [hfamily, hroot])
    rw [hfamily] at hwalk
    exact hwalk.unique (walks hroot)

theorem ids_congr (h : s'.layout? = s.layout?) (name : Text) : s'.ids name = s.ids name := by
  rw [ids, ids, visits_congr h]

theorem findFree_congr (h : s'.layout? = s.layout?) (type name : Text) :
    (s'.findFree type name).1 = (s.findFree type name).1 := by
  simp only [findFree]
  split
  · rfl
  · simp only [find, walk, visits_congr h]

theorem Extended.root? (h : s.Extended s') (name : Text) : Option.Rel AllLater (s.root? name) (s'.root? name) := by
  have hlayout := h name
  unfold Session.root?
  generalize s.layout? name = a, s'.layout? name = b at hlayout
  cases hlayout with
  | none => exact .none
  | some hab => exact .some hab.allLater

/-- Additions leave elements the names and includes that they have, so a walk after them comes to the same places. -/
theorem visits_of_extended (h : s.Extended s') (name : Text) :
    List.Forall₂ SameSpot (s.visits true name) (s'.visits true name) := by
  have hroots := h.root? name
  cases hroot : s.root? name <;> cases hroot' : s'.root? name <;> rw [hroot, hroot'] at hroots
  · rw [visits, visits, hroot, hroot']
    exact .nil
  · cases hroots
  · cases hroots
  · cases hroots with
    | some hroots => exact (walks hroot).later h.root? (walks hroot') hroots

variable {id x : Text} {v : Visit} {place : Place} {f : LayoutFile → Except ChangeError LayoutFile}

theorem Extended.mem_ids (h : s.Extended s') (hid : id ∈ s.ids name) : id ∈ s'.ids name := by
  obtain ⟨v, hv, hne, hid⟩ := Session.mem_ids.1 hid
  obtain ⟨w, hw, hspot⟩ := (exists_of_forall₂ (visits_of_extended h name)).1 v hv
  exact Session.mem_ids.2 ⟨w, hw, hne, hspot.later.viewId? hid⟩

theorem Extended.findFree_eq_none (h : s.Extended s') {type : Text} (hnone : (s.findFree type name).1 = none) :
    (s'.findFree type name).1 = none := by
  simp only [findFree] at hnone ⊢
  split
  · rfl
  · next hne =>
    rw [if_neg hne] at hnone
    refine find?_eq_none.2 fun w hw hfree => ?_
    obtain ⟨v, hv, hspot⟩ := (exists_of_forall₂ (visits_of_extended h name)).2 w hw
    refine find?_eq_none.1 hnone v hv ?_
    simp only [isFree, simpleTag, tagName, hspot.later.name, hspot.later.isInclude, and_eq_true,
      not_eq_true'] at hfree ⊢
    exact ⟨hfree.1, hspot.later.hasId hfree.2⟩

/-! ## The ids at places -/

def view? (s : Session) (name : Text) (place : Place) : Option Element :=
  s.root? name >>= fun root => elementAt? root place

theorem view?_of_mem_visits (hv : v ∈ s.visits true name) : s.view? v.layout v.place = some v.element := by
  cases hroot : s.root? name with
  | none => simp [visits, hroot] at hv
  | some root =>
    obtain ⟨-, r, hr, hvisible⟩ := (walks hroot).reaches hroot (visibleAt_nil.2 rfl) hv
    rw [view?, hr]
    exact hvisible.1

/-- The id attribute of the element at a place, if there is an element. -/
def idText? (s : Session) (name : Text) (place : Place) : Option (Option Text) :=
  (s.view? name place).map fun e => androidAttribute? e idAttribute

theorem idText?_of_mem_visits (hv : v ∈ s.visits true name) :
    s.idText? v.layout v.place = some (androidAttribute? v.element idAttribute) := by
  rw [idText?, view?_of_mem_visits hv]
  rfl

theorem idText?_congr (h : s'.layout? = s.layout?) : s'.idText? = s.idText? := by
  unfold idText? view? root?
  rw [h]

theorem viewId?_congr (h : androidAttribute? e' idAttribute = androidAttribute? e idAttribute) :
    viewId? e' = viewId? e := by
  unfold viewId?
  rw [h]

theorem viewId?_of_given (h : androidAttribute? e idAttribute = some (newIdMark ++ id)) : viewId? e = some id := by
  unfold viewId?
  rw [h]
  simp only [Text.after?_eq_some.2 rfl, some_or]

structure Quiet (s s' : Session) : Prop where
  extended : s.Extended s'
  same : ∀ n p, s'.idText? n p = s.idText? n p

/-- An addition that gives the view at a place of a layout the id that it lacked. -/
structure Gives (s : Session) (name : Text) (place : Place) (id : Text) (s' : Session) : Prop where
  extended : s.Extended s'
  lacked : s.idText? name place = some none
  given : s'.idText? name place = some (some (newIdMark ++ id))
  others : ∀ n p, ¬(n = name ∧ p = place) → s'.idText? n p = s.idText? n p

theorem Quiet.of_layout?_eq (h : s'.layout? = s.layout?) : s.Quiet s' :=
  ⟨.of_layout?_eq h, fun n p => by rw [idText?_congr h]⟩

theorem Quiet.trans {s''} (h : s.Quiet s') (h' : s'.Quiet s'') : s.Quiet s'' :=
  ⟨h.extended.trans h'.extended, fun n p => (h'.same n p).trans (h.same n p)⟩

theorem Gives.congr {t : Session} (ht : t.layout? = s.layout?) (h : t.Gives name place id s') :
    s.Gives name place id s' := by
  obtain ⟨hextended, hlacked, hgiven, hothers⟩ := h
  rw [idText?_congr ht] at hlacked hothers
  exact ⟨Extended.trans (.of_layout?_eq ht) hextended, hlacked, hgiven, hothers⟩

/-- The id that a view is given is collected from then on. -/
theorem Gives.mem_ids {n} {p : Place} (h : s.Gives n p id s') : x ∈ s'.ids name ↔
      x ∈ s.ids name ∨ x = id ∧ id ≠ [] ∧ ∃ v ∈ s.visits true name, v.layout = n ∧ v.place = p := by
  have hvisits := exists_of_forall₂ (visits_of_extended h.extended name)
  have hgiven : ∀ w ∈ s'.visits true name, w.layout = n → w.place = p → viewId? w.element = some id := by
    rintro w hw rfl rfl
    exact viewId?_of_given (some.inj ((idText?_of_mem_visits hw).symm.trans h.given))
  constructor
  · intro hx
    obtain ⟨w, hw, hne, hid⟩ := Session.mem_ids.1 hx
    obtain ⟨v, hv, hspot⟩ := hvisits.2 w hw
    by_cases hplace : w.layout = n ∧ w.place = p
    · obtain rfl := some.inj ((hgiven w hw hplace.1 hplace.2).symm.trans hid)
      exact .inr ⟨rfl, hne, v, hv, hspot.layout ▸ hplace.1, hspot.place ▸ hplace.2⟩
    · have hsame := h.others _ _ hplace
      rw [idText?_of_mem_visits hw, hspot.layout, hspot.place, idText?_of_mem_visits hv] at hsame
      rw [viewId?_congr (some.inj hsame)] at hid
      exact .inl (Session.mem_ids.2 ⟨v, hv, hne, hid⟩)
  · rintro (hx | ⟨rfl, hne, v, hv, rfl, rfl⟩)
    · exact h.extended.mem_ids hx
    · obtain ⟨w, hw, hspot⟩ := hvisits.1 v hv
      exact Session.mem_ids.2 ⟨w, hw, hne, hgiven w hw hspot.layout hspot.place⟩

theorem Quiet.mem_ids (h : s.Quiet s') : x ∈ s'.ids name ↔ x ∈ s.ids name := by
  refine ⟨fun hx => ?_, h.extended.mem_ids⟩
  obtain ⟨w, hw, hne, hid⟩ := Session.mem_ids.1 hx
  obtain ⟨v, hv, hspot⟩ := (exists_of_forall₂ (visits_of_extended h.extended name)).2 w hw
  have hsame := h.same w.layout w.place
  rw [idText?_of_mem_visits hw, hspot.layout, hspot.place, idText?_of_mem_visits hv] at hsame
  rw [viewId?_congr (some.inj hsame)] at hid
  exact Session.mem_ids.2 ⟨v, hv, hne, hid⟩

/-! ## Changes -/

theorem view?_eq_some (h : s.view? name place = some e) :
    ∃ a, s.layout? name = some a ∧ elementAt? a.document.root place = some e := by
  obtain ⟨root, hroot, he⟩ := bind_eq_some_iff.1 h
  obtain ⟨a, ha, rfl⟩ := map_eq_some_iff.1 hroot
  exact ⟨a, ha, he⟩

theorem idText?_of_change (h : s.change name f = .ok s') :
    ∃ a b, s.layout? name = some a ∧ f a = .ok b ∧ ∀ n p, s'.idText? n p =
      if n = name then (elementAt? b.document.root p).map fun e => androidAttribute? e idAttribute
      else s.idText? n p := by
  obtain ⟨a, b, ha, hb, hlayout⟩ := change_eq_ok h
  refine ⟨a, b, ha, hb, fun n p => ?_⟩
  simp only [idText?, view?, root?, hlayout]
  split <;> rfl

theorem idText?_of_layout? (ha : s.layout? name = some a) (p : Place) :
    s.idText? name p = (elementAt? a.document.root p).map fun e => androidAttribute? e idAttribute := by
  simp only [idText?, view?, root?, ha]
  rfl

theorem Quiet.of_change (h : s.change name f = .ok s')
    (hf : ∀ a b, f a = .ok b → a.Extended b ∧ ∀ p,
      (elementAt? b.document.root p).map (androidAttribute? · idAttribute) =
      (elementAt? a.document.root p).map (androidAttribute? · idAttribute)) : s.Quiet s' := by
  refine ⟨.of_change h fun a b _ hb => (hf a b hb).1, ?_⟩
  obtain ⟨a, b, ha, hb, hsame⟩ := idText?_of_change h
  intro n p
  rw [hsame]
  split
  · next hn => rw [(hf a b hb).2, hn, idText?_of_layout? ha]
  · rfl

end Session

theorem androidAttribute?_congr (h : e'.tag = e.tag) (key : Text) :
    androidAttribute? e' key = androidAttribute? e key := by
  rw [androidAttribute?_eq, androidAttribute?_eq, h]

theorem map_androidAttribute?_congr {o o' : Option Element} (h : o'.map (·.tag) = o.map (·.tag)) (key : Text) :
    o'.map (androidAttribute? · key) = o.map (androidAttribute? · key) := by
  cases o <;> cases o' <;> simp only [map_some, map_none, reduceCtorEq, some.injEq] at h ⊢
  exact androidAttribute?_congr h key

theorem LayoutFile.tag_of_addComment {text} (h : a.addComment [] text = .ok b) (p : Place) :
    (elementAt? b.document.root p).map (·.tag) = (elementAt? a.document.root p).map (·.tag) := by
  obtain rfl := addComment_root_eq_ok h
  cases p with
  | nil => rfl
  | cons i p => rw [elementAt?_cons, elementAt?_cons, Content.elements_insertComment]

theorem exists_modify? {root} (h : elementAt? root place = some e) (e' : Element) :
    ∃ root', root.modify? (fun _ => some e') place = some root' ∧ elementAt? root' place = some e' := by
  induction place generalizing root with
  | nil => exact ⟨e', rfl, rfl⟩
  | cons i place ih =>
    rw [elementAt?_cons] at h
    obtain ⟨c, hc, hat⟩ := bind_eq_some_iff.1 h
    obtain ⟨c', hmodify, hat'⟩ := ih hat
    have hcontent : ∀ (content : Content) (i : Nat), content.elements[i]? = some c →
        ∃ content', content.modify? (Element.modify? (fun _ => some e') place) i = some content' ∧
          content'.elements[i]? = some c' := by
      intro content
      induction content with
      | done => simp [Content.elements]
      | chars _ _ ih | cdata _ _ ih | comment _ _ ih | instruction _ _ _ ih =>
        intro i hi
        obtain ⟨content', hcontent', hi'⟩ := ih i hi
        simp only [Content.modify?, hcontent', map_some]
        exact ⟨_, rfl, hi'⟩
      | element tag inner rest _ ih =>
        intro i hi
        cases i with
        | zero =>
          obtain rfl := some.inj hi
          simp only [Content.modify?, hmodify, map_some]
          exact ⟨_, rfl, rfl⟩
        | succ i =>
          obtain ⟨content', hcontent', hi'⟩ := ih i hi
          simp only [Content.modify?, hcontent', map_some]
          exact ⟨_, rfl, hi'⟩
    obtain ⟨inner, hinner, hi⟩ := hcontent root.inner i hc
    refine ⟨{ root with inner }, by simp only [Element.modify?, hinner, map_some], ?_⟩
    rw [elementAt?_cons, hi]
    exact hat'

theorem LayoutFile.androidAttribute?_of_setAttribute (he : elementAt? a.document.root place = some e)
    (hlacked : hasAttribute e key = false) (h : a.setAttribute place key value = .ok b) :
    ∃ e', elementAt? b.document.root place = some e' ∧
      androidAttribute? e' key = some value ∧ ∀ k ≠ key, androidAttribute? e' k = androidAttribute? e k := by
  obtain ⟨around, e₀, tag, handedOut, he₀, htag, hput⟩ := setAttribute_eq_ok h
  obtain rfl := some.inj (he.symm.trans he₀)
  obtain ⟨root, hroot, rfl⟩ := put_eq_ok hput
  obtain ⟨root', hroot', hat⟩ := exists_modify? he { e with tag }
  obtain rfl := some.inj (hroot.symm.trans hroot')
  obtain ⟨-, -, -, q, hattributes⟩ := Tag.setAttribute_of_lacked htag (hasAttribute_eq_false.1 hlacked)
  have hnone : e.tag.attributes.find? (fun a => decide (a.expanded = androidName key)) = none :=
    find?_eq_none.2 fun x hx => by simpa using hasAttribute_eq_false.1 hlacked x hx
  refine ⟨_, hat, ?_, fun k hk => ?_⟩
  · rw [androidAttribute?_eq, hattributes, find?_append, hnone]
    simp [Attribute.expanded, androidName]
  · rw [androidAttribute?_eq, androidAttribute?_eq, hattributes, find?_append]
    simp [Attribute.expanded, androidName, Ne.symm hk]

theorem LayoutFile.exists_setAttribute (he : elementAt? a.document.root place = some e)
    (hkey : isName key = true) (hvalue : isLegalText value = true) : ∃ b, a.setAttribute place key value = .ok b := by
  unfold setAttribute
  obtain ⟨⟨around, e₀⟩, hat, rfl⟩ := Option.map_eq_some_iff.1 he
  have htag : ∃ r, e₀.tag.setAttribute around a.document.handedOut androidSpace key value = .ok r := by
    simp only [Tag.setAttribute, hkey, hvalue, Bool.not_true, Bool.false_eq_true, if_false]
    split <;> exact ⟨_, rfl⟩
  obtain ⟨⟨tag, handedOut⟩, htag⟩ := htag
  obtain ⟨root, hroot, -⟩ := exists_modify? he { e₀ with tag }
  simp only [hat, htag, put, hroot]
  exact ⟨_, rfl⟩

namespace Session

variable {s s' : Session} {name : Text}

theorem Gives.of_change {id : Text} (he : s.view? name place = some e)
    (hid : hasId e = false) (h : s.change name (fun l => l.assignId place id) = .ok s') : s.Gives name place id s' := by
  obtain ⟨a, ha, hat⟩ := view?_eq_some he
  obtain ⟨a', b, ha', hb, hsame⟩ := idText?_of_change h
  obtain rfl := some.inj (ha.symm.trans ha')
  obtain ⟨e', he', hgiven, -⟩ := LayoutFile.androidAttribute?_of_setAttribute hat hid hb
  refine ⟨.of_change h fun a' b ha' hb => ?_, ?_, ?_, fun n p hother => ?_⟩
  · obtain rfl := some.inj (ha.symm.trans ha')
    exact (Addition.toView hat hid ⟨_, rfl, .inl rfl⟩ hb).extended
  · rw [idText?, he, map_some]
    rw [isNone_iff_eq_none.1 (isSome_eq_false_iff.1 hid)]
  · rw [hsame, if_pos rfl, he', map_some, hgiven]
  · rw [hsame]
    split
    · next hn =>
      have hp : p ≠ place := fun hp => hother ⟨hn, hp⟩
      rw [map_androidAttribute?_congr (LayoutFile.tag_of_setAttribute hb hp), hn, idText?_of_layout? ha]
    · rfl

theorem exists_change {f b} (ha : s.layout? name = some a)
    (hb : f a = .ok b) : ∃ s', s.change name f = .ok s' := by
  simp only [change, ha, hb]
  exact ⟨_, rfl⟩

end Session

end Rebind.Layout
