/-
Which layouts a walk comes to. A walk is kept from the layouts that are open on its way, so it goes along simple paths
only. That loses nothing: the walk comes to every visible element of every layout that is reached, and to no other.
-/
import Mathlib.Logic.Relation
import Rebind.Layout.Session
import Rebind.Proofs.Layout.Walk

namespace Rebind.Layout

open Rebind.Markup List Option
open Relation (ReflTransGen)

variable {family : Family} {name a b : Text} {vs : List Visit} {root : Element} {s : Session}

/-- A visible include element of the first layout names the second one, and there is one of that name. -/
def Includes (family : Family) (a b : Text) : Prop :=
  (family b).isSome = true ∧
    ∃ root place e, family a = some root ∧ VisibleAt root place e ∧ includedLayout? e = some b

/-- The inclusion of a layout that is not among those opened. -/
def IncludesOutside (family : Family) (opened : List Text) (a b : Text) : Prop :=
  Includes family a b ∧ b ∉ opened

/-- The visits hold all visible elements of a layout. -/
def Covers (family : Family) (name : Text) (vs : List Visit) : Prop :=
  ∀ root place e, family name = some root → VisibleAt root place e →
    ∃ v ∈ vs, v.layout = name ∧ v.place = place ∧ v.element = e

theorem Covers.mono {ws} (h : Covers family name vs)
    (hsub : ∀ v ∈ vs, v ∈ ws) : Covers family name ws := by
  intro root place e hroot he
  obtain ⟨v, hv, hat⟩ := h root place e hroot he
  exact ⟨v, hsub v hv, hat⟩

/-! ## Ways that do not come back -/

/-- What is reached at all is reached without coming back to where the way began. -/
theorem outside_self {opened} (h : ReflTransGen (IncludesOutside family opened) a b) :
    ReflTransGen (IncludesOutside family (a :: opened)) a b := by
  induction h with
  | refl => exact .refl
  | @tail b c _ hstep ih =>
    by_cases hc : c = a
    · subst hc
      exact .refl
    · refine ih.tail ⟨hstep.1, ?_⟩
      simpa using ⟨hc, hstep.2⟩

theorem outside_nil (h : ReflTransGen (Includes family) a b) : ReflTransGen (IncludesOutside family []) a b :=
  ReflTransGen.mono (fun _ _ hstep => ⟨hstep, not_mem_nil⟩) _ _ h

/-! ## What a walk comes to -/

section Walks

variable {family : Family} {opened chain : List Text} {name : Text} {place : Place} {e : Element} {vs : List Visit}

/-- A walk comes only to visible elements of layouts that are reached. -/
theorem Walks.reaches (h : Walks family opened chain name place e vs) (hroot : family name = some root)
    (he : VisibleAt root place e) {v} (hv : v ∈ vs) :
    ReflTransGen (Includes family) name v.layout ∧ ∃ r, family v.layout = some r ∧ VisibleAt r v.place v.element := by
  induction h generalizing root v with
  | plain hplain _ ih =>
    rcases mem_cons.1 hv with rfl | hv
    · exact ⟨.refl, root, hroot, he⟩
    · obtain ⟨⟨c, i⟩, hc, hv⟩ := mem_flatMap.1 hv
      exact ih c i hc hroot (he.child hplain (mem_zipIdx_iff_getElem?.1 hc)) hv
  | nowhere _ _ | missing _ _ =>
    obtain rfl := mem_singleton.1 hv
    exact ⟨.refl, root, hroot, he⟩
  | @followed _ _ name next place e root' _ hleads hroot' _ ih =>
    rcases mem_cons.1 hv with rfl | hv
    · exact ⟨.refl, root, hroot, he⟩
    · have hstep : Includes family name next :=
        ⟨by rw [hroot']; rfl, root, place, e, hroot, he, (leadsTo?_eq_some.1 hleads).1⟩
      obtain ⟨hreach, hat⟩ := ih hroot' (visibleAt_nil.2 rfl) hv
      exact ⟨.head hstep hreach, hat⟩

theorem Walks.visits_visible (h : Walks family opened chain name place e vs) {below e'}
    (he' : VisibleAt e below e') : ∃ v ∈ vs, v.layout = name ∧ v.place = place ++ below ∧ v.element = e' := by
  induction h generalizing below e' with
  | @plain _ _ _ place e inner _ _ ih =>
    cases below with
    | nil =>
      obtain rfl := visibleAt_nil.1 he'
      exact ⟨_, mem_cons_self, rfl, (append_nil place).symm, rfl⟩
    | cons i below =>
      obtain ⟨-, c, hc, hbelow⟩ := visibleAt_cons.1 he'
      have hmem : (c, i) ∈ e.inner.elements.zipIdx := mem_zipIdx_iff_getElem?.2 hc
      obtain ⟨v, hv, hname, hplace, helem⟩ := ih c i hmem hbelow
      refine ⟨v, mem_cons_of_mem _ (mem_flatMap.2 ⟨(c, i), hmem, hv⟩), hname, ?_, helem⟩
      rw [hplace, append_assoc]
      rfl
  | nowhere hinclude _ =>
    obtain ⟨rfl, rfl⟩ := he'.eq_of_isInclude hinclude
    exact ⟨_, mem_cons_self, rfl, (append_nil _).symm, rfl⟩
  | missing hleads _ | followed hleads _ _ _ =>
    obtain ⟨rfl, rfl⟩ := he'.eq_of_isInclude (isInclude_of_leadsTo? hleads)
    exact ⟨_, mem_cons_self, rfl, (append_nil _).symm, rfl⟩

/-- The layouts behind the visible include elements of an element, and those reached from there by layouts that
are not open, are covered. -/
def CoversBehind (family : Family) (opened : List Text) (e : Element) (vs : List Visit) : Prop :=
  ∀ below inc next other, VisibleAt e below inc → leadsTo? true opened inc = some next →
    (family next).isSome = true → ReflTransGen (IncludesOutside family (next :: opened)) next other →
    Covers family other vs

/-- A walk of a whole layout covers what is reached outside of the layouts that are open, if it covers what is
behind the include elements. -/
theorem covers_of_outside (hempty : family [] = none) (hroot : family name = some root)
    (h : Walks family opened chain name [] root vs) (hbehind : CoversBehind family opened root vs) {other}
    (hreach : ReflTransGen (IncludesOutside family opened) name other) : Covers family other vs := by
  rcases hreach.cases_head with rfl | ⟨next, ⟨⟨hnext, r, place, e, hr, he, hincluded⟩, hnot⟩, hrest⟩
  · intro r place e hr he
    obtain rfl := some.inj (hroot.symm.trans hr)
    exact h.visits_visible he
  · obtain rfl := some.inj (hroot.symm.trans hr)
    have hne : next ≠ [] := by
      rintro rfl
      rw [hempty] at hnext
      cases hnext
    exact hbehind place e next other he (leadsTo?_eq_some.2 ⟨hincluded, rfl, hne, hnot⟩) hnext (outside_self hrest)

/-- A walk comes to every visible element of every layout that is reached. -/
theorem Walks.covers (hempty : family [] = none) (h : Walks family opened chain name place e vs) :
    CoversBehind family opened e vs := by
  induction h with
  | @plain opened _ _ _ e inner hplain _ ih =>
    intro below inc next other hvisible hleads hnext hreach
    cases below with
    | nil =>
      obtain rfl := visibleAt_nil.1 hvisible
      rw [isInclude_of_leadsTo? hleads] at hplain
      cases hplain
    | cons i below =>
      obtain ⟨-, c, hc, hvisible⟩ := visibleAt_cons.1 hvisible
      have hmem : (c, i) ∈ e.inner.elements.zipIdx := mem_zipIdx_iff_getElem?.2 hc
      refine (ih c i hmem below inc next other hvisible hleads hnext hreach).mono fun v hv => ?_
      exact mem_cons_of_mem _ (mem_flatMap.2 ⟨(c, i), hmem, hv⟩)
  | nowhere hinclude hleads =>
    intro below inc next other hvisible hleads' hnext hreach
    obtain ⟨-, rfl⟩ := hvisible.eq_of_isInclude hinclude
    rw [hleads] at hleads'
    cases hleads'
  | missing hleads hmissing =>
    intro below inc next other hvisible hleads' hnext hreach
    obtain ⟨-, rfl⟩ := hvisible.eq_of_isInclude (isInclude_of_leadsTo? hleads)
    rw [hleads] at hleads'
    obtain rfl := some.inj hleads'
    rw [hmissing] at hnext
    cases hnext
  | followed hleads hroot hwalk ih =>
    intro below inc next other hvisible hleads' hnext hreach
    obtain ⟨-, rfl⟩ := hvisible.eq_of_isInclude (isInclude_of_leadsTo? hleads)
    rw [hleads] at hleads'
    obtain rfl := some.inj hleads'
    exact (covers_of_outside hempty hroot hwalk ih hreach).mono fun v hv => mem_cons_of_mem _ hv

end Walks

theorem exists_visit_iff_reachable (hempty : family [] = none) {chain} (hroot : family name = some root)
    (h : Walks family [name] chain name [] root vs) (p : Element → Prop) :
    (∃ v ∈ vs, p v.element) ↔ ∃ other r place e, ReflTransGen (Includes family) name other ∧
      family other = some r ∧ VisibleAt r place e ∧ p e := by
  constructor
  · rintro ⟨v, hv, hp⟩
    obtain ⟨hreach, r, hr, hvisible⟩ := h.reaches hroot (visibleAt_nil.2 rfl) hv
    exact ⟨v.layout, r, v.place, v.element, hreach, hr, hvisible, hp⟩
  · rintro ⟨other, r, place, e, hreach, hr, hvisible, hp⟩
    have hcovers := covers_of_outside hempty hroot h (h.covers hempty) (outside_self (outside_nil hreach))
    obtain ⟨v, hv, -, -, rfl⟩ := hcovers r place e hr hvisible
    exact ⟨v, hv, hp⟩

/-! ## The ids of a session -/

namespace Session

def names (s : Session) : List Text := s.files.map (·.1) ++ s.read.map (·.1)

theorem mem_names_of_root? (h : s.root? name = some root) : name ∈ s.names := by
  have key : ∀ {α : Type} {m : Keyed Text α} {a : α}, m.get? name = some a → name ∈ m.map (·.1) := by
    intro α m a ha
    obtain ⟨p, hp, -⟩ := map_eq_some_iff.1 ha
    have heq := find?_some hp
    simp only [decide_eq_true_eq] at heq
    exact mem_map.2 ⟨p, mem_of_find?_eq_some hp, heq⟩
  obtain ⟨layout, hlayout, -⟩ := map_eq_some_iff.1 h
  unfold layout? at hlayout
  split at hlayout
  · cases hlayout
  · next hne =>
    split at hlayout
    · next hread => exact mem_append_right _ (key hread)
    · obtain ⟨bytes, hfile, -⟩ := bind_eq_some_iff.1 hlayout
      rw [file?, if_neg hne] at hfile
      exact mem_append_left _ (key hfile)

theorem walks (h : s.root? name = some root) : Walks s.root? [name] [] name [] root (s.visits true name) := by
  rw [visits, h]
  refine walks_visits (fun n r hn => mem_names_of_root? hn) ?_ [] name root
  have hle : (unopened s.names [name]).length ≤ s.names.length := length_filter_le _ _
  simpa [names] using hle

theorem mem_ids {id} : id ∈ s.ids name ↔ ∃ v ∈ s.visits true name, id ≠ [] ∧ viewId? v.element = some id := by
  simp only [ids, mem_filterMap, filter_eq_some_iff, Bool.not_eq_true', isEmpty_eq_false_iff]
  constructor
  · rintro ⟨v, hv, hid, hne⟩
    exact ⟨v, hv, hne, hid⟩
  · rintro ⟨v, hv, hne, hid⟩
    exact ⟨v, hv, hid, hne⟩

/-- The walk of a layout ends, whatever includes what, and the ids that are collected are those of the visible
elements of the layouts that are reached from it. -/
theorem mem_collectIds_iff_reachable {s : Session} {name : Text} {layout : LayoutFile}
    (h : s.layout? name = some layout) :
    Walks s.root? [name] [] name [] layout.document.root (s.visits true name) ∧
    ∀ id, id ∈ (s.collectIds name).1 ↔ id ≠ [] ∧ ∃ other root place e,
      ReflTransGen (Includes s.root?) name other ∧ s.root? other = some root ∧ VisibleAt root place e ∧
      viewId? e = some id := by
  have hroot : s.root? name = some layout.document.root := by rw [root?, h]; rfl
  have hwalk := walks hroot
  refine ⟨hwalk, fun id => ?_⟩
  rw [collectIds, mem_ids, exists_visit_iff_reachable rfl hroot hwalk fun e => id ≠ [] ∧ viewId? e = some id]
  constructor
  · rintro ⟨other, root, place, e, hreach, hr, hvisible, hne, hid⟩
    exact ⟨hne, other, root, place, e, hreach, hr, hvisible, hid⟩
  · rintro ⟨hne, other, root, place, e, hreach, hr, hvisible, hid⟩
    exact ⟨other, root, place, e, hreach, hr, hvisible, hne, hid⟩

/-- Two layouts that include each other; the second one includes itself, too, and one that is missing. -/
def entwined : Session where
  files := [
    ("main", Text.utf8 ("<a xmlns:android=\"http://schemas.android.com/apk/res/android\" " ++
      "android:id=\"@+id/top\"><include layout=\"@layout/part\"/></a>")),
    ("part", Text.utf8 ("<b><include layout=\"@layout/main\"/><include layout=\"@layout/part\"/>" ++
      "<include layout=\"@layout/gone\"/></b>"))]

theorem mem_collectIds_entwined :
    ∃ layout, entwined.layout? "main" = some layout ∧
      Walks entwined.root? ["main"] [] "main" [] layout.document.root (entwined.visits true "main") ∧
      ∀ id, id ∈ (entwined.collectIds "main").1 ↔ id ≠ [] ∧ ∃ other root place e,
        ReflTransGen (Includes entwined.root?) "main" other ∧ entwined.root? other = some root ∧
        VisibleAt root place e ∧ viewId? e = some id := by
  have hread : (entwined.layout? "main").isSome = true := by decide +kernel
  obtain ⟨layout, h⟩ := isSome_iff_exists.1 hread
  exact ⟨layout, h, mem_collectIds_iff_reachable h⟩

end Session

end Rebind.Layout
