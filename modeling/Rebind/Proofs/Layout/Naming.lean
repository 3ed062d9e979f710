/-
The ids that are made up for the views of a layout.

`Session.Given` is the run of such additions: the ids differ from one another and from those before, and nothing else
gets one (`ids_of_nameChildren_and_rootId`).
-/
import Mathlib.Data.List.Perm.Subperm
import Rebind.Proofs.Layout.Revisit

namespace Rebind

open Markup List Option

namespace Naming

theorem numeral_injective {m n} (h : Text.numeral m = Text.numeral n) : m = n := by
  have hvalue : ∀ k, Nat.ofDigitChars 10 (Text.numeral k) 0 = k := fun k =>
    Nat.ofDigitChars_toDigits (by decide) (by decide)
  rw [← hvalue m, h, hvalue n]

theorem numbered_injective (base : Text) : Function.Injective (numbered base) := by
  have hne : ∀ k, base ≠ base ++ Text.numeral k := fun k h => Nat.toDigits_ne_nil (self_eq_append_right.1 h)
  intro i j h
  cases i <;> cases j
  · rfl
  · exact absurd h (hne _)
  · exact absurd h.symm (hne _)
  · rw [numeral_injective (append_cancel_left h)]

theorem exists_numbered (base : Text) (used : List Text) : ∃ k, uniqueName base used = numbered base k ∧
    numbered base k ∉ used ∧ ∀ j < k, numbered base j ∈ used := by
  rw [uniqueName, find?_map]
  cases hfree : (List.range (used.length + 1)).find? ((fun name => !used.contains name) ∘ numbered base) with
  | some k =>
    obtain ⟨hk, -, hbelow⟩ := find?_range_eq_some.1 hfree
    exact ⟨k, rfl, by simpa using hk, fun j hj => by simpa using hbelow j hj⟩
  | none =>
    have hall : ∀ name ∈ (List.range (used.length + 1)).map (numbered base), name ∈ used := by
      intro name hname
      obtain ⟨k, hk, rfl⟩ := mem_map.1 hname
      simpa using find?_eq_none.1 hfree k hk
    have hle := (subperm_of_subset (nodup_range.map (numbered_injective base)) hall).length_le
    rw [length_map, length_range] at hle
    omega

/-- A made-up name is none of those used. -/
theorem uniqueName_not_mem (base : Text) (used : List Text) : uniqueName base used ∉ used := by
  obtain ⟨k, hk, hfresh, -⟩ := exists_numbered base used
  rwa [hk]

theorem uniqueName_least (base : Text) (used : List Text) : uniqueName base used ∉ used ∧
    (base ∉ used → uniqueName base used = base) ∧
    (base ∈ used → ∃ k, 1 ≤ k ∧ uniqueName base used = base ++ Text.numeral k ∧
      ∀ j, 1 ≤ j → j < k → base ++ Text.numeral j ∈ used) := by
  refine ⟨uniqueName_not_mem base used, ?_⟩
  obtain ⟨k, hk, hfresh, hbelow⟩ := exists_numbered base used
  cases k with
  | zero => exact ⟨fun _ => hk, fun hbase => absurd hbase hfresh⟩
  | succ k =>
    refine ⟨fun hbase => absurd (hbelow 0 (by omega)) hbase, fun _ => ⟨k + 1, by omega, hk, fun j hj hlt => ?_⟩⟩
    cases j with
    | zero => cases hj
    | succ j => exact hbelow (j + 1) hlt

variable {base : Text}

theorem uniqueName_ne_nil (h : base ≠ []) (used : List Text) : uniqueName base used ≠ [] := by
  obtain ⟨k, hk, -⟩ := exists_numbered base used
  rw [hk]
  cases k with
  | zero => exact h
  | succ k => exact append_ne_nil_of_left_ne_nil h _

theorem isLegalText_append {t u} (ht : isLegalText t = true) (hu : isLegalText u = true) :
    isLegalText (t ++ u) = true := by
  rw [isLegalText, all_append, Bool.and_eq_true]
  exact ⟨ht, hu⟩

theorem isLegalText_uniqueName (h : isLegalText base = true) (used : List Text) :
    isLegalText (uniqueName base used) = true := by
  obtain ⟨k, hk, -⟩ := exists_numbered base used
  rw [hk]
  cases k with
  | zero => exact h
  | succ k =>
    refine isLegalText_append h (all_eq_true.2 fun c hc => ?_)
    have hdigit : c.isDigit = true := Nat.isDigit_of_mem_toDigits (by decide) (by decide) hc
    rw [Char.isDigit, Bool.and_eq_true, decide_eq_true_eq, decide_eq_true_eq] at hdigit
    have hlow : 48 ≤ c.toNat := UInt32.le_iff_toNat_le.1 hdigit.1
    have hhigh : c.toNat ≤ 57 := UInt32.le_iff_toNat_le.1 hdigit.2
    rw [isLegal, if_neg (by omega)]
    simp only [Bool.and_eq_true, bne_iff_ne]
    omega

theorem isLegalText_elementRole (tag : Text) : isLegalText (elementRole tag) = true := by
  have hroles : ∀ p ∈ elementRoles, isLegalText p.2 = true := by decide
  unfold elementRole
  cases hfound : elementRoles.find? _ with
  | none => decide
  | some p => exact hroles p (mem_of_find?_eq_some hfound)

end Naming

namespace Layout

namespace Repair

variable {α β : Type} {s s' : Session}

theorem bind_eq_ok {x} {f : α → Repair β} {b} :
    (x >>= f) s = (.ok b, s') ↔ ∃ a t, x s = (.ok a, t) ∧ f a t = (.ok b, s') := by
  rw [run_bind]
  rcases x s with ⟨e | a, t⟩
  · constructor
    · intro h
      cases h
    · rintro ⟨a, t', h, -⟩
      cases h
  · constructor
    · intro h
      exact ⟨a, t, rfl, h⟩
    · rintro ⟨a', t', heq, h⟩
      cases heq
      exact h

theorem bind_ask {f} {g : α → Repair β} : (ask f >>= g) s = g (f s).1 (f s).2 := rfl

theorem change_eq_ok {name f u} :
    change name f s = (.ok u, s') ↔ s.change name f = .ok s' := by
  unfold change
  cases s.change name f with
  | error e => constructor <;> intro h <;> cases h
  | ok t =>
    constructor <;> intro h
    · exact congrArg Except.ok (Prod.mk.inj h).2
    · cases h
      rfl

end Repair

namespace Session

variable {s s' : Session} {name : Text}

/-- Ids that were not used before go to places of a layout, one after the other. -/
inductive Given (name : Text) : (used : List Text) → Session → List Place → List Text → Session → Prop where
  | done {used : List Text} {s : Session} : Given name used s [] [] s
  | quiet {used ids : List Text} {s t s' : Session} {places : List Place} (step : s.Quiet t)
      (rest : Given name used t places ids s') : Given name used s places ids s'
  | give {used ids : List Text} {id : Text} {s t s' : Session} {place : Place} {places : List Place} (fresh : id ∉ used)
      (step : s.Gives name place id t) (rest : Given name (used ++ [id]) t places ids s') :
      Given name used s (place :: places) (id :: ids) s'

variable {p : Place}

theorem Extended.idText? (h : s.Extended s') {n raw} (hraw : s.idText? n p = some (some raw)) :
    s'.idText? n p = some (some raw) := by
  have hrel : Option.Rel Later (s.view? n p) (s'.view? n p) := rel_bind (h.root? n) fun _ _ hlater => hlater p
  obtain ⟨e, he, hattribute⟩ := map_eq_some_iff.1 hraw
  rw [he] at hrel
  unfold Session.idText?
  generalize s'.view? n p = o at hrel
  cases hrel with
  | some hlater => rw [map_some, hlater.kept _ _ hattribute]

namespace Given

variable {used ids : List Text} {places : List Place}

theorem extended (h : Given name used s places ids s') : s.Extended s' := by
  induction h with
  | done => exact .of_layout?_eq rfl
  | quiet step _ ih | give _ step _ ih => exact step.extended.trans ih

theorem fresh (h : Given name used s places ids s') : ids.Nodup ∧ ∀ id ∈ ids, id ∉ used := by
  induction h with
  | done => simp
  | quiet _ _ ih => exact ih
  | give hfresh _ _ ih =>
    refine ⟨nodup_cons.2 ⟨fun hmem => ih.2 _ hmem (by simp), ih.1⟩, fun x hx => ?_⟩
    rcases mem_cons.1 hx with rfl | hx
    · exact hfresh
    · exact fun hused => ih.2 x hx (mem_append_left _ hused)

theorem given (h : Given name used s places ids s') :
    places.map (s'.idText? name) = ids.map fun id => some (some (newIdMark ++ id)) := by
  induction h with
  | done => rfl
  | quiet _ _ ih => exact ih
  | give _ step hrest ih => rw [map_cons, map_cons, ih, hrest.extended.idText? step.given]

theorem others (h : Given name used s places ids s') {n p} (hp : n = name → p ∉ places) :
    s'.idText? n p = s.idText? n p := by
  induction h with
  | done => rfl
  | quiet step _ ih => exact (ih hp).trans (step.same n p)
  | give _ step _ ih =>
    refine (ih fun hn hmem => hp hn (mem_cons_of_mem _ hmem)).trans (step.others n p ?_)
    rintro ⟨rfl, rfl⟩
    exact hp rfl mem_cons_self

theorem anti {used'} (h : Given name used' s places ids s') (hsub : ∀ x ∈ used, x ∈ used') :
    Given name used s places ids s' := by
  induction h generalizing used with
  | done => exact .done
  | quiet step _ ih => exact .quiet step (ih hsub)
  | give hfresh step _ ih =>
    refine .give (fun hmem => hfresh (hsub _ hmem)) step (ih fun x hx => ?_)
    rcases mem_append.1 hx with hx | hx
    · exact mem_append_left _ (hsub x hx)
    · exact mem_append_right _ hx

end Given

/-! ## The places that get ids -/

/-- An element of the layout below its root that is no include element and stands in none. -/
def Below (s : Session) (name : Text) (p : Place) : Prop :=
  p ≠ [] ∧ (s.view? name p).map isInclude = some false ∧
    ∀ above below, p = above ++ below → below ≠ [] → (s.view? name above).map isInclude ≠ some true

/-- The ids went, in the order of the document, to the places that satisfy the condition, and no others did. -/
def NamesExactly (s : Session) (name : Text) (lacking : Place → Prop) (ids : List Text) (s' : Session) : Prop :=
  ∃ places : List Place, places.Pairwise (· < ·) ∧ (∀ p, p ∈ places ↔ lacking p) ∧
    places.map (fun p => s'.view? name p >>= viewId?) = ids.map some ∧
    ∀ n p, (n = name → ¬lacking p) → s'.idText? n p = s.idText? n p

/-- An element below the root of the layout that has no id. -/
def Lacks (s : Session) (name : Text) (p : Place) : Prop := s.Below name p ∧ s.idText? name p = some none

theorem Extended.below_iff (h : s.Extended s') : s'.Below name p ↔ s.Below name p := by
  have hsame : ∀ q, (s'.view? name q).map isInclude = (s.view? name q).map isInclude := by
    intro q
    have hrel : Option.Rel Later (s.view? name q) (s'.view? name q) :=
      rel_bind (h.root? name) fun _ _ hlater => hlater q
    generalize s.view? name q = o, s'.view? name q = o' at hrel
    cases hrel with
    | none => rfl
    | some hlater => rw [map_some, map_some, hlater.isInclude]
  simp only [Below, hsame]

theorem mem_map_nameless : p ∈ (s.nameless name).map (·.place) ↔ s.Lacks name p := by
  have hid : ∀ e, hasId e = false ↔ androidAttribute? e idAttribute = none := fun e => by
    rw [hasId, hasAttribute, isSome_eq_false_iff, isNone_iff_eq_none]
  constructor
  · intro hp
    obtain ⟨v, hv, rfl⟩ := mem_map.1 hp
    obtain ⟨root, e, hroot, ⟨hat, hopen⟩, hne, hplain, hlacks, -⟩ := mem_nameless.1 hv
    have hview : ∀ q, s.view? name q = elementAt? root q := fun q => by rw [view?, hroot]; rfl
    refine ⟨⟨hne, by rw [hview, hat, map_some, hplain], fun above below hsplit hbelow htrue => ?_⟩, ?_⟩
    · obtain ⟨a, ha, hinclude⟩ := map_eq_some_iff.1 htrue
      rw [hview] at ha
      rw [hopen above below a hsplit hbelow ha] at hinclude
      cases hinclude
    · rw [idText?, hview, hat, map_some, (hid e).1 hlacks]
  · rintro ⟨⟨hne, hplain, hopen⟩, hlacks⟩
    obtain ⟨e, he, hplain⟩ := map_eq_some_iff.1 hplain
    obtain ⟨root, hroot, hat⟩ := bind_eq_some_iff.1 he
    refine mem_map.2 ⟨visitOf false [name] [] name p e, mem_nameless.2 ⟨root, e, hroot, ⟨hat, ?_⟩, hne, hplain, ?_,
      rfl⟩, rfl⟩
    · intro above below a hsplit hbelow ha
      have hnot := hopen above below hsplit hbelow
      rw [view?, hroot, bind_eq_bind, bind_some, ha, map_some] at hnot
      simpa using hnot
    · rw [idText?, he, map_some] at hlacks
      exact (hid e).2 (some.inj hlacks)

theorem Given.namesExactly {used ids places lacking}
    (h : Given name used s places ids s') (hsorted : places.Pairwise (· < ·)) (hmem : ∀ p, p ∈ places ↔ lacking p) :
    s.NamesExactly name lacking ids s' := by
  refine ⟨places, hsorted, hmem, ?_, fun n p hp => h.others fun hn => (hp hn).imp (hmem p).1⟩
  have hgiven : ∀ p id, s'.idText? name p = some (some (newIdMark ++ id)) →
      (s'.view? name p >>= viewId?) = some id := by
    intro p id hp
    obtain ⟨e, he, hattribute⟩ := map_eq_some_iff.1 hp
    rw [he]
    exact viewId?_of_given hattribute
  have hids := h.given
  clear h hsorted hmem
  induction places generalizing ids with
  | nil => cases ids <;> simp_all
  | cons p places ih =>
    cases ids with
    | nil => simp at hids
    | cons id ids =>
      rw [map_cons, map_cons, List.cons.injEq] at hids
      rw [map_cons, map_cons, hgiven p id hids.1, ih hids.2]

theorem nameless_congr (h : s'.layout? = s.layout?) : s'.nameless name = s.nameless name := by
  have hroot : s'.root? name = s.root? name := by rw [root?, root?, h]
  unfold nameless
  cases hs : s.root? name with
  | none => simp [visits, hroot, hs]
  | some root => rw [visits_false hs, visits_false (hroot.trans hs)]

theorem Given.not_lacks {used ids places} (h : Given name used s places ids s')
    (hall : ∀ p, s.Lacks name p → p ∈ places) (p : Place) : ¬s'.Lacks name p := by
  rintro ⟨hbelow, hlacks⟩
  have hmem : s'.idText? name p ∈ places.map (s'.idText? name) := by
    by_cases hp : p ∈ places
    · exact mem_map_of_mem hp
    · rw [h.others fun _ => hp] at hlacks
      exact absurd (hall p ⟨h.extended.below_iff.1 hbelow, hlacks⟩) hp
  rw [h.given, hlacks] at hmem
  simp at hmem

end Session

namespace Repair

variable {s s' : Session} {name : Text}

open Session (Given)

/-! ## The children of a layout -/

variable {vs : List Visit} {base key id : Text} {r : Option Text} {u : Unit} {keys : List Text} {root : Element}

theorem nameAll_given {used ids : List Text} (h : Pending s vs) (hname : ∀ v ∈ vs, v.layout = name)
    (hrun : nameAll base used vs s = (.ok ids, s')) : Given name used s (vs.map (·.place)) ids s' := by
  induction vs generalizing s used ids with
  | nil =>
    cases hrun
    exact .done
  | cons v vs ih =>
    obtain ⟨_, t, hchange, hrest⟩ := bind_eq_ok.1 hrun
    obtain ⟨ids', t', hrest, hpure⟩ := bind_eq_ok.1 hrest
    cases hpure
    obtain ⟨a, e, ha, he, hid⟩ := h.lacking v mem_cons_self
    have hview : s.view? v.layout v.place = some e := by
      rw [Session.view?, Session.root?, ha]
      exact he
    have hgives := Session.Gives.of_change hview hid (change_eq_ok.1 hchange)
    rw [hname v mem_cons_self] at hgives
    exact .give (Naming.uniqueName_not_mem _ _) hgives (ih (h.of_assignId (change_eq_ok.1 hchange))
      (forall_mem_cons.1 hname).2 hrest)

theorem exists_change_setAttribute {a} {place : Place} {e value}
    (ha : s.layout? name = some a) (he : elementAt? a.document.root place = some e) (hkey : isName key = true)
    (hvalue : isLegalText value = true) : ∃ t, s.change name (fun l => l.setAttribute place key value) = .ok t := by
  obtain ⟨b, hb⟩ := LayoutFile.exists_setAttribute he hkey hvalue
  exact Session.exists_change ha hb

theorem exists_nameAll (h : Pending s vs) (hbase : isLegalText base = true) (used : List Text) :
    ∃ ids s', nameAll base used vs s = (.ok ids, s') := by
  induction vs generalizing s used with
  | nil => exact ⟨[], s, rfl⟩
  | cons v vs ih =>
    obtain ⟨a, e, ha, he, -⟩ := h.lacking v mem_cons_self
    let id := Naming.uniqueName (base ++ Naming.elementRole (tagName v.element)) used
    have hid : isLegalText (newIdMark ++ id) = true := Naming.isLegalText_append (by decide)
      (Naming.isLegalText_uniqueName (Naming.isLegalText_append hbase (Naming.isLegalText_elementRole _)) used)
    obtain ⟨t, ht⟩ := exists_change_setAttribute ha he (by decide : isName idAttribute = true) hid
    obtain ⟨ids, s', hrest⟩ := ih (h.of_assignId ht) (used ++ [id])
    exact ⟨id :: ids, s', bind_eq_ok.2 ⟨(), t, change_eq_ok.2 ht, bind_eq_ok.2 ⟨ids, s', hrest, rfl⟩⟩⟩

theorem nameChildren_given {ids : List Text} (hrun : nameChildren name s = (.ok ids, s')) :
    Given name (s.ids name) s ((s.nameless name).map (·.place)) ids s' := by
  obtain ⟨used, t, hused, hrun⟩ := bind_eq_ok.1 hrun
  cases hused
  obtain ⟨missing, t, hmissing, hrun⟩ := bind_eq_ok.1 hrun
  cases hmissing
  have hsame := s.layout?_collectIds name
  rw [← Session.nameless_congr hsame]
  exact .quiet (.of_layout?_eq hsame) (nameAll_given (Session.pending_nameless _ name)
    (fun v hv => Session.Agree.layout_of_mem_nameless hv) hrun)

theorem exists_nameChildren (hname : isLegalText name = true) (s : Session) :
    ∃ ids s', nameChildren name s = (.ok ids, s') := by
  have hbase : isLegalText (Text.without '_' name) = true :=
    all_eq_true.2 fun c hc => all_eq_true.1 hname c (mem_filter.1 hc).1
  obtain ⟨ids, s', hrun⟩ := exists_nameAll (Session.pending_nameless (s.collectIds name).2 name) hbase (s.ids name)
  exact ⟨ids, s', bind_eq_ok.2 ⟨_, _, rfl, bind_eq_ok.2 ⟨_, _, rfl, hrun⟩⟩⟩

theorem nameChildren_of_not_lacks (h : ∀ p, ¬s.Lacks name p) :
    ∃ s', nameChildren name s = (.ok [], s') ∧ s'.layout? = s.layout? := by
  have hnone : (s.collectIds name).2.nameless name = [] := by
    rw [Session.nameless_congr (s.layout?_collectIds name), ← map_eq_nil_iff (f := (·.place))]
    exact eq_nil_iff_forall_not_mem.2 fun p hp => h p (Session.mem_map_nameless.1 hp)
  refine ⟨(s.collectIds name).2, ?_, s.layout?_collectIds name⟩
  refine bind_eq_ok.2 ⟨_, _, rfl, bind_eq_ok.2 ⟨_, _, rfl, ?_⟩⟩
  dsimp only
  rw [hnone]
  rfl

/-! ## The root of a layout -/

/-- What is known about the id of a root without giving it one. -/
def rootAnswer? : Option Element → Option (Option Text)
  | none => some none
  | some root =>
    match (viewId? root).filter fun id => !id.isEmpty with
    | some id => some (some id)
    | none => if tagName root == "merge" || hasId root then some none else none

/-- The layout has a root that can be given an id: it has none, and does not merge into its surroundings. -/
def RootLacks (s : Session) (name : Text) : Prop :=
  ∃ root, s.root? name = some root ∧ hasId root = false ∧ tagName root ≠ "merge"

theorem rootAnswer?_eq_none : rootAnswer? (s.root? name) = none ↔ RootLacks s name := by
  unfold rootAnswer? RootLacks
  cases s.root? name with
  | none => simp
  | some root =>
    have hview : hasId root = false → viewId? root = none := by
      intro hid
      have hnone : androidAttribute? root idAttribute = none := by simpa [hasId, hasAttribute] using hid
      simp only [viewId?, hnone]
    simp only [Option.some.injEq, exists_eq_left']
    split
    · next id heq =>
      constructor
      · intro h
        cases h
      · intro h
        rw [hview h.1] at heq
        cases heq
    · simp [and_comm]

theorem eq_of_rootAnswer? {o : Option Element} (h : rootAnswer? o = some r) :
    r = (o.bind viewId?).filter fun id => !id.isEmpty := by
  unfold rootAnswer? at h
  split at h
  · exact (some.inj h).symm
  · next root =>
    rw [bind_some]
    split at h
    · next id heq => rw [heq, some.inj h]
    · next heq =>
      rw [heq]
      split at h
      · exact (some.inj h).symm
      · cases h

/-- The root gets an id and reacts to touch, and what is inside gets ids. -/
def nameRoot (name : Text) : Repair (Option Text) := do
  let used ← ask fun s => s.collectIds name
  let id := Naming.uniqueName (Naming.rootIdOfLayout name) used
  change name fun l => l.assignId [] id
  touchAttributes.forM (ensureOnRoot name)
  discard <| nameChildren name
  return some id

theorem rootId_eq : rootId name s =
    (rootAnswer? (s.root? name)).elim (nameRoot name (s.load name)) fun r => (.ok r, s.load name) := by
  unfold rootId layout?
  rw [bind_ask, show (s.layout? name).map (·.document.root) = s.root? name from rfl]
  cases s.root? name with
  | none => rfl
  | some root =>
    simp only [rootAnswer?]
    cases (viewId? root).filter fun id => !id.isEmpty with
    | some id => rfl
    | none =>
      dsimp only
      split <;> rfl

theorem rootId_of_answer (h : rootAnswer? (s.root? name) = some r) : rootId name s = (.ok r, s.load name) := by
  rw [rootId_eq, h]
  rfl

theorem rootId_of_no_answer (h : rootAnswer? (s.root? name) = none) :
    rootId name s = nameRoot name (s.load name) ∧ ∃ root, s.root? name = some root ∧ hasId root = false := by
  refine ⟨by rw [rootId_eq, h]; rfl, ?_⟩
  cases hroot : s.root? name with
  | none => simp [hroot, rootAnswer?] at h
  | some root =>
    simp only [hroot, rootAnswer?] at h
    split at h
    · cases h
    · simp_all

theorem map_eq_ok {α β} {x : Repair α} {f} {b : β} :
    (f <$> x) s = (.ok b, s') ↔ ∃ a, x s = (.ok a, s') ∧ f a = b := by
  rcases hx : x s with ⟨e | a, t⟩ <;> simp only [Functor.map, ExceptT.map, ExceptT.mk, Bind.bind, StateT.bind, hx]
  · constructor
    · intro h
      cases h
    · rintro ⟨a, h, -⟩
      cases h
  · constructor
    · intro h
      cases h
      exact ⟨a, rfl, rfl⟩
    · rintro ⟨a', h, rfl⟩
      cases h
      rfl

theorem ensureOnRoot_quiet (hkey : key ∈ touchAttributes) (hrun : ensureOnRoot name key s = (.ok u, s')) :
    s.Quiet s' := by
  refine .of_change (change_eq_ok.1 hrun) fun a b hb => ?_
  split at hb
  · cases hb
    exact ⟨.refl a, fun _ => rfl⟩
  · next hlacked =>
    have hlacked : hasAttribute a.document.root key = false := by simpa using hlacked
    refine ⟨(Addition.toView rfl hlacked ⟨_, rfl, .inr ⟨rfl, hkey⟩⟩ hb).extended, fun p => ?_⟩
    by_cases hp : p = []
    · subst hp
      obtain ⟨e', he', -, hothers⟩ := LayoutFile.androidAttribute?_of_setAttribute rfl hlacked hb
      have hne : idAttribute ≠ key := by
        rintro rfl
        exact absurd hkey (by decide)
      rw [he', elementAt?_nil, map_some, map_some, hothers _ hne]
    · exact map_androidAttribute?_congr (LayoutFile.tag_of_setAttribute hb hp) _

theorem touch_quiet (hkeys : ∀ key ∈ keys, key ∈ touchAttributes) (hrun : keys.forM (ensureOnRoot name) s = (.ok u, s'))
    : s.Quiet s' := by
  induction keys generalizing s with
  | nil =>
    cases hrun
    exact .of_layout?_eq rfl
  | cons key keys ih =>
    obtain ⟨_, t, hkey, hrest⟩ := bind_eq_ok.1 hrun
    exact (ensureOnRoot_quiet (hkeys key mem_cons_self) hkey).trans
      (ih (forall_mem_cons.1 hkeys).2 hrest)

theorem exists_touch (hroot : s.root? name = some root) (hkeys : ∀ key ∈ keys, key ∈ touchAttributes) :
    ∃ s', keys.forM (ensureOnRoot name) s = (.ok (), s') := by
  induction keys generalizing s root with
  | nil => exact ⟨s, rfl⟩
  | cons key keys ih =>
    have hlegal : ∀ key ∈ touchAttributes, isName key = true := by decide
    have hkey := hkeys key mem_cons_self
    obtain ⟨a, ha, rfl⟩ := map_eq_some_iff.1 hroot
    have hchange : ∃ t, s.change name (fun l => if hasAttribute l.document.root key then .ok l else
        l.setAttribute [] key "true") = .ok t := by
      obtain ⟨b, hb⟩ := LayoutFile.exists_setAttribute (elementAt?_nil a.document.root) (hlegal key hkey)
        (by decide : isLegalText "true" = true)
      cases hhas : hasAttribute a.document.root key with
      | true => exact Session.exists_change (b := a) ha (by rw [hhas]; rfl)
      | false => exact Session.exists_change (b := b) ha (by rw [hhas]; exact hb)
    obtain ⟨t, ht⟩ := hchange
    have hrel := (ensureOnRoot_quiet (u := ()) hkey (change_eq_ok.2 ht)).extended.root? name
    rw [hroot] at hrel
    cases hroot' : t.root? name with
    | none =>
      rw [hroot'] at hrel
      cases hrel
    | some root' =>
      obtain ⟨s', hs'⟩ := ih hroot' (forall_mem_cons.1 hkeys).2
      exact ⟨s', bind_eq_ok.2 ⟨(), t, change_eq_ok.2 ht, hs'⟩⟩

theorem nameRoot_given (hroot : s.root? name = some root) (hid : hasId root = false)
    (hrun : nameRoot name s = (.ok r, s')) : ∃ id ids places, r = some id ∧ id ≠ [] ∧
      places.Pairwise (· < ·) ∧ (∀ p, p ∈ places ↔ s.Lacks name p) ∧
      Given name (s.ids name) s ([] :: places) (id :: ids) s' := by
  obtain ⟨used, _, hused, hrun⟩ := bind_eq_ok.1 hrun
  cases hused
  obtain ⟨_, t₁, hchange, hrun⟩ := bind_eq_ok.1 hrun
  obtain ⟨_, t₂, htouch, hrun⟩ := bind_eq_ok.1 hrun
  obtain ⟨_, t₃, hchildren, hrun⟩ := bind_eq_ok.1 hrun
  cases hrun
  obtain ⟨ids, hchildren, -⟩ := map_eq_ok.1 hchildren
  have hload := s.layout?_collectIds name
  have hview : (s.collectIds name).2.view? name [] = some root := by
    rw [Session.view?, Session.root?, hload]
    exact bind_eq_some_iff.2 ⟨root, hroot, rfl⟩
  have hgives := (Session.Gives.of_change hview hid (change_eq_ok.1 hchange)).congr hload
  have hquiet := touch_quiet (fun _ hkey => hkey) htouch
  have hne : Naming.uniqueName (Naming.rootIdOfLayout name) (s.ids name) ≠ [] :=
    Naming.uniqueName_ne_nil (append_ne_nil_of_right_ne_nil _ (by decide)) _
  refine ⟨_, ids, _, rfl, hne, ?_, fun p => Session.mem_map_nameless.trans ?_,
    .give (Naming.uniqueName_not_mem _ _) hgives (.quiet hquiet ((nameChildren_given hchildren).anti fun x hx => ?_))⟩
  · exact pairwise_map.2 (Session.pairwise_nameless t₂ name)
  · refine and_congr_right_iff.2 ?_ |>.trans (and_congr_left' (hgives.extended.trans hquiet.extended).below_iff)
    intro hbelow
    rw [hquiet.same, hgives.others _ _ fun hp => hbelow.1 hp.2]
  · rw [hquiet.mem_ids, hgives.mem_ids]
    rcases mem_append.1 hx with hx | hx
    · exact .inl hx
    · obtain ⟨v, hv, hlayout, hplace, -⟩ := (Session.walks hroot).visits_visible (visibleAt_nil.2 rfl)
      exact .inr ⟨mem_singleton.1 hx, hne, v, hv, hlayout, hplace⟩

theorem exists_nameRoot (hroot : s.root? name = some root) (hname : isLegalText name = true)
    (hid : isLegalText (Naming.rootIdOfLayout name) = true) : ∃ r s', nameRoot name s = (.ok r, s') := by
  let id := Naming.uniqueName (Naming.rootIdOfLayout name) (s.ids name)
  obtain ⟨a, ha, rfl⟩ := map_eq_some_iff.1 hroot
  have hvalue : isLegalText (newIdMark ++ id) = true :=
    Naming.isLegalText_append (by decide) (Naming.isLegalText_uniqueName hid _)
  rw [← s.layout?_collectIds name] at ha
  obtain ⟨t, ht⟩ := exists_change_setAttribute ha (elementAt?_nil _) (by decide : isName idAttribute = true) hvalue
  obtain ⟨_, b, -, -, hb⟩ := Session.change_eq_ok ht
  have hroot' : t.root? name = some b.document.root := by rw [Session.root?, hb, if_pos rfl]; rfl
  obtain ⟨t', ht'⟩ := exists_touch hroot' fun key (hkey : key ∈ touchAttributes) => hkey
  obtain ⟨ids, s', hs'⟩ := exists_nameChildren hname t'
  exact ⟨some id, s', bind_eq_ok.2 ⟨_, _, rfl, bind_eq_ok.2 ⟨(), t, change_eq_ok.2 ht, bind_eq_ok.2 ⟨(), t', ht',
    bind_eq_ok.2 ⟨(), s', map_eq_ok.2 ⟨ids, hs', rfl⟩, rfl⟩⟩⟩⟩⟩

theorem rootAnswer?_eq_some {o} :
    rootAnswer? o = some (some id) ↔ ∃ root, o = some root ∧ viewId? root = some id ∧ id ≠ [] := by
  cases o with
  | none => simp [rootAnswer?]
  | some root =>
    simp only [rootAnswer?, some.injEq, exists_eq_left']
    cases hid : (viewId? root).filter fun id => !id.isEmpty with
    | some x =>
      obtain ⟨hx, hne⟩ := filter_eq_some_iff.1 hid
      simp only [some.injEq, hx]
      refine ⟨fun h => ⟨h, h ▸ by simpa using hne⟩, fun h => h.1⟩
    | none =>
      refine ⟨fun h => ?_, fun h => ?_⟩
      · simp only at h
        split at h <;> cases h
      · rw [h.1] at hid
        simp [h.2] at hid

theorem rootAnswer?_of_extended (h : s.Extended s') (hid : rootAnswer? (s.root? name) = some (some id)) :
    rootAnswer? (s'.root? name) = some (some id) := by
  obtain ⟨root, hroot, hview, hne⟩ := rootAnswer?_eq_some.1 hid
  have hrel := h.root? name
  rw [hroot] at hrel
  generalize s'.root? name = o at hrel ⊢
  cases hrel with
  | some hlater => exact rootAnswer?_eq_some.2 ⟨_, rfl, hlater.here.viewId? hview, hne⟩

theorem rootAnswer?_of_rootId (hrun : rootId name s = (.ok r, s')) :
    rootAnswer? (s'.root? name) = some r ∧ (rootAnswer? (s.root? name) = some r ∧ s'.layout? = s.layout? ∨
      rootAnswer? (s.root? name) = none ∧ ∃ id ids places, r = some id ∧ places.Pairwise (· < ·) ∧
        (∀ p, p ∈ places ↔ s.Lacks name p) ∧ Given name (s.ids name) s ([] :: places) (id :: ids) s') := by
  have hload := s.layout?_load name
  have hroot : (s.load name).root? name = s.root? name := by rw [Session.root?, hload]; rfl
  cases hanswer : rootAnswer? (s.root? name) with
  | some r' =>
    rw [rootId_of_answer hanswer] at hrun
    cases hrun
    exact ⟨by rw [hroot, hanswer], .inl ⟨rfl, hload⟩⟩
  | none =>
    obtain ⟨heq, root, hs, hid⟩ := rootId_of_no_answer hanswer
    obtain ⟨id, ids, places, rfl, hne, hsorted, hmem, hgiven⟩ :=
      nameRoot_given (hroot.trans hs) hid (heq.symm.trans hrun)
    have hlacks : ∀ p, (s.load name).Lacks name p ↔ s.Lacks name p := fun p => by
      rw [Session.Lacks, Session.Lacks, Session.idText?_congr hload, (Session.Extended.of_layout?_eq hload).below_iff]
    rw [Session.ids_congr hload] at hgiven
    refine ⟨rootAnswer?_eq_some.2 ?_, .inr ⟨rfl, id, ids, places, rfl, hsorted, fun p => (hmem p).trans (hlacks p),
      .quiet (.of_layout?_eq hload) hgiven⟩⟩
    obtain ⟨e, he, hattribute⟩ := map_eq_some_iff.1 (List.cons.inj hgiven.given).1
    obtain ⟨root', hroot', hat⟩ := bind_eq_some_iff.1 he
    obtain rfl := some.inj hat
    exact ⟨root', hroot', Session.viewId?_of_given hattribute, hne⟩

end Repair

open Repair in
/-- Ids for the children of a layout go in the order of the document to exactly the elements that lack one, they
differ from one another and from all ids that the layout shows, and asking again changes nothing. A root that
lacks an id and can have one gets one that is made up with those of the children; of any other nothing is changed and
its id is told, if it has one. Later calls give the same and change nothing. -/
theorem ids_of_nameChildren_and_rootId (s : Session) (name : Text) :
    ((isLegalText name = true → ∃ ids s', nameChildren name s = (.ok ids, s')) ∧
      ∀ ids s', nameChildren name s = (.ok ids, s') →
        (∀ p, ¬s'.Lacks name p) ∧ ids.Nodup ∧ (∀ id ∈ ids, id ∉ (s.collectIds name).1) ∧
        s.NamesExactly name (s.Lacks name) ids s' ∧
        ∃ s'', nameChildren name s' = (.ok [], s'') ∧ s''.layout? = s'.layout?) ∧
    ((isLegalText name = true → isLegalText (Naming.rootIdOfLayout name) = true →
        ∃ r s', rootId name s = (.ok r, s')) ∧
      ∀ r s', rootId name s = (.ok r, s') →
        (∀ t, s'.Extended t → r.isSome = true ∨ t.root? name = s'.root? name →
          ∃ t', rootId name t = (.ok r, t') ∧ t'.layout? = t.layout?) ∧
        (¬RootLacks s name ∧ s'.layout? = s.layout? ∧
            r = ((s.root? name).bind viewId?).filter (fun id => !id.isEmpty) ∨
          RootLacks s name ∧ ∃ id ids, r = some id ∧ (id :: ids).Nodup ∧
            (∀ x ∈ id :: ids, x ∉ (s.collectIds name).1) ∧ (∀ p, ¬s'.Lacks name p) ∧
            s.NamesExactly name (fun p => p = [] ∨ s.Lacks name p) (id :: ids) s')) := by
  refine ⟨⟨fun hname => exists_nameChildren hname s, fun ids s' hrun => ?_⟩, ⟨fun hname hid => ?_, fun r s' hrun => ?_⟩⟩
  · have hgiven := nameChildren_given hrun
    have hnamed := hgiven.not_lacks fun p hp => Session.mem_map_nameless.2 hp
    have hsorted := pairwise_map.2 (s.pairwise_nameless name)
    exact ⟨hnamed, hgiven.fresh.1, hgiven.fresh.2, hgiven.namesExactly hsorted fun _ => Session.mem_map_nameless,
      nameChildren_of_not_lacks hnamed⟩
  · cases hanswer : rootAnswer? (s.root? name) with
    | some r => exact ⟨r, _, rootId_of_answer hanswer⟩
    | none =>
      obtain ⟨heq, root, hroot, -⟩ := rootId_of_no_answer hanswer
      rw [heq]
      have hroot' : (s.load name).root? name = some root := by
        rw [Session.root?, s.layout?_load]
        exact hroot
      exact exists_nameRoot hroot' hname hid
  · obtain ⟨hanswer, hadded⟩ := rootAnswer?_of_rootId hrun
    refine ⟨fun t ht hsame => ⟨t.load name, ?_, t.layout?_load name⟩, ?_⟩
    · have hanswer' : rootAnswer? (t.root? name) = some r := by
        rcases hsame with hr | hsame
        · obtain ⟨id, rfl⟩ := isSome_iff_exists.1 hr
          exact rootAnswer?_of_extended ht hanswer
        · rw [hsame]
          exact hanswer
      exact rootId_of_answer hanswer'
    · rcases hadded with ⟨hknown, hsame⟩ | ⟨hunknown, id, ids, places, rfl, hsorted, hmem, hgiven⟩
      · refine .inl ⟨fun hlacks => ?_, hsame, eq_of_rootAnswer? hknown⟩
        rw [rootAnswer?_eq_none.2 hlacks] at hknown
        cases hknown
      · refine .inr ⟨rootAnswer?_eq_none.1 hunknown, id, ids, rfl, hgiven.fresh.1, hgiven.fresh.2,
          hgiven.not_lacks fun p hp => mem_cons_of_mem _ ((hmem p).2 hp), hgiven.namesExactly ?_ fun p => ?_⟩
        · refine pairwise_cons.2 ⟨fun p hp => ?_, hsorted⟩
          obtain ⟨i, p, rfl⟩ := exists_cons_of_ne_nil ((hmem p).1 hp).1.1
          exact nil_lt_cons i p
        · rw [mem_cons, hmem p]

end Layout

end Rebind
