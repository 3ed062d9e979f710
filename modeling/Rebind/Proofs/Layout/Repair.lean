/-
Repairs of the layouts of a session.

A repair asks questions and makes changes, each of which is an addition to one layout. So the layouts of a session are
only ever extended (`Session.Extended`), whatever repairs are made and in whatever order, and also by those that fail
half-way.
-/
import Rebind.Proofs.Layout.Files
import Rebind.Proofs.Layout.Reach

namespace Rebind.Layout

open Binding Rebind.Markup List Option

variable {s' : Session} {v : Visit} {f : LayoutFile → Except ChangeError LayoutFile} {id : Text} {vs : List Visit}

/-! ## Questions -/

namespace Session

theorem layout?_congr {s : Session} {name} (hfiles : s'.files = s.files)
    (hread : s'.read.get? name = s.read.get? name) : s'.layout? name = s.layout? name := by
  simp only [layout?, file?, hfiles, hread]

variable (s : Session)

/-- A question may read layouts but changes none. -/
theorem layout?_load (name : Text) : (s.load name).layout? = s.layout? := by
  unfold load
  split
  · rfl
  · next hnew =>
    simp only [Bool.or_eq_true, not_or, Bool.not_eq_true] at hnew
    have hunread : s.read.get? name = none := Option.isSome_eq_false_iff.1 hnew.2 |> Option.isNone_iff_eq_none.1
    funext n
    by_cases hn : n = name
    · subst hn
      have hread : Keyed.get? (s.read ++ [(n, s.layout? n)]) n = some (s.layout? n) := by
        rw [Keyed.get?_append, hunread, Keyed.get?_cons, if_pos rfl]
        rfl
      rw [layout?]
      simp only [hnew.1, hread, Bool.false_eq_true, if_false]
    · have hread : Keyed.get? (s.read ++ [(name, s.layout? name)]) n = s.read.get? n := by
        rw [Keyed.get?_append, Keyed.get?_cons, if_neg (Ne.symm hn)]
        exact Option.or_none
      exact layout?_congr rfl hread

theorem layout?_loadAll (names : List Text) : (s.loadAll names).layout? = s.layout? := by
  induction names generalizing s with
  | nil => rfl
  | cons name names ih => exact (ih (s.load name)).trans (layout?_load s name)

theorem layout?_find (stop : Visit → Bool) (name : Text) : (s.find stop name).2.layout? = s.layout? :=
  layout?_loadAll s _

theorem layout?_collectIds (name : Text) : (s.collectIds name).2.layout? = s.layout? := layout?_loadAll s _

theorem layout?_findFree (type name : Text) : (s.findFree type name).2.layout? = s.layout? := by
  simp only [findFree]
  split
  · rfl
  · exact layout?_find s _ name

theorem findFree_eq_some {s : Session} {type name} (h : (s.findFree type name).1 = some v) :
    ∃ a, s.layout? v.layout = some a ∧ elementAt? a.document.root v.place = some v.element ∧
      hasId v.element = false := by
  simp only [findFree] at h
  split at h
  · cases h
  · have hv : v ∈ s.visits true name := mem_of_find?_eq_some h
    have hfree := find?_some h
    simp only [isFree, Bool.and_eq_true, Bool.not_eq_true'] at hfree
    cases hroot : s.root? name with
    | none => simp [visits, hroot] at hv
    | some root =>
      obtain ⟨-, r, hr, hvisible⟩ := (walks hroot).reaches hroot (visibleAt_nil.2 rfl) hv
      obtain ⟨a, ha, rfl⟩ := map_eq_some_iff.1 hr
      exact ⟨a, ha, hvisible.1, hfree.2⟩

/-! ## Changes -/

theorem change_eq_ok {s : Session} {name}
    (h : s.change name f = .ok s') : ∃ a b, s.layout? name = some a ∧ f a = .ok b ∧
      ∀ n, s'.layout? n = if n = name then some b else s.layout? n := by
  obtain ⟨a, b, ha, hf, rfl⟩ := change_spec h
  refine ⟨a, b, ha, hf, fun n => ?_⟩
  by_cases hn : n = name
  · subst hn
    have hne : n.isEmpty = false := by
      rw [layout?] at ha
      split at ha
      · cases ha
      · next hne => simpa using hne
    simp only [layout?, hne, Keyed.get?_insert, Bool.false_eq_true, if_false, if_true]
  · rw [if_neg hn]
    refine layout?_congr rfl ?_
    rw [Keyed.get?_insert, if_neg hn]

def Extended (s s' : Session) : Prop :=
  ∀ name, Option.Rel LayoutFile.Extended (s.layout? name) (s'.layout? name)

namespace Extended

theorem of_layout?_eq {s : Session} (h : s'.layout? = s.layout?) : s.Extended s' := by
  intro name
  rw [h]
  cases s.layout? name with
  | none => exact .none
  | some a => exact .some (.refl a)

theorem trans {s s'' : Session} (h : s.Extended s') (h' : s'.Extended s'') : s.Extended s'' := by
  intro name
  have hab := h name
  have hbc := h' name
  generalize s.layout? name = a, s'.layout? name = b, s''.layout? name = c at hab hbc
  cases hab with
  | none => exact hbc
  | some hab =>
    cases hbc with
    | some hbc => exact .some (hab.trans hbc)

theorem of_change {s : Session} {name}
    (h : s.change name f = .ok s') (hf : ∀ a b, s.layout? name = some a → f a = .ok b → a.Extended b) :
    s.Extended s' := by
  obtain ⟨a, b, ha, hb, hrest⟩ := change_eq_ok h
  intro n
  rw [hrest n]
  by_cases hn : n = name
  · subst hn
    rw [if_pos rfl, ha]
    exact .some (hf a b ha hb)
  · rw [if_neg hn]
    exact of_layout?_eq rfl n

end Extended

end Session

/-! ## Activities -/

namespace Repair

/-- What the activity does to a session are additions. -/
def Extends {α : Type} (x : Repair α) (s : Session) : Prop := s.Extended (x s).2

namespace Extends

variable {α β : Type} {s : Session}

theorem pure (a : α) : (Pure.pure a : Repair α).Extends s := Session.Extended.of_layout?_eq rfl

theorem bind {x} {f : α → Repair β} (h : x.Extends s)
    (hf : ∀ a, (x s).1 = .ok a → (f a).Extends (x s).2) : (x >>= f).Extends s := by
  rw [Extends, run_bind]
  cases ha : (x s).1 with
  | ok a => exact h.trans (hf a ha)
  | error e => exact h

theorem bind_ask {f} {g : α → Repair β} (h : (f s).2.layout? = s.layout?)
    (hg : ∀ s', s'.layout? = s.layout? → (g (f s).1).Extends s') : (Repair.ask f >>= g).Extends s := by
  refine .bind (Session.Extended.of_layout?_eq h) fun a ha => ?_
  obtain rfl := Except.ok.inj ha
  exact hg _ h

theorem change {name : Text}
    (h : ∀ a b, s.layout? name = some a → f a = .ok b → a.Extended b) : (Repair.change name f).Extends s := by
  unfold Extends Repair.change
  split
  · next s' hs' => exact .of_change hs' h
  · exact .of_layout?_eq rfl

theorem map {f : α → β} {x : Repair α} (h : x.Extends s) : (f <$> x).Extends s := by
  have hrun : ((f <$> x) s).2 = (x s).2 := by
    rcases hx : x s with ⟨e | a, s'⟩ <;> simp only [Functor.map, ExceptT.map, ExceptT.mk, Bind.bind, StateT.bind, hx]
      <;> rfl
  unfold Extends
  rw [hrun]
  exact h

theorem forM {f : α → Repair PUnit} {l : List α} (h : ∀ a ∈ l, ∀ s, (f a).Extends s) : (l.forM f).Extends s := by
  induction l generalizing s with
  | nil => exact .pure _
  | cons a l ih => exact .bind (h a mem_cons_self s) fun _ _ => ih (forall_mem_cons.1 h).2

end Extends

theorem Extends.assignId {s name place a e}
    (ha : s.layout? name = some a) (he : elementAt? a.document.root place = some e) (hid : hasId e = false) :
    (Repair.change name fun l => l.assignId place id).Extends s := by
  refine .change fun a' b ha' hb => ?_
  obtain rfl := some.inj (ha.symm.trans ha')
  exact (Addition.toView he hid ⟨_, rfl, .inl rfl⟩ hb).extended

end Repair

/-! ## The elements of one layout -/

section Inside

variable {visit : Place → Element → Visit} {behind : Visit → List Visit}

theorem contentVisits_congr {behind'}
    (h : ∀ place e, behind' (visit place e) = behind (visit place e)) (place : Place) (i : Nat) (c : Content) :
    contentVisits visit behind' place i c = contentVisits visit behind place i c := by
  induction c generalizing place i with
  | done => rfl
  | chars _ _ ih | cdata _ _ ih | comment _ _ ih | instruction _ _ _ ih => exact ih place i
  | element tag inner rest ihInner ihRest => simp only [contentVisits, ihInner, ihRest, h]

theorem mem_contentVisits (hvisit : ∀ place e, (visit place e).element = e) {place i c}
    : v ∈ contentVisits visit (fun _ => []) place i c ↔ ∃ j below x e, i ≤ j ∧
      c.elements[j - i]? = some x ∧ VisibleAt x below e ∧ v = visit (place ++ j :: below) e := by
  induction c generalizing place i with
  | done => simp [contentVisits, Content.elements]
  | chars _ _ ih | cdata _ _ ih | comment _ _ ih | instruction _ _ _ ih => exact ih
  | element tag inner rest ihInner ihRest =>
    simp only [contentVisits, hvisit, mem_append, mem_cons]
    constructor
    · rintro ((rfl | h) | h)
      · exact ⟨i, [], ⟨tag, inner⟩, ⟨tag, inner⟩, Nat.le_refl i, by simp [Content.elements], visibleAt_nil.2 rfl, rfl⟩
      · split at h
        · cases h
        · next hplain =>
          obtain ⟨j, below, x, e, -, hx, he, rfl⟩ := ihInner.1 h
          refine ⟨i, j :: below, ⟨tag, inner⟩, e, Nat.le_refl i, by simp [Content.elements], ?_, by simp⟩
          exact visibleAt_cons.2 ⟨by simpa using hplain, x, hx, he⟩
      · obtain ⟨j, below, x, e, hj, hx, he, rfl⟩ := ihRest.1 h
        refine ⟨j, below, x, e, by omega, ?_, he, rfl⟩
        have hindex : j - i = (j - (i + 1)) + 1 := by omega
        rw [hindex, Content.elements, getElem?_cons_succ]
        exact hx
    · rintro ⟨j, below, x, e, hj, hx, he, rfl⟩
      by_cases hij : j = i
      · subst hij
        obtain rfl : (⟨tag, inner⟩ : Element) = x := by simpa [Content.elements] using hx
        cases below with
        | nil =>
          obtain rfl := visibleAt_nil.1 he
          exact .inl (.inl rfl)
        | cons k below =>
          obtain ⟨hplain, y, hy, he⟩ := visibleAt_cons.1 he
          rw [hplain]
          exact .inl (.inr (ihInner.2 ⟨k, below, y, e, Nat.zero_le k, hy, he, by simp⟩))
      · have hindex : j - i = (j - (i + 1)) + 1 := by omega
        rw [hindex, Content.elements, getElem?_cons_succ] at hx
        exact .inr (ihRest.2 ⟨j, below, x, e, by omega, hx, he, rfl⟩)

theorem pairwise_contentVisits (hplace : ∀ place e, (visit place e).place = place)
    (hvisit : ∀ place e, (visit place e).element = e) (place : Place) (i : Nat) (c : Content) :
    (contentVisits visit (fun _ => []) place i c).Pairwise fun v w => v.place < w.place := by
  induction c generalizing place i with
  | done => exact .nil
  | chars _ _ ih | cdata _ _ ih | comment _ _ ih | instruction _ _ _ ih => exact ih place i
  | element tag inner rest ihInner ihRest =>
    simp only [contentVisits, hvisit]
    have hinner : ∀ v ∈ (if isInclude ⟨tag, inner⟩ then [] else
        contentVisits visit (fun _ => []) (place ++ [i]) 0 inner), ∃ j below, v.place = place ++ i :: j :: below := by
      intro v hv
      split at hv
      · cases hv
      · obtain ⟨j, below, x, e, -, -, -, rfl⟩ := (mem_contentVisits hvisit).1 hv
        exact ⟨j, below, by simp [hplace]⟩
    refine pairwise_append.2 ⟨pairwise_cons.2 ⟨fun v hv => ?_, ?_⟩, ihRest place (i + 1), fun v hv w hw => ?_⟩
    · obtain ⟨j, below, hv⟩ := hinner v hv
      rw [hplace, hv]
      exact append_left_lt (by simp)
    · split
      · exact .nil
      · exact ihInner (place ++ [i]) 0
    · -- the places behind the element begin with a higher number
      obtain ⟨j, below, x, e, hj, -, -, rfl⟩ := (mem_contentVisits hvisit).1 hw
      have hv : ∃ below, v.place = place ++ i :: below := by
        rcases mem_cons.1 hv with rfl | hv
        · exact ⟨[], hplace _ _⟩
        · obtain ⟨j, below, hv⟩ := hinner v hv
          exact ⟨j :: below, hv⟩
      obtain ⟨below', hv⟩ := hv
      rw [hv, hplace]
      exact append_left_lt (cons_lt_cons_iff.2 (.inl hj))

end Inside

theorem leadsTo?_false (opened : List Text) (e : Element) : leadsTo? false opened e = none := by
  cases h : leadsTo? false opened e with
  | none => rfl
  | some next => exact absurd (leadsTo?_eq_some.1 h).2.1 Bool.false_ne_true

namespace Session

variable {s : Session} {name : Text}

theorem visits_false {root} (h : s.root? name = some root) :
    s.visits false name = elementVisits (visitOf false [name] [] name) (fun _ => []) [] root := by
  rw [visits, h]
  simp only
  rw [Layout.visits, elementVisits]
  congr 1
  split
  · simp only [leadsTo?_false]
  · refine contentVisits_congr (fun place e => ?_) [] 0 root.inner
    simp only [leadsTo?_false]

theorem mem_nameless : v ∈ s.nameless name ↔ ∃ root e, s.root? name = some root ∧
    VisibleAt root v.place e ∧ v.place ≠ [] ∧ isInclude e = false ∧ hasId e = false ∧
    v = visitOf false [name] [] name v.place e := by
  unfold nameless
  cases hroot : s.root? name with
  | none => simp [visits, hroot]
  | some root =>
    rw [visits_false hroot, mem_filter, elementVisits, mem_cons]
    simp only [Bool.and_eq_true, Bool.not_eq_true', isEmpty_eq_false_iff, some.injEq]
    constructor
    · rintro ⟨rfl | hv, ⟨hne, hplain⟩, hid⟩
      · exact absurd rfl hne
      · split at hv
        · cases hv
        · next hroot =>
          obtain ⟨j, below, x, e, -, hx, he, rfl⟩ := (mem_contentVisits fun _ _ => rfl).1 hv
          exact ⟨root, e, rfl, visibleAt_cons.2 ⟨by simpa using hroot, x, hx, he⟩, hne, hplain, hid, rfl⟩
    · rintro ⟨_, e, rfl, he, hne, hplain, hid, hv⟩
      rw [hv] at he hne ⊢
      refine ⟨.inr ?_, ⟨hne, hplain⟩, hid⟩
      generalize v.place = place at he hne ⊢
      cases place with
      | nil => exact absurd rfl hne
      | cons j below =>
        obtain ⟨hroot, x, hx, he⟩ := visibleAt_cons.1 he
        rw [hroot]
        exact (mem_contentVisits fun _ _ => rfl).2 ⟨j, below, x, e, Nat.zero_le j, hx, he, rfl⟩

theorem pairwise_nameless (s : Session) (name : Text) : (s.nameless name).Pairwise fun v w => v.place < w.place := by
  unfold nameless
  cases hroot : s.root? name with
  | none => simp [visits, hroot]
  | some root =>
    rw [visits_false hroot]
    refine .filter _ (pairwise_cons.2 ⟨fun v hv => ?_, ?_⟩)
    · split at hv
      · cases hv
      · obtain ⟨j, below, x, e, -, -, -, rfl⟩ := (mem_contentVisits fun _ _ => rfl).1 hv
        exact nil_lt_cons j below
    · split
      · exact .nil
      · exact pairwise_contentVisits (fun _ _ => rfl) (fun _ _ => rfl) [] 0 _

end Session

/-- The views wait for ids: they stand where they were visited, have none, and no two are at one place. -/
structure Pending (s : Session) (vs : List Visit) : Prop where
  lacking : ∀ v ∈ vs, ∃ a e, s.layout? v.layout = some a ∧ elementAt? a.document.root v.place = some e ∧ hasId e = false
  apart : vs.Pairwise fun v w => v.place ≠ w.place

theorem Session.pending_nameless (s : Session) (name : Text) : Pending s (s.nameless name) := by
  refine ⟨fun v hv => ?_, (s.pairwise_nameless name).imp fun {v w} (hlt : v.place < w.place) heq => ?_⟩
  swap
  · rw [heq] at hlt
    exact List.lt_irrefl _ hlt
  obtain ⟨root, e, hroot, he, -, -, hid, hv⟩ := mem_nameless.1 hv
  obtain ⟨a, ha, rfl⟩ := map_eq_some_iff.1 hroot
  exact ⟨a, e, by rw [hv]; exact ha, he.1, hid⟩

theorem Pending.of_assignId {s : Session} (h : Pending s (v :: vs))
    (hchange : s.change v.layout (fun l => l.assignId v.place id) = .ok s') : Pending s' vs := by
  obtain ⟨hv, hvs⟩ := pairwise_cons.1 h.apart
  obtain ⟨a, b, ha, hb, hlayout⟩ := Session.change_eq_ok hchange
  refine ⟨fun w hw => ?_, hvs⟩
  obtain ⟨a', e, ha', he, hid⟩ := h.lacking w (mem_cons_of_mem _ hw)
  rw [hlayout]
  by_cases hsame : w.layout = v.layout
  · rw [hsame] at ha'
    obtain rfl := some.inj (ha.symm.trans ha')
    have htag := LayoutFile.tag_of_setAttribute hb (Ne.symm (hv w hw))
    rw [he] at htag
    obtain ⟨e', he', htag⟩ := map_eq_some_iff.1 htag
    refine ⟨b, e', if_pos hsame, he', ?_⟩
    unfold hasId at hid ⊢
    rw [hasAttribute_eq_false] at hid ⊢
    rw [htag]
    exact hid
  · exact ⟨a', e, by rw [if_neg hsame]; exact ha', he, hid⟩

namespace Repair

theorem change_of_ok {s name u}
    (h : (change name f s).1 = .ok u) : s.change name f = .ok (change name f s).2 := by
  unfold Repair.change at h ⊢
  cases hs : s.change name f with
  | ok s' => rfl
  | error e =>
    rw [hs] at h
    cases h

theorem nameAll_extends {s : Session} (h : Pending s vs) (base : Text) (used : List Text) :
    (nameAll base used vs).Extends s := by
  induction vs generalizing s used with
  | nil => exact .pure _
  | cons v vs ih =>
    obtain ⟨a, e, ha, he, hid⟩ := h.lacking v mem_cons_self
    refine .bind (.assignId ha he hid) fun _ hok => ?_
    exact .bind (ih (h.of_assignId (change_of_ok hok)) _) fun _ _ => .pure _

variable (s : Session) (name : Text)

theorem nameChildren_extends : (nameChildren name).Extends s := by
  refine .bind_ask (s.layout?_collectIds name) fun s' _ => .bind (.of_layout?_eq rfl) fun missing hmissing => ?_
  obtain rfl := Except.ok.inj hmissing
  exact nameAll_extends (s'.pending_nameless name) _ _

theorem ensureOnRoot_extends {key : Text} (hkey : key ∈ touchAttributes) : (ensureOnRoot name key).Extends s := by
  refine .change fun a b _ hb => ?_
  split at hb
  · cases hb
    exact .refl a
  · next hlacked => exact (Addition.toView rfl (by simpa using hlacked) ⟨_, rfl, .inr ⟨rfl, hkey⟩⟩ hb).extended

theorem rootId_extends : (rootId name).Extends s := by
  refine .bind_ask (s.layout?_load name) fun s' hs' => ?_
  rw [← hs']
  cases ha : s'.layout? name with
  | none => exact .pure _
  | some a =>
    simp only [Option.map_some]
    split
    · exact .pure _
    · by_cases hskip : (tagName a.document.root == "merge" || hasId a.document.root) = true
      · rw [if_pos hskip]
        exact .pure _
      · rw [if_neg hskip]
        have hid : hasId a.document.root = false := by
          simp only [Bool.or_eq_true, not_or, Bool.not_eq_true] at hskip
          exact hskip.2
        refine .bind_ask (Session.layout?_collectIds _ _) fun s'' hs'' => ?_
        refine .bind (.assignId (by rw [hs'', ha]) rfl hid) fun _ _ => ?_
        refine .bind (.forM fun key hkey s => ensureOnRoot_extends s name hkey) fun _ _ => ?_
        exact .bind (.map (nameChildren_extends _ name)) fun _ _ => .pure _

theorem place_extends (b : FieldBinding) : (place name b).Extends s := by
  refine .bind_ask (s.layout?_findFree b.type name) fun s' hs' => ?_
  cases hfound : (s.findFree b.type name).1 with
  | none =>
    refine .bind (.change fun a b' _ hb => ?_) fun _ _ => .pure _
    split at hb
    · cases hb
      exact .refl a
    · exact (Addition.toRoot hb).extended
  | some v =>
    obtain ⟨a, ha, he, hid⟩ := s.findFree_eq_some hfound
    exact .bind (.assignId (by rw [hs', ha]) he hid) fun _ _ => .pure _

theorem ensureId_extends (known : List Text) (b : FieldBinding) : (ensureId name known b).Extends s := by
  unfold ensureId
  by_cases hframework : b.isFramework = true
  · rw [if_pos hframework]
    exact .pure _
  · rw [if_neg hframework]
    by_cases hknown : known.contains b.id = true
    · rw [if_pos hknown]
      exact .bind (.pure _) fun _ _ => .pure _
    · rw [if_neg hknown]
      exact .bind (place_extends s name b) fun _ _ => .pure _

theorem ensureIdsFrom_extends (known : List Text) (reports : Keyed Text IdReport) (fields : List FieldBinding) :
    (ensureIdsFrom name known reports fields).Extends s := by
  induction fields generalizing s known reports with
  | nil => exact .pure _
  | cons b fields ih => exact .bind (ensureId_extends s name known b) fun _ _ => ih _ _ _

theorem ensureIds_extends (s : Session) (fields : List FieldBinding) (name : Text) :
    (ensureIds fields name).Extends s := by
  refine .bind_ask (s.layout?_load name) fun s' _ => ?_
  cases s.layout? name with
  | none => exact .pure _
  | some layout => exact .bind_ask (Session.layout?_collectIds _ _) fun _ _ => ensureIdsFrom_extends _ _ _ _ _

/-- What can be asked of a repair: ids for fields, an id for the root of a layout, ids for all its children. -/
inductive Request where
  | ids (fields : List FieldBinding) (name : Text)
  | rootId (name : Text)
  | childIds (name : Text)

/-- The session after a repair, whether it succeeded or not. -/
def Request.run (s : Session) : Request → Session
  | ids fields name => (ensureIds fields name s).2
  | rootId name => (Repair.rootId name s).2
  | childIds name => (nameChildren name s).2

theorem Request.run_extended (r : Request) : s.Extended (r.run s) := by
  cases r with
  | ids fields name => exact ensureIds_extends s fields name
  | rootId name => exact rootId_extends s name
  | childIds name => exact nameChildren_extends s name

end Repair

namespace Session

/-- The session after repairs, one after the other. -/
def repaired (s : Session) (requests : List Repair.Request) : Session := requests.foldl Repair.Request.run s

theorem repaired_extended (s : Session) (requests : List Repair.Request) : s.Extended (s.repaired requests) := by
  induction requests generalizing s with
  | nil => exact .of_layout?_eq rfl
  | cons r requests ih => exact (r.run_extended s).trans (ih (r.run s))

/-- Repairs add and do nothing else, whatever is asked and in whatever order: each layout only grows, by attributes
that its views lack and by comments under its root, every view stays at its place with all that it has, and the
layout counts as changed exactly if it did before or something was added. -/
theorem repairs_only_add (s : Session) (requests : List Repair.Request) (name : Text) :
    Option.Rel (fun a b => a.Extended b ∧
        (b.changed = true ↔ a.changed = true ∨ b.document.root ≠ a.document.root) ∧
        ∀ place, Option.Rel (ViewKept place) (elementAt? a.document.root place) (elementAt? b.document.root place))
      (s.layout? name) ((s.repaired requests).layout? name) :=
  rel_imp (s.repaired_extended requests name) fun _ _ h => ⟨h, h.changed_iff, h.viewKept⟩

end Session

end Rebind.Layout
