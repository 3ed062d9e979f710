/-
Which handlers are registered. Registrations are made by the bare id.
-/
import Mathlib.Data.List.Dedup
import Mathlib.Data.List.Find
import Rebind.Proofs.Binding.Listing
import Rebind.Proofs.Keyed

namespace Rebind.Binding

open Java (CompilationUnit TypeDecl)
open Listener (Kind)
open Text List

variable {r : IdRef} {b : HandlerBinding} {id : Text} {x : HandlerBinding × Text}

/-! ## The last handler -/

/-- The last handler that is bound to listeners of the kind on the view with the id. -/
def lastBound? (hs : List HandlerBinding) (kind : Kind) (id : Text) : Option HandlerBinding :=
  hs.reverse.find? fun b => b.kind == kind && b.ids.contains id

section

variable {hs : List HandlerBinding} {b : HandlerBinding} {kind : Kind} {id : Text}

theorem lastBound?_append (hs later : List HandlerBinding) (kind : Kind) (id : Text) :
    lastBound? (hs ++ later) kind id = (lastBound? later kind id).or (lastBound? hs kind id) := by
  simp [lastBound?, find?_append]

theorem of_lastBound? (h : lastBound? hs kind id = some b) : b ∈ hs ∧ b.kind = kind ∧ id ∈ b.ids := by
  have hmem := mem_of_find?_eq_some h
  have hbound := find?_some h
  simp only [Bool.and_eq_true, beq_iff_eq, contains_eq_mem, decide_eq_true_eq] at hbound
  exact ⟨mem_reverse.1 hmem, hbound⟩

theorem lastBound?_eq_none_iff : lastBound? hs kind id = none ↔ ∀ b ∈ hs, b.kind = kind → id ∉ b.ids := by
  simp [lastBound?]

theorem lastBound?_singleton (h : id ∈ b.ids) : lastBound? [b] b.kind id = some b := by
  simp [lastBound?, h]

/-- For a kind and an id the last handler counts. -/
theorem filter_registrationsOf (hs : List HandlerBinding) (kind : Kind) (id : Text) :
    (BindingSet.registrationsOf hs).filter (fun x => x.1.kind == kind && x.2 == id) =
      (lastBound? hs kind id).elim [] fun b => List.replicate (b.ids.count id) (b, id) := by
  induction hs with
  | nil => rfl
  | cons b later ih =>
    have hsplit := lastBound?_append [b] later kind id
    rw [singleton_append] at hsplit
    rw [BindingSet.registrationsOf, filter_append, ih, hsplit, filter_map]
    simp only [Function.comp_def]
    cases hlater : lastBound? later kind id with
    | some l =>
      -- the later handler replaces this one
      obtain ⟨hl, rfl, hid⟩ := of_lastBound? hlater
      have hnone : ∀ id' ∈ b.ids.filter fun id => !later.any fun l => l.kind == b.kind && l.ids.contains id,
          ¬ (b.kind == l.kind && id' == id) = true := by
        intro id' hid' heq
        simp only [Bool.and_eq_true, beq_iff_eq] at heq
        obtain ⟨hkind, rfl⟩ := heq
        have hlast := (mem_filter.1 hid').2
        simp only [Bool.not_eq_true', any_eq_false, Bool.and_eq_true, beq_iff_eq, contains_eq_mem,
          decide_eq_true_eq] at hlast
        exact hlast l hl ⟨hkind.symm, hid⟩
      rw [filter_eq_nil_iff.2 hnone]
      rfl
    | none =>
      rw [lastBound?_eq_none_iff] at hlater
      rw [Option.none_or, Option.elim_none, append_nil, filter_filter]
      by_cases hbound : b.kind = kind ∧ id ∈ b.ids
      · obtain ⟨rfl, hid⟩ := hbound
        have hkept : (b.ids.filter fun id' => (b.kind == b.kind && id' == id) && !later.any fun l =>
            l.kind == b.kind && l.ids.contains id') = b.ids.filter (· == id) := by
          refine filter_congr fun id' _ => ?_
          by_cases heq : id' = id
          · subst heq
            simpa using hlater
          · simp [heq]
        rw [lastBound?_singleton hid, Option.elim_some]
        refine (congrArg (List.map (b, ·)) hkept).trans ?_
        rw [filter_beq, map_replicate]
      · have hnone : lastBound? [b] kind id = none := by
          simpa [lastBound?_eq_none_iff] using hbound
        rw [hnone, Option.elim_none, map_eq_nil_iff, filter_eq_nil_iff]
        intro id' hid' heq
        simp only [Bool.and_eq_true, beq_iff_eq] at heq
        exact hbound ⟨heq.1.1, heq.1.2 ▸ hid'⟩

theorem mem_registrationsOf_iff : (b, id) ∈ BindingSet.registrationsOf hs ↔ lastBound? hs b.kind id = some b := by
  have hmem : (b, id) ∈ BindingSet.registrationsOf hs ↔
      (b, id) ∈ (BindingSet.registrationsOf hs).filter fun x => x.1.kind == b.kind && x.2 == id := by
    simp [mem_filter]
  rw [hmem, filter_registrationsOf]
  cases hlast : lastBound? hs b.kind id with
  | none => simp
  | some l =>
    have hcount := count_pos_iff.2 (of_lastBound? hlast).2.2
    simp only [Option.elim_some, mem_replicate, Prod.mk.injEq, and_true, Option.some.injEq]
    exact ⟨fun h => h.2.symm, fun h => ⟨Nat.ne_of_gt hcount, h.symm⟩⟩

end

/-! ## References and ids -/

theorem afterLast_append {sep} (t : Text) {u : Text} (hu : sep ∉ u) : afterLast sep (t ++ sep :: u) = u := by
  have hne : ∀ c ∈ u.reverse, (c != sep) = true := by
    intro c hc
    simpa using fun heq : c = sep => hu (heq ▸ mem_reverse.1 hc)
  simp [afterLast, takeWhile_append_of_pos hne]

theorem dot_not_mem_of_isPlainName {t} (h : isPlainName t = true) : '.' ∉ t := by
  intro hmem
  cases t with
  | nil => cases hmem
  | cons c t =>
    simp only [isPlainName, Bool.and_eq_true] at h
    rcases mem_cons.1 hmem with rfl | hmem
    · exact absurd h.1 (by decide)
    · exact absurd (all_eq_true.1 h.2 _ hmem) (by decide)

theorem id_eq_of_idRef? {item} (h : idRef? item = some r) : r.id = afterLast '.' r.ref := by
  unfold idRef? at h
  split at h
  · split at h
    · next id _ _ back _ hparts =>
      simp only [Bool.and_eq_true] at hparts
      obtain rfl := Option.some.inj h
      have := afterLast_append (back.reverse.flatMap (· ++ ['.']) ++ "R.id")
        (dot_not_mem_of_isPlainName hparts.1.1.1)
      simpa using this.symm
    · cases h
  · cases h

namespace BindingSet

def targetsFor (s : BindingSet) (kind : Kind) : List IdRef :=
  (s.handlers.filter (·.kind == kind)).flatMap (·.targets)

def registrationsFor (s : BindingSet) (kind : Kind) : List (HandlerBinding × Text) :=
  s.registrations.filter (·.1.kind == kind)

/-- The last handler that is bound to listeners of the kind by the reference. -/
def lastBoundTo? (s : BindingSet) (kind : Kind) (ref : Text) : Option HandlerBinding :=
  s.handlers.reverse.find? fun b => b.kind == kind && b.targets.any (·.ref == ref)

end BindingSet

/-- What a listener is registered on where views are looked up: a bound field, or what a look-up of the reference
finds. -/
inductive Target where
  | field (f : FieldBinding)
  | found (ref : Text)

def Target.ref : Target → Text
  | field f => f.ref
  | found ref => ref

namespace BindingSet

/-- What the listener of a handler for an id is registered on. -/
def target (s : BindingSet) (x : HandlerBinding × Text) : Target :=
  match s.fieldsById.get? x.2 with
  | some f => .field f
  | none => .found (x.1.refOf x.2)

/-- The registrations of the kind are one for each reference, made on the view of that reference and for the last
handler that is bound by it. -/
structure OneEach (s : BindingSet) (kind : Kind) : Prop where
  perm : ((s.registrationsFor kind).map fun x => (s.target x).ref).Perm ((s.targetsFor kind).map (·.ref)).dedup
  last : ∀ x ∈ s.registrationsFor kind, s.lastBoundTo? kind (s.target x).ref = some x.1

/-- Ids tell the references of the kind apart: an id stands for one reference, also where a field is bound to it, and
the handler that is registered for it names it once. -/
structure Unambiguous (s : BindingSet) (kind : Kind) : Prop where
  targets : ∀ r ∈ s.targetsFor kind, ∀ r' ∈ s.targetsFor kind, r.id = r'.id → r.ref = r'.ref
  fields : ∀ r ∈ s.targetsFor kind, ∀ f, s.fieldsById.get? r.id = some f → f.ref = r.ref
  once : ∀ b id, lastBound? s.handlers kind id = some b → b.ids.count id = 1

structure Spelled (s : BindingSet) : Prop where
  fields : ∀ f ∈ s.fields, f.id = afterLast '.' f.ref
  targets : ∀ b ∈ s.handlers, ∀ r ∈ b.targets, r.id = afterLast '.' r.ref

end BindingSet

theorem spelled_bindingsOf (unit : CompilationUnit) (type : TypeDecl) : (bindingsOf unit type).Spelled := by
  have hrefs : ∀ {value : Text}, ∀ r ∈ idRefs value, r.id = afterLast '.' r.ref := by
    intro value r hr
    obtain ⟨item, -, hitem⟩ := mem_filterMap.1 hr
    exact id_eq_of_idRef? hitem
  constructor
  · intro f hf
    obtain ⟨x, -, hf⟩ := mem_fields.1 hf
    have h := adds_added x
    generalize added x = d at h hf
    cases h with
    | field _ hvalue =>
      obtain rfl := mem_singleton.1 hf
      exact hrefs _ (hvalue ▸ mem_singleton.2 rfl)
    | handler | unsupported => cases hf
  · intro b hb r hr
    obtain ⟨x, -, hb⟩ := mem_handlers.1 hb
    have h := adds_added x
    generalize added x = d at h hb
    cases h with
    | field => cases hb
    | handler _ _ hvalue =>
      obtain rfl := mem_singleton.1 hb
      exact hrefs r (hvalue ▸ hr)
    | unsupported => cases hb

/-! ## One registration for each reference -/

namespace BindingSet

variable {s : BindingSet} {kind : Kind}

theorem mem_targetsFor : r ∈ s.targetsFor kind ↔ ∃ b ∈ s.handlers, b.kind = kind ∧ r ∈ b.targets := by
  simp [targetsFor, and_assoc]

theorem mem_registrationsFor : (b, id) ∈ s.registrationsFor kind ↔ lastBound? s.handlers kind id = some b := by
  rw [registrationsFor, mem_filter, registrations, mem_registrationsOf_iff]
  constructor
  · rintro ⟨h, hkind⟩
    rwa [beq_iff_eq.1 hkind] at h
  · intro h
    obtain ⟨-, rfl, -⟩ := of_lastBound? h
    exact ⟨h, by simp⟩

theorem exists_lastBound (h : r ∈ s.targetsFor kind) : ∃ b, lastBound? s.handlers kind r.id = some b := by
  obtain ⟨b, hb, hkind, hr⟩ := mem_targetsFor.1 h
  refine Option.ne_none_iff_exists'.1 fun hnone => ?_
  exact lastBound?_eq_none_iff.1 hnone b hb hkind (mem_map_of_mem hr)

theorem of_fieldsById {f} (h : s.fieldsById.get? id = some f) : f ∈ s.fields ∧ f.id = id := by
  obtain ⟨b, hb, heq⟩ := mem_map.1 (Keyed.mem_of_get?_ofList h)
  obtain ⟨rfl, rfl⟩ := Prod.mk.inj heq
  exact ⟨hb, rfl⟩

theorem exists_refOf (h : id ∈ b.ids) : ∃ r ∈ b.targets, r.id = id ∧ b.refOf id = r.ref := by
  obtain ⟨r, hr, rfl⟩ := mem_map.1 h
  cases hfind : b.targets.find? (·.id == r.id) with
  | none =>
    have := find?_eq_none.1 hfind r hr
    simp at this
  | some r' =>
    exact ⟨r', mem_of_find?_eq_some hfind, by simpa using find?_some hfind, by simp [HandlerBinding.refOf, hfind]⟩

theorem filter_registrationsFor (h : lastBound? s.handlers kind id = some b) :
    (s.registrationsFor kind).filter (·.2 == id) = List.replicate (b.ids.count id) (b, id) := by
  have hfilter := filter_registrationsOf s.handlers kind id
  rw [h, Option.elim_some] at hfilter
  rw [← hfilter, registrationsFor, registrations, filter_filter]
  simp only [Bool.and_comm]

theorem Spelled.id_eq (hs : s.Spelled) (h : r ∈ s.targetsFor kind) : r.id = afterLast '.' r.ref := by
  obtain ⟨b, hb, -, hr⟩ := mem_targetsFor.1 h
  exact hs.targets b hb r hr

theorem Spelled.afterLast_target (hs : s.Spelled)
    (h : (b, id) ∈ s.registrationsFor kind) : afterLast '.' (s.target (b, id)).ref = id := by
  obtain ⟨hb, -, hid⟩ := of_lastBound? (mem_registrationsFor.1 h)
  unfold target
  split
  · next f hf =>
    obtain ⟨hmem, hfid⟩ := of_fieldsById hf
    exact (hs.fields f hmem).symm.trans hfid
  · obtain ⟨r, hr, hrid, href⟩ := exists_refOf hid
    rw [Target.ref, href, ← hs.targets b hb r hr, hrid]

theorem Spelled.eq_of_target (hs : s.Spelled) {y} (hx : x ∈ s.registrationsFor kind)
    (hy : y ∈ s.registrationsFor kind) (h : (s.target x).ref = (s.target y).ref) : x = y := by
  obtain ⟨b, id⟩ := x
  obtain ⟨b', id'⟩ := y
  obtain rfl : id = id' := by rw [← hs.afterLast_target hx, h, hs.afterLast_target hy]
  have hlast := (mem_registrationsFor.1 hx).symm.trans (mem_registrationsFor.1 hy)
  rw [Option.some.inj hlast]

namespace Unambiguous

theorem exists_target (h : s.Unambiguous kind) (hx : x ∈ s.registrationsFor kind) :
    ∃ r ∈ s.targetsFor kind, r.id = x.2 ∧ (s.target x).ref = r.ref := by
  obtain ⟨b, id⟩ := x
  obtain ⟨hb, hkind, hid⟩ := of_lastBound? (mem_registrationsFor.1 hx)
  obtain ⟨r, hr, rfl, href⟩ := exists_refOf hid
  have hmem := mem_targetsFor.2 ⟨b, hb, hkind, hr⟩
  refine ⟨r, hmem, rfl, ?_⟩
  unfold target
  split
  · next f hf => exact h.fields r hmem f hf
  · exact href

theorem nodup (h : s.Unambiguous kind) : (s.registrationsFor kind).Nodup := by
  rw [nodup_iff_count_le_one]
  rintro ⟨b, id⟩
  by_cases hmem : (b, id) ∈ s.registrationsFor kind
  · have hlast := mem_registrationsFor.1 hmem
    have hcount :
        ((s.registrationsFor kind).filter (·.2 == id)).count (b, id) = (s.registrationsFor kind).count (b, id) :=
      count_filter (by simp)
    exact Nat.le_of_eq (by rw [← hcount, filter_registrationsFor hlast, h.once b id hlast, count_replicate_self])
  · rw [count_eq_zero_of_not_mem hmem]
    exact Nat.zero_le 1

theorem lastBoundTo?_eq (hs : s.Spelled) (h : s.Unambiguous kind) (hr : r ∈ s.targetsFor kind) :
    s.lastBoundTo? kind r.ref = lastBound? s.handlers kind r.id := by
  refine find?_congr fun b hb => ?_
  rw [mem_reverse] at hb
  rw [Bool.eq_iff_iff]
  simp only [Bool.and_eq_true, beq_iff_eq, any_eq_true, contains_eq_mem, decide_eq_true_eq]
  refine and_congr_right fun hkind => ⟨?_, fun hid => ?_⟩
  · rintro ⟨r', hr', href⟩
    rw [hs.id_eq hr, ← href, ← hs.targets b hb r' hr']
    exact mem_map_of_mem hr'
  · obtain ⟨r', hr', hid⟩ := mem_map.1 hid
    exact ⟨r', hr', h.targets r' (mem_targetsFor.2 ⟨b, hb, hkind, hr'⟩) r hr hid⟩

theorem oneEach (hs : s.Spelled) (h : s.Unambiguous kind) : s.OneEach kind := by
  constructor
  · have hnodup : ((s.registrationsFor kind).map fun x => (s.target x).ref).Nodup :=
      h.nodup.map_on fun x hx y hy => hs.eq_of_target hx hy
    refine (perm_ext_iff_of_nodup hnodup (nodup_dedup _)).2 fun ref => ?_
    rw [mem_dedup, mem_map, mem_map]
    constructor
    · rintro ⟨x, hx, rfl⟩
      obtain ⟨r, hr, -, href⟩ := h.exists_target hx
      exact ⟨r, hr, href.symm⟩
    · rintro ⟨r, hr, rfl⟩
      obtain ⟨b, hb⟩ := exists_lastBound hr
      have hx := mem_registrationsFor.2 hb
      obtain ⟨r', hr', hid, href⟩ := h.exists_target hx
      exact ⟨_, hx, href.trans (h.targets r' hr' r hr hid)⟩
  · rintro ⟨b, id⟩ hx
    obtain ⟨r, hr, rfl, href⟩ := h.exists_target hx
    rw [href, h.lastBoundTo?_eq hs hr]
    exact mem_registrationsFor.1 hx

end Unambiguous

namespace OneEach

theorem exists_registration (h : s.OneEach kind) (hr : r ∈ s.targetsFor kind) :
    ∃ x ∈ s.registrationsFor kind, (s.target x).ref = r.ref :=
  mem_map.1 (h.perm.mem_iff.2 (mem_dedup.2 (mem_map_of_mem hr)))

theorem unambiguous (hs : s.Spelled) (h : s.OneEach kind) : s.Unambiguous kind := by
  have htargets : ∀ r ∈ s.targetsFor kind, ∀ r' ∈ s.targetsFor kind, r.id = r'.id → r.ref = r'.ref := by
    intro r hr r' hr' hid
    obtain ⟨⟨b, id⟩, hx, href⟩ := h.exists_registration hr
    obtain ⟨⟨b', id'⟩, hx', href'⟩ := h.exists_registration hr'
    -- both registrations are for the id, so they are the same
    have h1 : id = r.id := by rw [← hs.afterLast_target hx, href, ← hs.id_eq hr]
    have h2 : id' = r'.id := by rw [← hs.afterLast_target hx', href', ← hs.id_eq hr']
    obtain rfl : id = id' := h1.trans (hid.trans h2.symm)
    have hlast := (mem_registrationsFor.1 hx).symm.trans (mem_registrationsFor.1 hx')
    rw [← href, ← href', Option.some.inj hlast]
  refine ⟨htargets, fun r hr f hf => ?_, fun b id hlast => ?_⟩
  · obtain ⟨b, hb⟩ := exists_lastBound hr
    have hx := mem_registrationsFor.2 hb
    have hmem := h.perm.mem_iff.1 (mem_map_of_mem (f := fun x => (s.target x).ref) hx)
    obtain ⟨r', hr', href⟩ := mem_map.1 (mem_dedup.1 hmem)
    have hid : r'.id = r.id := by rw [hs.id_eq hr', href, hs.afterLast_target hx]
    have htarget : s.target (b, r.id) = .field f := by simp only [target, hf]
    rw [htarget] at href
    exact href.symm.trans (htargets r' hr' r hr hid)
  · have hnodup : (s.registrationsFor kind).Nodup := .of_map _ (h.perm.nodup_iff.2 (nodup_dedup _))
    have hfilter := hnodup.filter (·.2 == id)
    rw [filter_registrationsFor hlast, nodup_replicate] at hfilter
    exact Nat.le_antisymm hfilter (count_pos_iff.2 (of_lastBound? hlast).2.2)

end OneEach

/-- Each reference has a registration of its own exactly if the references of the kind are told apart by their ids. -/
theorem oneEach_iff (hs : s.Spelled) : s.OneEach kind ↔ s.Unambiguous kind :=
    ⟨OneEach.unambiguous hs, Unambiguous.oneEach hs⟩

end BindingSet

end Rebind.Binding
