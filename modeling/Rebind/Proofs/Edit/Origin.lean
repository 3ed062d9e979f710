/-
Where the characters of an edited text come from.
-/
import Rebind.Proofs.Edit.Resolution

namespace Rebind.Edit

open Java (Span)
open Text List

/-- Where a character of an edited text comes from. -/
inductive Origin where
  /-- It stands at this offset of the source. -/
  | source (pos : Nat)
  /-- It is written by an edit. -/
  | edit (e : Edit)

def written (e : Edit) : List (Char × Origin) := e.text.map fun c => (c, .edit e)

/-- The character at an offset of the source, if the source goes on there. -/
def copied (t : Text) (pos : Nat) : List (Char × Origin) := t[pos]?.toList.map fun c => (c, .source pos)

/-- What edits make of one offset: the texts of those that start there, and then the character unless
one of them takes it away. -/
def originsAt (t : Text) (es : List Edit) (pos : Nat) : List (Char × Origin) :=
  (es.filter (·.start = pos)).flatMap written ++ if es.any (·.covers pos) then [] else copied t pos

def originsFrom (t : Text) (es : List Edit) (pos : Nat) : List (Char × Origin) :=
  (List.range' pos (t.length + 1 - pos)).flatMap (originsAt t es)

/-- The edited text offset by offset of the source: what is written there, and then the character that stands there
unless a range takes it away. -/
def origins (t : Text) (es : List Edit) : List (Char × Origin) := originsFrom t es 0

variable {e k : Edit} {pos i : Nat} {t : Text} {es kept : List Edit} {c : Char} {d : Draft}

theorem covers_iff : e.covers pos = true ↔ e.start ≤ pos ∧ pos < e.stop := by
  simp [covers]

@[simp] theorem map_fst_written (e : Edit) : (written e).map Prod.fst = e.text := by
  simp [written, Function.comp_def]

/-! ## Assembling, offset by offset -/

/-- The edits stand in order, each ends before the next one starts, and all lie in the text. -/
structure InOrder (t : Text) (es : List Edit) : Prop where
  apart : es.Pairwise fun a b => a.stop ≤ b.start
  forward : ∀ e ∈ es, e.start ≤ e.stop
  within : ∀ e ∈ es, e.stop ≤ t.length

theorem InOrder.tail {t e es} (h : InOrder t (e :: es)) : InOrder t es :=
  ⟨(pairwise_cons.1 h.apart).2, (forall_mem_cons.1 h.forward).2, (forall_mem_cons.1 h.within).2⟩

theorem originsFrom_succ {t es pos} (h : pos ≤ t.length) :
    originsFrom t es pos = originsAt t es pos ++ originsFrom t es (pos + 1) := by
  simp only [originsFrom]
  rw [show t.length + 1 - pos = t.length + 1 - (pos + 1) + 1 by omega, range'_succ]
  simp

theorem origins_eq_append (hi : i ≤ t.length) :
    origins t es = (List.range' 0 i).flatMap (originsAt t es) ++ originsFrom t es i := by
  have hsplit := @List.range'_append_1 0 i (t.length + 1 - i)
  rw [Nat.zero_add, show i + (t.length + 1 - i) = t.length + 1 by omega] at hsplit
  rw [origins, originsFrom, Nat.sub_zero, ← hsplit, flatMap_append]
  rfl

theorem originsAt_eq_copied {t es pos}
    (h : ∀ e ∈ es, e.start ≠ pos ∧ e.covers pos = false) : originsAt t es pos = copied t pos := by
  have hnone : es.filter (·.start = pos) = [] := by
    rw [filter_eq_nil_iff]
    intro e he
    simpa using (h e he).1
  have hcovers : es.any (·.covers pos) = false := by
    rw [any_eq_false]
    intro e he
    simpa using (h e he).2
  simp [originsAt, hnone, hcovers]

theorem map_originsFrom_copied {t es} : ∀ {n pos}, pos + n ≤ t.length →
    (∀ i, pos ≤ i → i < pos + n → ∀ e ∈ es, e.start ≠ i ∧ e.covers i = false) →
    (originsFrom t es pos).map Prod.fst = slice t pos (pos + n) ++ (originsFrom t es (pos + n)).map Prod.fst
  | 0, pos, _, _ => by simp [slice]
  | n + 1, pos, hlen, hfree => by
    have hpos : pos < t.length := by omega
    have hat := @originsAt_eq_copied t es pos (hfree pos (Nat.le_refl _) (by omega))
    have hslice : slice t pos (pos + (n + 1)) = t[pos] :: slice t (pos + 1) (pos + (n + 1)) := by
      simp only [slice]
      rw [drop_eq_getElem_cons (by simp; omega)]
      simp
    have ih := @map_originsFrom_copied t es n (pos + 1) (by omega)
      (fun i h1 h2 => hfree i (by omega) (by omega))
    rw [originsFrom_succ (by omega), hat, map_append, ih, hslice, show pos + 1 + n = pos + (n + 1) by omega]
    simp [copied, getElem?_eq_getElem hpos]

theorem originsFrom_covered {t es} : ∀ {n pos}, pos + n ≤ t.length →
    (∀ i, pos ≤ i → i < pos + n → es.any (·.covers i) = true ∧ ∀ e ∈ es, e.start ≠ i) →
    originsFrom t es pos = originsFrom t es (pos + n)
  | 0, pos, _, _ => rfl
  | n + 1, pos, hlen, hin => by
    obtain ⟨h1, h2⟩ := hin pos (Nat.le_refl _) (by omega)
    have hat : originsAt t es pos = [] := by
      have h3 : es.filter (·.start = pos) = [] := by
        rw [filter_eq_nil_iff]
        intro e he
        simpa using h2 e he
      simp [originsAt, h1, h3]
    rw [originsFrom_succ (by omega), hat, nil_append,
      @originsFrom_covered t es n (pos + 1) (by omega) (fun i h1 h2 => hin i (by omega) (by omega)),
      show pos + 1 + n = pos + (n + 1) by omega]

theorem originsFrom_congr {fs} (h : ∀ i, pos ≤ i → originsAt t es i = originsAt t fs i) :
    originsFrom t es pos = originsFrom t fs pos := by
  simp only [originsFrom, List.flatMap]
  congr 1
  refine map_congr_left fun i hi => h i ?_
  simp only [mem_range'_1] at hi
  exact hi.1

theorem originsAt_cons_of_lt (hs : e.start < pos) (he : e.stop ≤ pos) :
    originsAt t (e :: es) pos = originsAt t es pos := by
  have h1 : e.covers pos = false := by simp [covers, he]
  have h2 : decide (e.start = pos) = false := by simpa using Nat.ne_of_lt hs
  simp [originsAt, h1, h2]

theorem originsAt_cons_of_insertion (he : e.stop = e.start) :
    originsAt t (e :: es) e.start = written e ++ originsAt t es e.start := by
  have h1 : e.covers e.start = false := by simp [covers, he]
  simp [originsAt, h1]

theorem originsAt_cons_of_range (he : e.start < e.stop) (hes : ∀ r ∈ es, e.stop ≤ r.start) :
    originsAt t (e :: es) e.start = written e := by
  have h1 : e.covers e.start = true := covers_iff.2 ⟨Nat.le_refl _, he⟩
  have h2 : es.filter (·.start = e.start) = [] := by
    rw [filter_eq_nil_iff]
    intro r hr
    have := hes r hr
    simp only [decide_eq_true_eq]
    omega
  simp [originsAt, h1, h2]

theorem assemble_eq_originsFrom {t} : ∀ {es cursor}, InOrder t es →
    (∀ e ∈ es, cursor ≤ e.start) → cursor ≤ t.length →
    Draft.assemble t cursor es = (originsFrom t es cursor).map Prod.fst
  | [], cursor, _, _, hc => by
    rw [@map_originsFrom_copied t [] (t.length - cursor) cursor (by omega) (by simp),
      show cursor + (t.length - cursor) = t.length by omega, originsFrom_succ (Nat.le_refl _)]
    simp [Draft.assemble, slice, originsAt, originsFrom, copied]
  | e :: es, cursor, h, hcur, hc => by
    have hstart := hcur e (by simp)
    have hforward := h.forward e (by simp)
    have hwithin := h.within e (by simp)
    have hnext : ∀ r ∈ es, e.stop ≤ r.start := (pairwise_cons.1 h.apart).1
    have hfree : ∀ i, cursor ≤ i → i < cursor + (e.start - cursor) →
        ∀ r ∈ e :: es, r.start ≠ i ∧ r.covers i = false := by
      intro i _ hi r hr
      have hr' : e.start ≤ r.start := by
        rcases mem_cons.1 hr with rfl | hr
        · exact Nat.le_refl _
        · exact Nat.le_trans hforward (hnext r hr)
      refine ⟨by omega, ?_⟩
      simp only [covers, Bool.and_eq_false_iff, decide_eq_false_iff_not]
      omega
    have hrest : (originsFrom t (e :: es) e.start).map Prod.fst =
        e.text ++ (originsFrom t es e.stop).map Prod.fst := by
      rcases Nat.eq_or_lt_of_le hforward with heq | hlt
      · -- an insertion: what else happens at its offset comes behind it
        rw [originsFrom_succ (by omega), originsAt_cons_of_insertion heq.symm,
          originsFrom_congr (fun i hi => originsAt_cons_of_lt (by omega) (by omega)), ← heq,
          @originsFrom_succ t es e.start (by omega)]
        simp
      · rw [originsFrom_succ (by omega), originsAt_cons_of_range hlt hnext,
          @originsFrom_covered t (e :: es) (e.stop - (e.start + 1)) (e.start + 1) (by omega) ?_,
          show e.start + 1 + (e.stop - (e.start + 1)) = e.stop by omega,
          originsFrom_congr (fun i hi => originsAt_cons_of_lt (by omega) hi)]
        · simp
        · intro i h1 h2
          refine ⟨any_eq_true.2 ⟨e, by simp, covers_iff.2 ⟨by omega, by omega⟩⟩, fun r hr => ?_⟩
          rcases mem_cons.1 hr with rfl | hr
          · omega
          · have := hnext r hr
            omega
    rw [@map_originsFrom_copied t (e :: es) (e.start - cursor) cursor (by omega) hfree,
      show cursor + (e.start - cursor) = e.start by omega, hrest, Draft.assemble,
      show max cursor e.stop = e.stop by omega,
      assemble_eq_originsFrom h.tail hnext hwithin, append_assoc]

/-! ## The edits that take effect, in order -/

namespace Draft

/-- The edits that take effect: insertions outside of the ranges, and the ranges. -/
def effective (d : Draft) (kept : List Edit) : List Edit := d.insertionsOutside kept ++ kept

/-- The test by which edits that take effect are sorted. -/
def startsBy (a b : Edit) : Bool := decide (a.start ≤ b.start)

theorem startsBy_trans (a b c : Edit) (hab : startsBy a b = true) (hbc : startsBy b c = true) :
    startsBy a c = true := by
  simp only [startsBy, decide_eq_true_eq] at hab hbc ⊢
  omega

theorem startsBy_total (a b : Edit) : (startsBy a b || startsBy b a) = true := by
  simp only [startsBy, Bool.or_eq_true, decide_eq_true_eq]
  omega

/-- The sort is stable: edits that start at one offset stay in their order. -/
theorem filter_mergeSort_startsBy (es : List Edit) (pos : Nat) :
    (es.mergeSort startsBy).filter (·.start = pos) = es.filter (·.start = pos) := by
  have hpair : (es.filter (·.start = pos)).Pairwise (fun a b => startsBy a b = true) := by
    refine pairwise_of_forall_mem_list fun a ha b hb => ?_
    simp only [mem_filter, decide_eq_true_eq] at ha hb
    simp only [startsBy, decide_eq_true_eq]
    omega
  have hsub := (sublist_mergeSort startsBy_trans startsBy_total hpair filter_sublist).filter
    (·.start = pos)
  rw [filter_filter] at hsub
  simp only [Bool.and_self] at hsub
  exact (hsub.eq_of_length ((mergeSort_perm _ _).filter _).length_eq.symm).symm

theorem originsAt_mergeSort (t : Text) (es : List Edit) (pos : Nat) :
    originsAt t (es.mergeSort startsBy) pos = originsAt t es pos := by
  have hany : (es.mergeSort startsBy).any (·.covers pos) = es.any (·.covers pos) := (mergeSort_perm _ _).any_eq
  simp only [originsAt, filter_mergeSort_startsBy, hany]

variable {d : Draft} {kept : List Edit}

theorem mem_insertionsOutside {e} : e ∈ d.insertionsOutside kept ↔ e ∈ d.edits ∧ e.start = e.stop ∧
      ∀ k ∈ kept, ¬ (k.start < e.start ∧ e.start < k.stop) := by
  simp [insertionsOutside, isInsertion]

theorem insertion_of_sublist (h : Resolved d kept) {a b}
    (hab : [a, b].Sublist ((d.effective kept).mergeSort startsBy)) (heq : a.start = b.start) : a.stop = a.start := by
  have hsub : [a, b].Sublist ((d.effective kept).filter (·.start = a.start)) := by
    rw [← filter_mergeSort_startsBy]
    have := hab.filter (·.start = a.start)
    simpa [heq] using this
  rw [effective, filter_append] at hsub
  obtain ⟨l₁, l₂, hl, h1, h2⟩ := sublist_append_iff.1 hsub
  cases l₁ with
  | nil =>
    -- both are ranges that are kept, and those do not start at one offset
    simp only [nil_append] at hl
    rw [← hl] at h2
    have hk := h2.trans filter_sublist
    have hstop := (pairwise_iff_forall_sublist.1 h.apart) hk
    have := (h.recorded (hk.subset (by simp : a ∈ [a, b]))).2
    omega
  | cons c l₁ =>
    obtain ⟨rfl, -⟩ : a = c ∧ _ := by simpa using hl
    have := h1.subset (by simp : a ∈ a :: l₁)
    exact (mem_insertionsOutside.1 (mem_filter.1 this).1).2.1.symm

theorem inOrder_effective (hd : d.Orderly) (h : Resolved d kept) :
    InOrder d.text ((d.effective kept).mergeSort startsBy) := by
  have hmem : ∀ e ∈ (d.effective kept).mergeSort startsBy, e ∈ d.edits := by
    intro e he
    simp only [mem_mergeSort, effective, mem_append] at he
    rcases he with he | he
    · exact (mem_insertionsOutside.1 he).1
    · exact (h.recorded he).1
  refine ⟨pairwise_iff_forall_sublist.2 fun {a b} hab => ?_, fun e he => (hd e (hmem e he)).1,
    fun e he => (hd e (hmem e he)).2⟩
  have hle : a.start ≤ b.start := by
    have := (pairwise_iff_forall_sublist.1
      (pairwise_mergeSort startsBy_trans startsBy_total (d.effective kept))) hab
    simpa [startsBy] using this
  have ha : a ∈ d.effective kept := mem_mergeSort.1 (hab.subset (by simp))
  have hb : b ∈ d.effective kept := mem_mergeSort.1 (hab.subset (by simp))
  rcases Nat.eq_or_lt_of_le hle with heq | hlt
  · have := insertion_of_sublist h hab heq
    omega
  · simp only [effective, mem_append] at ha hb
    rcases ha with ha | ha
    · have := (mem_insertionsOutside.1 ha).2.1
      omega
    · rcases hb with hb | hb
      · have := (mem_insertionsOutside.1 hb).2.2 a ha
        omega
      · have := (h.recorded hb).2
        rcases h.eq_or_apart ha hb with rfl | h' | h' <;> omega

/-- The origins make up the text that `apply` writes. -/
theorem apply_eq_origins (hd : d.Orderly) (h : d.resolve = .ok kept) :
    d.apply = .ok ((origins d.text (d.effective kept)).map Prod.fst) := by
  have horder := inOrder_effective hd (resolved_of_resolve hd h)
  have hassemble := @assemble_eq_originsFrom d.text _ 0 horder (by simp) (Nat.zero_le _)
  rw [originsFrom_congr (fun i _ => originsAt_mergeSort d.text (d.effective kept) i)] at hassemble
  simp only [apply, h, bind, Except.bind, pure, Except.pure, Except.ok.injEq]
  exact hassemble

theorem apply_eq_error_iff {why} : d.apply = .error why ↔ d.resolve = .error why := by
  cases h : d.resolve <;> simp [apply, h, bind, Except.bind, pure, Except.pure]

end Draft

/-! ## What is copied and what is written -/

theorem source_mem_originsAt : (c, Origin.source pos) ∈ originsAt t es i ↔
      i = pos ∧ t[pos]? = some c ∧ es.any (·.covers pos) = false := by
  simp only [originsAt, mem_append, mem_flatMap, written, mem_map, Prod.mk.injEq,
    reduceCtorEq, and_false, exists_false, false_or]
  cases h : es.any (·.covers i) with
  | true =>
    simp only [if_true, not_mem_nil, false_iff, not_and]
    rintro rfl _ h'
    simp [h] at h'
  | false =>
    simp only [Bool.false_eq_true, if_false, copied, mem_map, Option.mem_toList, Prod.mk.injEq, Origin.source.injEq]
    constructor
    · rintro ⟨d, hd, rfl, rfl⟩
      exact ⟨rfl, hd, h⟩
    · rintro ⟨rfl, hc, -⟩
      exact ⟨c, hc, rfl, rfl⟩

theorem source_mem_origins :
    (c, Origin.source pos) ∈ origins t es ↔ t[pos]? = some c ∧ es.any (·.covers pos) = false := by
  simp only [origins, originsFrom, mem_flatMap, source_mem_originsAt, mem_range'_1]
  constructor
  · rintro ⟨_, _, _, h⟩
    exact h
  · rintro ⟨hc, h⟩
    obtain ⟨hlt, -⟩ := List.getElem?_eq_some_iff.1 hc
    exact ⟨pos, by omega, rfl, hc, h⟩

theorem mem_of_edit_mem_origins (h : (c, Origin.edit e) ∈ origins t es) : e ∈ es := by
  simp only [origins, originsFrom, mem_flatMap, originsAt, mem_append] at h
  obtain ⟨i, -, ⟨r, hr, hc⟩ | hc⟩ := h
  · simp only [written, mem_map, Prod.mk.injEq, Origin.edit.injEq] at hc
    obtain ⟨_, -, -, rfl⟩ := hc
    exact (mem_filter.1 hr).1
  · split at hc
    · simp at hc
    · simp [copied] at hc

theorem sublist_flatMap {α β : Type} {f g : α → List β} : ∀ {l : List α},
    (∀ a ∈ l, (f a).Sublist (g a)) → (l.flatMap f).Sublist (l.flatMap g)
  | [], _ => by simp
  | a :: l, h => by
    exact (h a (by simp)).append (sublist_flatMap (forall_mem_cons.1 h).2)

/-- The characters of a text that a test of offset and character picks out. -/
def pick (p : Nat → Char → Bool) (t : Text) : Text :=
  (List.range t.length).flatMap fun i => t[i]?.toList.filter (p i)

theorem pick_sublist_origins {p : Nat → Char → Bool}
    (h : ∀ i c, t[i]? = some c → p i c = true → es.any (·.covers i) = false) :
    (pick p t).Sublist ((origins t es).map Prod.fst) := by
  rw [origins, originsFrom, Nat.sub_zero, map_flatMap, pick, ← range_eq_range', List.range_succ, flatMap_append]
  refine (sublist_flatMap fun i hi => ?_).trans (sublist_append_left _ _)
  cases hc : t[i]? with
  | none => simp
  | some c =>
    by_cases hp : p i c = true
    · simp only [originsAt, copied, h i c hc hp, hc, Bool.false_eq_true, if_false]
      simp [hp]
    · simp [hp]

/-- In the edited text the edit's text stands in place of its span: what comes before it is copied
from the left of the span or written, and what comes after it from the right. -/
def StandsFor (e : Edit) (os : List (Char × Origin)) : Prop :=
  ∃ left right, os = left ++ written e ++ right ∧
    (∀ c pos, (c, Origin.source pos) ∈ left → pos < e.start) ∧
    ∀ c pos, (c, Origin.source pos) ∈ right → e.stop ≤ pos

theorem Draft.Resolved.filter_start (h : Draft.Resolved d kept) (hk : k ∈ kept) :
    kept.filter (·.start = k.start) = [k] := by
  have hlt := fun l hl => (@h.recorded _ _ l hl).2
  have hapart := h.apart
  obtain ⟨before, after, rfl⟩ := append_of_mem hk
  have hbefore : before.filter (·.start = k.start) = [] := by
    rw [filter_eq_nil_iff]
    intro l hl
    have h1 := (pairwise_append.1 hapart).2.2 l hl k (by simp)
    have h2 := hlt l (by simp [hl])
    simp only [decide_eq_true_eq]
    omega
  have hafter : after.filter (·.start = k.start) = [] := by
    rw [filter_eq_nil_iff]
    intro l hl
    have h1 := (pairwise_cons.1 (pairwise_append.1 hapart).2.1).1 l hl
    have h2 := hlt k hk
    simp only [decide_eq_true_eq]
    omega
  simp [filter_append, hbefore, hafter]

theorem any_covers_of_kept {d : Draft} {kept k} (hk : k ∈ kept) {i}
    (h1 : k.start ≤ i) (h2 : i < k.stop) : (d.effective kept).any (·.covers i) = true :=
  any_eq_true.2 ⟨k, by simp [Draft.effective, hk], covers_iff.2 ⟨h1, h2⟩⟩

theorem source_not_mem_of_kept (hk : k ∈ kept) (h1 : k.start ≤ i) (h2 : i < k.stop) (c : Char) :
    (c, Origin.source i) ∉ origins t (d.effective kept) := by
  rw [source_mem_origins, any_covers_of_kept hk h1 h2]
  simp

theorem exists_kept_of_source_not_mem (hc : t[i]? = some c) (h : (c, Origin.source i) ∉ origins t (d.effective kept)) :
    ∃ k ∈ kept, k.start ≤ i ∧ i < k.stop := by
  rw [source_mem_origins, not_and, Bool.not_eq_false] at h
  obtain ⟨e, he, hcovers⟩ := any_eq_true.1 (h hc)
  rw [covers_iff] at hcovers
  rcases mem_append.1 he with he | he
  · have := (Draft.mem_insertionsOutside.1 he).2.1
    omega
  · exact ⟨e, he, hcovers⟩

theorem originsAt_of_kept (h : Draft.Resolved d kept) (hk : k ∈ kept) : originsAt d.text (d.effective kept) k.start =
      ((d.insertionsOutside kept).filter (·.start = k.start)).flatMap written ++ written k := by
  simp only [originsAt, any_covers_of_kept hk (Nat.le_refl _) (h.recorded hk).2, if_true, append_nil]
  rw [Draft.effective, filter_append, h.filter_start hk]
  simp

theorem standsFor_of_mem (hd : d.Orderly) (h : Draft.Resolved d kept) (hk : k ∈ kept) :
    StandsFor k (origins d.text (d.effective kept)) := by
  obtain ⟨hrec, hlt⟩ := h.recorded hk
  have hlen := (hd k hrec).2
  have hcov := fun i => @any_covers_of_kept d kept k hk i
  have hat := originsAt_of_kept h hk
  refine ⟨(List.range' 0 k.start).flatMap (originsAt d.text (d.effective kept)) ++
      ((d.insertionsOutside kept).filter (·.start = k.start)).flatMap written,
    originsFrom d.text (d.effective kept) (k.start + 1), ?_, fun c pos hmem => ?_, fun c pos hmem => ?_⟩
  · rw [origins_eq_append (by omega : k.start ≤ d.text.length), originsFrom_succ (by omega), hat]
    simp only [append_assoc]
  · simp only [mem_append, mem_flatMap, source_mem_originsAt, mem_range'_1] at hmem
    rcases hmem with ⟨i, hi, rfl, -⟩ | ⟨e, -, he⟩
    · omega
    · simp [written] at he
  · simp only [originsFrom, mem_flatMap, source_mem_originsAt, mem_range'_1] at hmem
    obtain ⟨i, hi, rfl, -, hfree⟩ := hmem
    apply Nat.le_of_not_lt
    intro hlt'
    rw [hcov i (by omega) hlt'] at hfree
    simp at hfree

theorem StandsFor.mem_kept (h : StandsFor e (origins d.text (d.effective kept))) (htext : e.text ≠ [])
    (hlt : e.start < e.stop) : e ∈ kept := by
  obtain ⟨left, right, heq, -⟩ := h
  obtain ⟨c, hc⟩ := exists_mem_of_ne_nil _ htext
  have hmem : (c, Origin.edit e) ∈ origins d.text (d.effective kept) := by
    rw [heq]
    simp only [mem_append, written, mem_map]
    exact .inl (.inr ⟨c, hc, rfl⟩)
  rcases mem_append.1 (mem_of_edit_mem_origins hmem) with he | he
  · have := (Draft.mem_insertionsOutside.1 he).2.1
    omega
  · exact he

/-! ## Pieces of an edited text -/

/-- A character of the span, no blank, is not copied. -/
def Lost (t : Text) (os : List (Char × Origin)) (s : Span) : Prop :=
  ∃ i c, s.covers i = true ∧ t[i]? = some c ∧ isBlank c = false ∧ (c, .source i) ∉ os

/-- A character of the piece is written by an edit. -/
def HoldsWritten (os : List (Char × Origin)) (s : Span) : Prop :=
  ∃ i c e, s.covers i = true ∧ os[i]? = some (c, .edit e)

/-- Characters that do not follow one another in the source do so in the piece. -/
def Joined (os : List (Char × Origin)) (s : Span) : Prop :=
  ∃ i c d a b, s.covers i = true ∧ s.covers (i + 1) = true ∧ os[i]? = some (c, .source a) ∧
    os[i + 1]? = some (d, .source b) ∧ b ≠ a + 1

/-- The piece is a copy of what stands from `a` on in the source. -/
def CopiedFrom (os : List (Char × Origin)) (s : Span) (a : Nat) : Prop :=
  ∀ k, s.start + k < s.stop → ∃ c, os[s.start + k]? = some (c, .source (a + k))

theorem holdsWritten_or_joined_or_copiedFrom {os s} (hlt : s.start < s.stop)
    (hs : s.stop ≤ os.length) : HoldsWritten os s ∨ Joined os s ∨ ∃ a, CopiedFrom os s a := by
  refine Classical.or_iff_not_imp_left.2 fun hwritten => Classical.or_iff_not_imp_left.2 fun hjoined => ?_
  have hsource : ∀ i, s.start ≤ i → i < s.stop → ∃ c a, os[i]? = some (c, .source a) := by
    intro i h1 h2
    obtain ⟨⟨c, o⟩, ho⟩ : ∃ p, os[i]? = some p := ⟨_, getElem?_eq_getElem (by omega)⟩
    cases o with
    | source a => exact ⟨c, a, ho⟩
    | edit e => exact absurd ⟨i, c, e, Span.covers_iff.2 ⟨h1, h2⟩, ho⟩ hwritten
  obtain ⟨c, a, ha⟩ := hsource s.start (Nat.le_refl _) hlt
  refine ⟨a, fun k => ?_⟩
  -- each character stands behind the one before, in the source as in the piece
  induction k with
  | zero => exact fun _ => ⟨c, ha⟩
  | succ k ih =>
    intro hk
    obtain ⟨d, hd⟩ := ih (by omega)
    obtain ⟨e, b, hb⟩ := hsource (s.start + k + 1) (by omega) (by omega)
    obtain rfl : b = a + k + 1 := by
      apply Classical.byContradiction
      intro hne
      exact hjoined ⟨s.start + k, d, e, a + k, b, Span.covers_iff.2 ⟨by omega, by omega⟩,
        Span.covers_iff.2 ⟨by omega, by omega⟩, hd, hb, hne⟩
    exact ⟨e, hb⟩

end Rebind.Edit
