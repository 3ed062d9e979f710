/-
Edits applied by a scan of the text.
 The scan looks at one offset at a time. It writes the insertions recorded there, unless the offset is inside a range
that is kept; where such a range starts, it writes its text and goes on at its end, and elsewhere it copies the
character. This is what applying the edits writes (`apply_eq_scan`).
-/
import Mathlib.Data.List.Permutation
import Rebind.Proofs.Edit.Nested

namespace Rebind.Edit

open Java (Span)
open List Bool

namespace Draft

variable {d : Draft} {k : Edit} {pos : Nat}

/-- The edit takes something away, and no recorded one takes away more besides that. -/
def isOutermost (d : Draft) (k : Edit) : Bool :=
  decide (k.start < k.stop) && d.edits.all fun r => !decide (k.span.Inside r.span) || decide (r.span = k.span)

/-- The range is kept: it is outermost, and the first that was recorded with its bounds. -/
def keeps (d : Draft) (k : Edit) : Bool :=
  d.isOutermost k && decide (d.edits.find? (·.span = k.span) = some k)

/-- The range that is kept and starts at an offset. -/
def keptAt? (d : Draft) (pos : Nat) : Option Edit := d.edits.find? fun k => d.keeps k && decide (k.start = pos)

/-- The insertions at an offset, in the order of recording, unless a range that is kept goes across it. -/
def insertionsAt (d : Draft) (pos : Nat) : List Edit :=
  d.edits.filter fun e => e.isInsertion && decide (e.start = pos) &&
    !d.edits.any fun k => d.keeps k && decide (k.start < pos) && decide (pos < k.stop)

theorem keeps_iff : d.keeps k = true ↔ Span.Outermost d.Takes k.span ∧ d.edits.find? (·.span = k.span) = some k := by
  simp only [keeps, isOutermost, and_eq_true, decide_eq_true_eq, all_eq_true, or_eq_true,
    not_eq_true', decide_eq_false_iff_not]
  constructor
  · rintro ⟨⟨hlt, hout⟩, hfirst⟩
    refine ⟨⟨⟨hlt, k, mem_of_find?_eq_some hfirst, rfl⟩, hlt, ?_⟩, hfirst⟩
    rintro _ ⟨-, r, hr, rfl⟩ hin
    exact (hout r hr).resolve_left fun hnot => hnot hin
  · rintro ⟨⟨-, hlt, hout⟩, hfirst⟩
    refine ⟨⟨hlt, fun r hr => ?_⟩, hfirst⟩
    by_cases hin : k.span.Inside r.span
    · refine .inr (hout r.span ⟨?_, r, hr, rfl⟩ hin)
      obtain ⟨h1, h2⟩ := hin
      omega
    · exact .inl hin

theorem lt_stop_of_keptAt? (h : d.keptAt? pos = some k) : pos < k.stop := by
  have hk := find?_some h
  simp only [and_eq_true, decide_eq_true_eq] at hk
  have := (keeps_iff.1 hk.1).1.2.1
  simp only [span_start, span_stop] at this
  omega

/-- What the scan writes from an offset on, each character with where it comes from. -/
def scan (d : Draft) (pos : Nat) : List (Char × Origin) :=
  if _h : d.text.length < pos then []
  else
    (d.insertionsAt pos).flatMap written ++
      match _hk : d.keptAt? pos with
      | some k => written k ++ d.scan k.stop
      | none => copied d.text pos ++ d.scan (pos + 1)
termination_by d.text.length + 1 - pos
decreasing_by
  · have := lt_stop_of_keptAt? _hk
    omega
  · omega

/-! ## The scan keeps what resolving keeps -/

section Resolved

variable {d : Draft} {kept : List Edit} (h : Resolved d kept)

include h

theorem keeps_iff_mem : d.keeps k = true ↔ k ∈ kept := by
  rw [keeps_iff]
  constructor
  · rintro ⟨hout, hfirst⟩
    obtain ⟨l, hl, hspan⟩ := h.exists_of_outermost hout
    obtain rfl := h.eq_first hl hspan hfirst
    exact hl
  · intro hk
    exact ⟨h.outermost k hk, h.first k hk⟩

theorem keptAt?_eq_some : d.keptAt? pos = some k ↔ k ∈ kept ∧ k.start = pos := by
  have sound : ∀ {l}, d.keptAt? pos = some l → l ∈ kept ∧ l.start = pos := by
    intro l hl
    have hfound := find?_some hl
    simpa [keeps_iff_mem h] using hfound
  refine ⟨sound, fun ⟨hk, hstart⟩ => ?_⟩
  cases hfound : d.keptAt? pos with
  | none =>
    have hnone := find?_eq_none.1 hfound k (h.recorded hk).1
    simp [keeps_iff_mem h, hk, hstart] at hnone
  | some l =>
    -- two ranges that are kept do not start at one offset
    obtain ⟨hl, hlstart⟩ := sound hfound
    have h1 := (h.recorded hk).2
    have h2 := (h.recorded hl).2
    rcases h.eq_or_apart hk hl with rfl | h' | h'
    · rfl
    · omega
    · omega

theorem insertionsAt_eq (pos : Nat) : d.insertionsAt pos = (d.insertionsOutside kept).filter (·.start = pos) := by
  rw [insertionsAt, insertionsOutside, filter_filter]
  refine filter_congr fun e _ => ?_
  by_cases hpos : e.start = pos
  · subst hpos
    have hacross : (d.edits.any fun k => d.keeps k && decide (k.start < e.start) && decide (e.start < k.stop)) =
        kept.any fun r => decide (r.start < e.start) && decide (e.start < r.stop) := by
      rw [Bool.eq_iff_iff]
      simp only [any_eq_true, and_eq_true, keeps_iff_mem h, decide_eq_true_eq]
      constructor
      · rintro ⟨k, -, ⟨hk, h1⟩, h2⟩
        exact ⟨k, hk, h1, h2⟩
      · rintro ⟨k, hk, h1, h2⟩
        exact ⟨k, (h.recorded hk).1, ⟨hk, h1⟩, h2⟩
    simp [hacross]
  · simp [hpos]

theorem originsAt_of_free (hfree : ∀ k ∈ kept, ¬ (k.start ≤ pos ∧ pos < k.stop)) :
    originsAt d.text (d.effective kept) pos =
      ((d.insertionsOutside kept).filter (·.start = pos)).flatMap written ++ copied d.text pos := by
  have hany : (d.effective kept).any (·.covers pos) = false := by
    rw [any_eq_false]
    intro e he hcov
    rw [covers_iff] at hcov
    rcases mem_append.1 he with he | he
    · have := (mem_insertionsOutside.1 he).2.1
      omega
    · exact hfree e he hcov
  have hnone : kept.filter (·.start = pos) = [] := by
    rw [filter_eq_nil_iff]
    intro k hk
    have h1 := hfree k hk
    have h2 := (h.recorded hk).2
    simp only [decide_eq_true_eq]
    omega
  rw [originsAt, hany, effective, filter_append, hnone]
  simp

theorem originsFrom_inside (hd : d.Orderly) (hk : k ∈ kept) :
    originsFrom d.text (d.effective kept) (k.start + 1) = originsFrom d.text (d.effective kept) k.stop := by
  obtain ⟨hrec, hlt⟩ := h.recorded hk
  have hlen := (hd k hrec).2
  have hnext := @originsFrom_covered d.text (d.effective kept) (k.stop - (k.start + 1)) (k.start + 1) (by omega) ?_
  · rw [hnext, show k.start + 1 + (k.stop - (k.start + 1)) = k.stop by omega]
  · intro i h1 h2
    refine ⟨any_covers_of_kept hk (by omega) (by omega), fun e he => ?_⟩
    rcases mem_append.1 he with he | he
    · have := (mem_insertionsOutside.1 he).2.2 k hk
      omega
    · have := (h.recorded he).2
      rcases h.eq_or_apart hk he with rfl | h' | h' <;> omega

theorem originsFrom_eq_scan (hd : d.Orderly) (pos : Nat) (hpos : ∀ k ∈ kept, ¬ (k.start < pos ∧ pos < k.stop)) :
    originsFrom d.text (d.effective kept) pos = d.scan pos := by
  rw [scan]
  split
  · next hlen =>
    rw [originsFrom, show d.text.length + 1 - pos = 0 by omega]
    rfl
  · next hlen =>
    rw [originsFrom_succ (by omega), insertionsAt_eq h]
    split
    · next k hk =>
      obtain ⟨hmem, rfl⟩ := (keptAt?_eq_some h).1 hk
      have hlt := (h.recorded hmem).2
      rw [originsAt_of_kept h hmem, originsFrom_inside h hd hmem, originsFrom_eq_scan hd k.stop ?_, append_assoc]
      intro l hl hacross
      rcases h.eq_or_apart hmem hl with rfl | h' | h' <;> omega
    · next hk =>
      have hstart : ∀ k ∈ kept, k.start ≠ pos := fun k hmem heq => by
        rw [(keptAt?_eq_some h).2 ⟨hmem, heq⟩] at hk
        cases hk
      rw [originsAt_of_free h ?_, originsFrom_eq_scan hd (pos + 1) ?_, append_assoc]
      · intro k hmem hacross
        have h1 := hpos k hmem
        have h2 := hstart k hmem
        omega
      · intro k hmem hcov
        have h1 := hpos k hmem
        have h2 := hstart k hmem
        omega
termination_by d.text.length + 1 - pos

theorem origins_eq_scan (hd : d.Orderly) : origins d.text (d.effective kept) = d.scan 0 :=
  originsFrom_eq_scan h hd 0 fun _ _ hacross => Nat.not_lt_zero _ hacross.1

theorem any_covers_effective (pos : Nat) : (d.effective kept).any (·.covers pos) = d.covers pos := by
  rw [Bool.eq_iff_iff, covers, any_eq_true, any_eq_true]
  constructor
  · rintro ⟨e, he, hcov⟩
    rcases mem_append.1 he with he | he
    · exact ⟨e, (mem_insertionsOutside.1 he).1, hcov⟩
    · exact ⟨e, (h.recorded he).1, hcov⟩
  · rintro ⟨e, he, hcov⟩
    rw [Edit.covers_iff] at hcov
    obtain ⟨k, hk, ⟨h1, h2⟩, -⟩ := h.inside e he (by omega)
    simp only [span_start, span_stop] at h1 h2
    exact any_eq_true.1 (any_covers_of_kept hk (by omega) (by omega))

/-! ## Buried edits do not matter -/

variable {p : Edit → Bool} (hp : ∀ e ∈ d.edits, p e = false → d.Buried e)

include hp

theorem Resolved.only (hd : d.Orderly) : Resolved (d.only p) kept where
  apart := h.apart
  outermost k hk := (outermost_only_iff hp hd).2 (h.outermost k hk)
  first k hk := (find?_only hp (h.outermost k hk)).trans (h.first k hk)
  inside e he := h.inside e (mem_only.1 he).1

theorem insertionsOutside_only : (d.only p).insertionsOutside kept = d.insertionsOutside kept := by
  rw [insertionsOutside, insertionsOutside, Draft.only, filter_filter]
  refine filter_congr fun e he => ?_
  cases hpass : p e with
  | true => simp
  | false =>
    obtain ⟨w, hw, hin, -, hstrict⟩ := hp e he hpass
    by_cases hins : e.start = e.stop
    · -- the wider range lies in one that is kept, which goes across the insertion
      obtain ⟨k, hk, ⟨h3, h4⟩, -⟩ := h.inside w hw (by omega)
      simp only [span_start, span_stop] at h3 h4
      have hacross : (kept.any fun r => decide (r.start < e.start) && decide (e.start < r.stop)) = true := by
        refine any_eq_true.2 ⟨k, hk, ?_⟩
        simp only [and_eq_true, decide_eq_true_eq]
        omega
      simp [hacross]
    · simp [isInsertion, hins]

theorem scan_only (hd : d.Orderly) : (d.only p).scan 0 = d.scan 0 := by
  rw [← origins_eq_scan h hd, ← origins_eq_scan (Resolved.only h hp hd) (hd.only p), effective,
    insertionsOutside_only h hp]
  rfl

end Resolved

/-! ## Applying edits -/

theorem apply_eq_map_scan (hd : d.Orderly) {kept} (h : d.resolve = .ok kept) :
    d.apply = .ok ((d.scan 0).map Prod.fst) := by
  rw [apply_eq_origins hd h, origins_eq_scan (resolved_of_resolve hd h) hd]

theorem exists_resolve_of_apply {out} (h : d.apply = .ok out) : ∃ kept, d.resolve = .ok kept := by
  cases hr : d.resolve with
  | ok kept => exact ⟨kept, rfl⟩
  | error why =>
    rw [apply_eq_error_iff.2 hr] at h
    cases h

/-- The characters that no recorded range takes away, in order and with their offsets. -/
def untouched (d : Draft) : List (Char × Nat) := d.text.zipIdx.filter fun p => !d.covers p.2

end Draft

/-- The offset that a written character was copied from. -/
def copiedFrom? : Char × Origin → Option (Char × Nat)
  | (c, .source pos) => some (c, pos)
  | (_, .edit _) => none

theorem filterMap_copiedFrom?_originsAt (t : Text) (es : List Edit) (pos : Nat) :
    (originsAt t es pos).filterMap copiedFrom? =
      if es.any (·.covers pos) then [] else t[pos]?.toList.map fun c => (c, pos) := by
  have hwritten : ((es.filter (·.start = pos)).flatMap written).filterMap copiedFrom? = [] := by
    simp [filterMap_flatMap, written, filterMap_map, copiedFrom?, Function.comp_def]
  rw [originsAt, filterMap_append, hwritten, nil_append]
  split
  · rfl
  · simp [copied, filterMap_map, copiedFrom?, Function.comp_def]

theorem filter_zipIdx_eq_flatMap (q : Nat → Bool) (t : Text) (n : Nat) : ((t.zipIdx n).filter fun p => !q p.2) =
      (List.range' n t.length).flatMap fun i => if q i then [] else t[i - n]?.toList.map fun c => (c, i) := by
  induction t generalizing n with
  | nil => rfl
  | cons c t ih =>
    have htail : (List.range' (n + 1) t.length).flatMap
          (fun i => if q i then [] else (c :: t)[i - n]?.toList.map fun c => (c, i)) =
        (List.range' (n + 1) t.length).flatMap
          (fun i => if q i then [] else t[i - (n + 1)]?.toList.map fun c => (c, i)) := by
      rw [flatMap_def, flatMap_def]
      congr 1
      refine map_congr_left fun i hi => ?_
      rw [mem_range'_1] at hi
      rw [show i - n = i - (n + 1) + 1 by omega, getElem?_cons_succ]
    rw [zipIdx_cons, length_cons, range'_succ, flatMap_cons, htail, ← ih (n + 1)]
    cases hq : q n <;> simp [hq]

theorem filterMap_copiedFrom?_origins (t : Text) (es : List Edit) :
    (origins t es).filterMap copiedFrom? = t.zipIdx.filter fun p => !es.any (·.covers p.2) := by
  rw [filter_zipIdx_eq_flatMap (fun i => es.any (·.covers i)), origins, originsFrom, Nat.sub_zero,
    range'_concat, flatMap_append, filterMap_append, filterMap_flatMap]
  simp [filterMap_copiedFrom?_originsAt]

namespace Draft

/-- Applying recorded edits, where it succeeds, writes what the scan of the text writes. So each character outside
of all recorded ranges is written once and in order, and edits inside a wider range have no effect. -/
theorem apply_eq_scan (t : Text) (calls : List Call) {out : Text} (h : (recorded t calls).apply = .ok out) :
    out = ((recorded t calls).scan 0).map Prod.fst ∧
    ((recorded t calls).scan 0).filterMap copiedFrom? = (recorded t calls).untouched ∧
    ∀ p : Edit → Bool, (∀ e ∈ (recorded t calls).edits, p e = false → (recorded t calls).Buried e) →
      ((recorded t calls).only p).apply = .ok out := by
  have hd := orderly_recorded t calls
  generalize recorded t calls = d at h hd
  obtain ⟨kept, hkept⟩ := exists_resolve_of_apply h
  have hres := resolved_of_resolve hd hkept
  have hout : out = (d.scan 0).map Prod.fst := by
    rw [apply_eq_map_scan hd hkept] at h
    exact (Except.ok.inj h).symm
  refine ⟨hout, ?_, fun p hp => ?_⟩
  · rw [← origins_eq_scan hres hd, filterMap_copiedFrom?_origins, untouched]
    simp only [any_covers_effective hres]
  · cases hr : (d.only p).resolve with
    | ok kept' => rw [apply_eq_map_scan (hd.only p) hr, scan_only hres hp hd, hout]
    | error why =>
      have hconflict := conflict_of_resolve (hd.only p) hr
      obtain ⟨why', herror⟩ := (exists_error_iff_conflict hd).2 ⟨why, (conflict_only_iff hp hd).1 hconflict⟩
      rw [herror] at h
      cases h

/-- A range with insertions at both of its ends and inside, and with two ranges in it that straddle. -/
def overlaid : List Call :=
  [.insert 1 "<", .delete 2 4, .insert 3 "!", .replace 1 5 "X", .delete 3 5, .insert 5 ">"]

theorem apply_eq_scan_overlaid :
    (recorded "abcdefg" overlaid).apply = .ok "a<X>fg" ∧
    "a<X>fg".toList = ((recorded "abcdefg" overlaid).scan 0).map Prod.fst ∧
    ((recorded "abcdefg" overlaid).scan 0).filterMap copiedFrom? = (recorded "abcdefg" overlaid).untouched ∧
    ∀ p : Edit → Bool,
      (∀ e ∈ (recorded "abcdefg" overlaid).edits, p e = false → (recorded "abcdefg" overlaid).Buried e) →
      ((recorded "abcdefg" overlaid).only p).apply = .ok "a<X>fg" := by
  have h : (recorded "abcdefg" overlaid).apply = .ok "a<X>fg" := by cbv
  exact ⟨h, apply_eq_scan "abcdefg" overlaid h⟩

end Draft

end Rebind.Edit
