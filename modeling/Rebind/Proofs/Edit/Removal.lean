/-
What a removal takes away besides the span it is for.
-/
import Rebind.Proofs.Edit.Resolution
import Rebind.Proofs.Text.Offset

namespace Rebind.Edit

open Text
open Java (Span)

variable {t : Text} {s e : Nat}

def Alone (t : Text) (s e : Nat) : Prop :=
  BlankWithin t (lineStart t s) s ∧ BlankWithin t e (lineEnd t e)

theorem linesRemovalEnd_spec {start stop} (h : stop ≤ t.length) :
    stop ≤ linesRemovalEnd t start stop ∧ linesRemovalEnd t start stop ≤ t.length ∧
      BlankWithin t stop (linesRemovalEnd t start stop) := by
  obtain ⟨h1, h2, -, h4⟩ := lineEnd_spec h
  simp only [linesRemovalEnd]
  split
  · next hblank =>
    simp only [Bool.and_eq_true, decide_eq_true_eq] at hblank
    obtain ⟨⟨-, hline⟩, hnext⟩ := hblank
    refine ⟨by omega, by omega, fun i c hi hlt hc => ?_⟩
    rcases Nat.eq_or_lt_of_le (Nat.le_of_lt_succ hlt) with rfl | hlt'
    · rw [h4 hnext] at hc
      rw [← Option.some.inj hc]
      exact isBlank_newline
    · exact isAllBlank_slice.1 hline i c hi hlt' hc
  · exact ⟨Nat.le_refl _, h, fun i c hi hlt => by omega⟩

theorem removalSpan_of_alone (h : Alone t s e) : removalSpan t s e =
      (lineStart t s, linesRemovalEnd t (lineStart t s) (min (lineEnd t e + 1) t.length)) := by
  simp only [removalSpan]
  simp [isAllBlank_slice.2 h.1, isAllBlank_slice.2 h.2]

theorem removalSpan_of_not_alone (h : ¬ Alone t s e) : removalSpan t s e =
      (s, e + ((slice t e (lineEnd t e)).takeWhile fun c => c == ' ' || c == '\t').length) := by
  simp only [removalSpan]
  rw [if_neg]
  simpa only [Alone, Bool.and_eq_true, isAllBlank_slice] using h

/-- A removal is widened by blanks only. -/
theorem removalSpan_spec (he : e ≤ t.length) :
    (removalSpan t s e).1 ≤ s ∧ e ≤ (removalSpan t s e).2 ∧ (removalSpan t s e).2 ≤ t.length ∧
      BlankWithin t (removalSpan t s e).1 s ∧ BlankWithin t e (removalSpan t s e).2 := by
  obtain ⟨h1, h2, -, h4⟩ := lineEnd_spec he
  by_cases halone : Alone t s e
  · rw [removalSpan_of_alone halone]
    obtain ⟨hl1, hl2, hl3⟩ :=
      @linesRemovalEnd_spec t (lineStart t s) (min (lineEnd t e + 1) t.length) (Nat.min_le_right _ _)
    refine ⟨(lineStart_spec t s).1, by omega, hl2, halone.1, fun i c hi hlt hc => ?_⟩
    by_cases hline : i < lineEnd t e
    · exact halone.2 i c hi hline hc
    · rcases Nat.eq_or_lt_of_le (Nat.le_of_not_lt hline) with heq | hgt
      · obtain ⟨hlen, -⟩ := List.getElem?_eq_some_iff.1 hc
        rw [← heq, h4 (by omega)] at hc
        rw [← Option.some.inj hc]
        exact isBlank_newline
      · exact hl3 i c (by omega) hlt hc
  · rw [removalSpan_of_not_alone halone]
    obtain ⟨hrun, -, hle⟩ := takeWhile_run (fun c => c == ' ' || c == '\t') (slice t e (lineEnd t e))
    rw [length_slice] at hle
    refine ⟨Nat.le_refl _, by omega, by dsimp only; omega, fun i c hi hlt => by omega, fun i c hi hlt hc => ?_⟩
    obtain ⟨a, ha, hb⟩ := hrun (i - e) (by dsimp only at hlt; omega)
    rw [getElem?_slice, show e + (i - e) = i by omega] at ha
    split at ha
    · rw [hc] at ha
      rw [Option.some.inj ha]
      simp only [Bool.or_eq_true, beq_iff_eq] at hb
      rcases hb with rfl | rfl <;> decide
    · simp at ha

theorem removalSpan_adds_blanks {t : Text} {s e : Nat} (_ : s ≤ e) (he : e ≤ t.length) :
    (removalSpan t s e).1 ≤ s ∧ e ≤ (removalSpan t s e).2 ∧ (removalSpan t s e).2 ≤ t.length ∧
      isAllBlank (slice t (removalSpan t s e).1 s) = true ∧ isAllBlank (slice t e (removalSpan t s e).2) = true := by
  obtain ⟨hstart, hstop, hle, hbefore, hbehind⟩ := @removalSpan_spec t s e he
  exact ⟨hstart, hstop, hle, isAllBlank_slice.2 hbefore, isAllBlank_slice.2 hbehind⟩

theorem removalSpan_adds_blanks_line : removalSpan "a;\n\n b;\n\nc;" 5 7 = (4, 9) ∧
    isAllBlank (slice "a;\n\n b;\n\nc;" 4 5) = true ∧ isAllBlank (slice "a;\n\n b;\n\nc;" 7 9) = true := by
  have hspan : removalSpan "a;\n\n b;\n\nc;" 5 7 = (4, 9) := by decide
  have h := @removalSpan_adds_blanks "a;\n\n b;\n\nc;" 5 7 (by decide) (by decide)
  rw [hspan] at h
  exact ⟨hspan, h.2.2.2⟩

theorem lineStart_mono {s'} (h : s ≤ s') : lineStart t s ≤ lineStart t s' := by
  obtain ⟨h1, -, h3⟩ := lineStart_spec t s
  obtain ⟨-, h2', -⟩ := lineStart_spec t s'
  apply Nat.le_of_not_lt
  intro hlt
  exact h2' (lineStart t s - 1) (by omega) (by omega) (h3 (by omega))

def removed (t : Text) (s : Span) : Span :=
  ⟨(removalSpan t s.start s.stop).1, (removalSpan t s.start s.stop).2⟩

theorem removed_stop_le {s} (hs : s.stop ≤ t.length) {q c}
    (hq : s.stop ≤ q) (hc : t[q]? = some c) (hb : isBlank c = false) : (removed t s).stop ≤ q := by
  apply Nat.le_of_not_lt
  intro hlt
  have := (@removalSpan_spec t s.start s.stop hs).2.2.2.2 q c hq hlt hc
  simp [hb] at this

/-! ## A part and the whole -/

/-- The removal of a part sticks out of the removal of the whole: they start together, and the part has
its lines to itself, blanks before it included, while the whole shares its last line. -/
def SticksOut (t : Text) (part whole : Span) : Prop :=
  part.start = whole.start ∧ lineStart t part.start < part.start ∧ Alone t part.start part.stop ∧
    ¬ Alone t whole.start whole.stop

section Parts

variable {t : Text} {part whole : Span} {c d : Char}

theorem removed_stop_lt (hstop : part.stop < whole.stop) (hlen : whole.stop ≤ t.length)
    (hc : t[whole.stop - 1]? = some c) (hb : isBlank c = false) :
    (removed t part).stop < (removed t whole).stop := by
  have h1 := @removed_stop_le t part (by omega) (whole.stop - 1) c (by omega) hc hb
  have h2 : whole.stop ≤ (removed t whole).stop := (@removalSpan_spec t whole.start _ hlen).2.1
  omega

/-- The removal of a part that does not stick out lies inside that of the whole. -/
theorem inside_removed (hstart : whole.start ≤ part.start) (hstop : part.stop < whole.stop)
    (hlen : whole.stop ≤ t.length) (hfirst : t[whole.start]? = some d) (hfirst' : isBlank d = false)
    (hlast : t[whole.stop - 1]? = some c) (hlast' : isBlank c = false)
    (h : ¬ SticksOut t part whole) : (removed t part).Inside (removed t whole) := by
  refine ⟨?_, Nat.le_of_lt (removed_stop_lt hstop hlen hlast hlast')⟩
  have hwhole : (removed t whole).start ≤ whole.start := (@removalSpan_spec t whole.start _ hlen).1
  by_cases hpart : Alone t part.start part.stop
  · have hp : (removed t part).start = lineStart t part.start := by
      simp [removed, removalSpan_of_alone hpart]
    by_cases hw : Alone t whole.start whole.stop
    · have : (removed t whole).start = lineStart t whole.start := by
        simp [removed, removalSpan_of_alone hw]
      rw [hp, this]
      exact lineStart_mono hstart
    · rw [hp]
      -- the whole starts on an earlier line than the part, or with it and without blanks before
      apply Nat.le_of_not_lt
      intro hlt
      have heq : part.start = whole.start := by
        apply Nat.le_antisymm _ hstart
        apply Nat.le_of_not_lt
        intro hlt'
        have := hpart.1 whole.start d (by omega) hlt' hfirst
        simp [hfirst'] at this
      exact h ⟨heq, by omega, hpart, hw⟩
  · have : (removed t part).start = part.start := by
      simp [removed, removalSpan_of_not_alone hpart]
    omega

/-- The removal of a part that ends before the whole straddles that of the whole when it sticks out. -/
theorem straddles_removed (hne : part.start < part.stop) (hstop : part.stop < whole.stop)
    (hlen : whole.stop ≤ t.length) (hlast : t[whole.stop - 1]? = some c) (hlast' : isBlank c = false)
    (h : SticksOut t part whole) : (removed t part).Straddles (removed t whole) := by
  obtain ⟨heq, hlt, hpart, hw⟩ := h
  have hp : (removed t part).start = lineStart t part.start := by
    simp [removed, removalSpan_of_alone hpart]
  have hw' : (removed t whole).start = whole.start := by
    simp [removed, removalSpan_of_not_alone hw]
  have hstop' : part.stop ≤ (removed t part).stop := (@removalSpan_spec t part.start part.stop (by omega)).2.1
  exact ⟨by omega, by omega, removed_stop_lt hstop hlen hlast hlast'⟩

end Parts

/-! ## Separate spans -/

/-- A span with no blank at either end. -/
structure Solid (t : Text) (s : Span) : Prop where
  nonempty : s.start < s.stop
  first : ∃ c, t[s.start]? = some c ∧ isBlank c = false
  last : ∃ c, t[s.stop - 1]? = some c ∧ isBlank c = false

theorem Solid.stop_le {s} (h : Solid t s) : s.stop ≤ t.length := by
  obtain ⟨c, hc, -⟩ := h.last
  obtain ⟨hlt, -⟩ := List.getElem?_eq_some_iff.1 hc
  omega

/-- A removal ends on the line where its span ends, or takes lines up to their break or the end of the text. -/
theorem removed_stop_cases {s} (hs : s.stop ≤ t.length) :
    (removed t s).stop ≤ lineEnd t s.stop ∨ t[(removed t s).stop - 1]? = some '\n' ∨ (removed t s).stop = t.length := by
  obtain ⟨-, hline, -, hbreak⟩ := lineEnd_spec hs
  by_cases halone : Alone t s.start s.stop
  · right
    simp only [removed, removalSpan_of_alone halone, linesRemovalEnd]
    split
    · next h =>
      simp only [Bool.and_eq_true, decide_eq_true_eq] at h
      exact .inl ((lineEnd_spec (Nat.min_le_right _ _)).2.2.2 h.2)
    · rcases Nat.eq_or_lt_of_le hline with heq | hlt
      · exact .inr (by omega)
      · rw [Nat.min_eq_left hlt]
        exact .inl (hbreak hlt)
  · left
    have hrun := (takeWhile_run (fun c => c == ' ' || c == '\t') (slice t s.stop (lineEnd t s.stop))).2.2
    rw [length_slice] at hrun
    simp only [removed, removalSpan_of_not_alone halone]
    have := (lineEnd_spec hs).1
    omega

theorem removed_stop_le_start {s r} (hs : Solid t s) (hr : Solid t r) (h : s.stop ≤ r.start) :
    (removed t s).stop ≤ (removed t r).start := by
  obtain ⟨x, hx, hx'⟩ := hs.last
  obtain ⟨y, hy, hy'⟩ := hr.first
  have hstop := removed_stop_le hs.stop_le h hy hy'
  by_cases halone : Alone t r.start r.stop
  · have hstart : (removed t r).start = lineStart t r.start := by simp [removed, removalSpan_of_alone halone]
    obtain ⟨hle, hline, hbreak⟩ := lineStart_spec t r.start
    -- the line of the second span starts behind the first one, and so behind a line break after it
    have hbehind : s.stop < lineStart t r.start := by
      have hne := hs.nonempty
      apply Nat.lt_of_not_le
      intro hle'
      rcases Nat.eq_or_lt_of_le hle' with heq | hlt
      · have := hbreak (by omega)
        rw [heq, hx] at this
        rw [Option.some.inj this, isBlank_newline] at hx'
        cases hx'
      · have := halone.1 (s.stop - 1) x (by omega) (by omega) hx
        rw [hx'] at this
        cases this
    have hend : lineEnd t s.stop < lineStart t r.start := by
      apply Nat.lt_of_not_le
      intro hle'
      exact (lineEnd_spec hs.stop_le).2.2.1 (lineStart t r.start - 1) (by omega) (by omega) (hbreak (by omega))
    apply Nat.le_of_not_lt
    intro hlt
    rcases removed_stop_cases hs.stop_le with h' | h' | h'
    · omega
    · exact hline _ (by omega) (by omega) h'
    · obtain ⟨hlt', -⟩ := List.getElem?_eq_some_iff.1 hy
      omega
  · have hstart : (removed t r).start = r.start := by simp [removed, removalSpan_of_not_alone halone]
    rw [hstart]
    exact hstop

end Rebind.Edit
