/-
Texts seen through their offsets: which character stands where in a slice, where lines begin and end,
and where runs of characters stop.
-/
import Rebind.Text.Search

namespace Rebind.Text

open List

/-! ## Slices -/

theorem getElem?_slice (t : Text) (s e k : Nat) : (slice t s e)[k]? = if s + k < e then t[s + k]? else none := by
  rw [slice, getElem?_drop, getElem?_take]

@[simp] theorem length_slice (t : Text) (s e : Nat) : (slice t s e).length = min e t.length - s := by
  simp [slice]

variable {t : Text} {s e : Nat}

theorem mem_slice {c} : c ∈ slice t s e ↔ ∃ i, s ≤ i ∧ i < e ∧ t[i]? = some c := by
  rw [mem_iff_getElem?]
  simp only [getElem?_slice]
  constructor
  · rintro ⟨k, hk⟩
    split at hk
    · exact ⟨s + k, by omega, by omega, hk⟩
    · simp at hk
  · rintro ⟨i, hs, he, hi⟩
    refine ⟨i - s, ?_⟩
    rw [if_pos (by omega), show s + (i - s) = i by omega, hi]

/-- The characters of a text within `[s, e)` are all blank. -/
def BlankWithin (t : Text) (s e : Nat) : Prop := ∀ i c, s ≤ i → i < e → t[i]? = some c → isBlank c = true

theorem isAllBlank_slice : isAllBlank (slice t s e) = true ↔ BlankWithin t s e := by
  simp only [isAllBlank, all_eq_true, mem_slice, BlankWithin]
  constructor
  · intro h i c hs he hi
    exact h c ⟨i, hs, he, hi⟩
  · rintro h c ⟨i, hs, he, hi⟩
    exact h i c hs he hi

/-! ## Runs -/

/-- A run of characters that satisfy a test: they do, and the next one does not. -/
theorem takeWhile_run {α : Type} (p : α → Bool) : ∀ l : List α,
    (∀ i, i < (l.takeWhile p).length → ∃ a, l[i]? = some a ∧ p a = true) ∧
    (∀ a, l[(l.takeWhile p).length]? = some a → p a = false) ∧ (l.takeWhile p).length ≤ l.length
  | [] => by simp
  | a :: l => by
    obtain ⟨h1, h2, h3⟩ := takeWhile_run p l
    by_cases hp : p a = true
    · simp only [takeWhile_cons_of_pos hp, length_cons]
      refine ⟨fun i hi => ?_, fun b hb => h2 b (by simpa using hb), by omega⟩
      cases i with
      | zero => exact ⟨a, rfl, hp⟩
      | succ i => simpa using h1 i (by omega)
    · simp only [Bool.not_eq_true] at hp
      simp [hp]

theorem le_skipBlanks (t : Text) (i e : Nat) : i ≤ skipBlanks t i e := Nat.le_add_right _ _

theorem skipBlanks_le {i} (h : i ≤ e) : skipBlanks t i e ≤ e := by
  have := (takeWhile_run isBlank (slice t i e)).2.2
  rw [length_slice] at this
  simp only [skipBlanks]
  omega

theorem blankWithin_skipBlanks (t : Text) (i e : Nat) : BlankWithin t i (skipBlanks t i e) := by
  intro k c hik hk hc
  obtain ⟨d, hd, hblank⟩ := (takeWhile_run isBlank (slice t i e)).1 (k - i) (by simp only [skipBlanks] at hk; omega)
  rw [getElem?_slice, show i + (k - i) = k by omega] at hd
  split at hd
  · obtain rfl : c = d := by simpa [hc] using hd
    exact hblank
  · simp at hd

theorem not_isBlank_skipBlanks {t i e} (h : skipBlanks t i e < e) {c}
    (hc : t[skipBlanks t i e]? = some c) : isBlank c = false := by
  refine (takeWhile_run isBlank (slice t i e)).2.1 c ?_
  rw [getElem?_slice]
  exact (if_pos h).trans hc

theorem firstWithin?_eq_some {k p} (h : firstWithin? t s e p = some k) :
    s ≤ k ∧ k < e ∧ ∃ c, t[k]? = some c ∧ p c = true := by
  obtain ⟨-, hstop, hle⟩ := takeWhile_run (fun c => !p c) (slice t s e)
  have hsplit := congrArg List.length (@List.takeWhile_append_dropWhile _ (fun c => !p c) (slice t s e))
  rw [length_append] at hsplit
  simp only [firstWithin?] at h
  split at h
  · simp at h
  · next rest hrest =>
    have hpos : 0 < ((slice t s e).dropWhile fun c => !p c).length := length_pos_iff.2 hrest
    have hlt : ((slice t s e).takeWhile fun c => !p c).length < (slice t s e).length := by omega
    have hk : k = s + ((slice t s e).takeWhile fun c => !p c).length := by
      simp only [Option.some.injEq] at h
      omega
    have hlen := hlt
    rw [length_slice] at hlen
    have hin : s + ((slice t s e).takeWhile fun c => !p c).length < e := by omega
    have hget := getElem?_eq_getElem hlt
    refine ⟨by omega, by omega, _, ?_, by simpa using hstop _ hget⟩
    rw [← hget, getElem?_slice, if_pos hin, hk]

/-! ## Lines -/

/-- The line holding an offset starts at the beginning of the text or behind a line break, and no
line break stands between its start and the offset. -/
theorem lineStart_spec (t : Text) (pos : Nat) :
    lineStart t pos ≤ pos ∧ (∀ i, lineStart t pos ≤ i → i < pos → t[i]? ≠ some '\n') ∧
      (0 < lineStart t pos → t[lineStart t pos - 1]? = some '\n') := by
  obtain ⟨hrun, hstop, hle⟩ := takeWhile_run (· != '\n') (t.take pos).reverse
  have hlen : (t.take pos).length = min pos t.length := length_take
  have hback : ∀ k, k < min pos t.length →
      (t.take pos).reverse[k]? = t[min pos t.length - 1 - k]? := by
    intro k hk
    rw [getElem?_reverse (by rw [hlen]; exact hk), hlen, getElem?_take, if_pos (by omega)]
  simp only [lineStart, hlen] at *
  generalize ((t.take pos).reverse.takeWhile (· != '\n')).length = n at *
  refine ⟨by omega, fun i hi hpos hc => ?_, fun h0 => ?_⟩
  · obtain ⟨hilt, -⟩ := List.getElem?_eq_some_iff.1 hc
    obtain ⟨a, ha, hne⟩ := hrun (min pos t.length - 1 - i) (by omega)
    rw [hback _ (by omega), show min pos t.length - 1 - (min pos t.length - 1 - i) = i by omega, hc] at ha
    simp [← Option.some.inj ha] at hne
  · have hn : n < min pos t.length := by omega
    have hget : (t.take pos).reverse[n]? = t[min pos t.length - n - 1]? := by
      rw [hback n hn]
      congr 1
      omega
    obtain ⟨c, hc⟩ : ∃ c, t[min pos t.length - n - 1]? = some c := ⟨_, getElem?_eq_getElem (by omega)⟩
    have := hstop c (by rw [hget, hc])
    simp only [bne_eq_false_iff_eq] at this
    rw [hc, this]

/-- The line holding an offset ends at a line break or at the end of the text, and no line break
stands between the offset and its end. -/
theorem lineEnd_spec {pos} (h : pos ≤ t.length) : pos ≤ lineEnd t pos ∧ lineEnd t pos ≤ t.length ∧
      (∀ i, pos ≤ i → i < lineEnd t pos → t[i]? ≠ some '\n') ∧
      (lineEnd t pos < t.length → t[lineEnd t pos]? = some '\n') := by
  obtain ⟨hrun, hstop, hle⟩ := takeWhile_run (· != '\n') (t.drop pos)
  rw [length_drop] at hle
  have hend : lineEnd t pos = pos + ((t.drop pos).takeWhile (· != '\n')).length := by
    simp only [lineEnd]
    omega
  rw [hend]
  refine ⟨by omega, by omega, fun i hi hlt hc => ?_, fun hlt => ?_⟩
  · obtain ⟨a, ha, hne⟩ := hrun (i - pos) (by omega)
    rw [getElem?_drop, show pos + (i - pos) = i by omega, hc] at ha
    simp [← Option.some.inj ha] at hne
  · obtain ⟨c, hc⟩ : ∃ c, t[pos + ((t.drop pos).takeWhile (· != '\n')).length]? = some c := ⟨_, getElem?_eq_getElem hlt⟩
    have := hstop c (by rw [getElem?_drop, hc])
    simp only [bne_eq_false_iff_eq] at this
    rw [hc, this]

theorem isBlank_newline : isBlank '\n' = true := by decide

end Rebind.Text
