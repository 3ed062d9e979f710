/-
Where edits fit.

Behind some offsets anything can be written (`Free`), as at the start of a line: nothing in front of them grows together
with it. Behind other boundaries code fits that starts with a character that takes part in no comment or literal.
-/
import Rebind.Proofs.Edit.Fitting
import Rebind.Proofs.Edit.Removal
import Rebind.Proofs.Java.Closed
import Rebind.Proofs.Java.Parts

namespace Rebind.Edit

open Java Text Option List

variable {t : Text}

theorem fits_of_level {e : Edit} (hstart : Boundary t e.start) (hstop : Boundary t e.stop)
    (hinside : e.start < t.length)
    (hlevel : SameLevel (mask t) e.start e.stop) (hturns : ∀ owed, Turns owed e.text owed)
    (hmeets : ∀ l, (lexemes (t.take e.start)).getLast? = some l → ∀ v, l.Meets (e.text ++ v).head?) : e.Fits t := by
  refine ⟨hstart, hstop, hinside, fun owed owed' howed howed' => ?_, hmeets⟩
  rw [← hlevel, howed, some.injEq] at howed'
  rw [← howed']
  exact hturns owed

/-! ## Free places -/

/-- Whatever comes to stand behind the offset, the lexemes in front of it stay as they are. -/
structure Free (t : Text) (j : Nat) : Prop where
  boundary : Boundary t j
  inside : j < t.length
  offLine : OffLine t j
  clear : Clear (mask t) j

variable {j i : Nat} {l : Lexeme} {u : Text} {s : Span} {d : Char}

theorem Free.meets (h : Free t j) (hl : (lexemes (t.take j)).getLast? = some l) (d : Option Char) : l.Meets d :=
  h.boundary.meets (Nat.le_of_lt h.inside) h.offLine h.clear.1 h.clear.2 d hl

theorem offLine_of_ne (hj : j < t.length) (hne : t[j]? ≠ some '\n') : OffLine t j :=
  .inr ⟨t[j], getElem?_eq_getElem hj, fun h => hne (by rw [getElem?_eq_getElem hj, h])⟩

theorem ne_newline_of_codeAt (h : CodeAt t j) : t[j]? ≠ some '\n' := by
  intro hbreak
  obtain ⟨c, hc, hcode⟩ := h
  rw [getElem?_mask_newline.2 hbreak, some.injEq] at hc
  subst hc
  revert hcode
  decide

theorem clear_of_newline {masked : Text} (h : 0 < j → masked[j - 1]? = some '\n') : Clear masked j := by
  rcases Nat.eq_zero_or_pos j with rfl | hpos
  · exact ⟨by simp [charBefore], by simp [charBefore]⟩
  · exact clear_of_last (h hpos) (by decide) (by decide)

theorem free_lineStart (h : Boundary t i) (hi : i < t.length) (hne : t[i]? ≠ some '\n')
    (hblank : BlankWithin t (lineStart t i) i) : Free t (lineStart t i) := by
  obtain ⟨hle, hline, hbreak⟩ := lineStart_spec t i
  have hinside : lineStart t i < t.length := by omega
  refine ⟨boundary_lineStart h hi hblank, hinside, offLine_of_ne hinside ?_, ?_⟩
  · rcases Nat.eq_or_lt_of_le hle with heq | hlt
    · rw [heq]
      exact hne
    · exact hline _ (Nat.le_refl _) hlt
  · exact clear_of_newline fun hpos => getElem?_mask_newline.2 (hbreak hpos)

theorem fits_insert_of_free (h : Free t j) (hu : ∀ owed, Turns owed u owed) : (⟨j, j, u⟩ : Edit).Fits t :=
  fits_of_level h.boundary h.boundary h.inside (.refl _ _) hu fun _ hl _ => h.meets hl _

/-! ## Removals -/

theorem blankWithin_mask (h : BlankWithin t i j) : BlankWithin (mask t) i j := by
  intro k c hik hkj hk
  cases hc : isBlank c with
  | true => rfl
  | false =>
    have hblank := h k c hik hkj (getElem?_of_mask hk hc)
    rw [hc] at hblank
    exact hblank

theorem level_removed (hs : s.stop ≤ t.length) (h : SameLevel (mask t) s.start s.stop) :
    SameLevel (mask t) (removed t s).start (removed t s).stop := by
  obtain ⟨hstart, hstop, -, hfront, hback⟩ := removalSpan_spec (s := s.start) hs
  have hbefore : SameLevel (mask t) (removed t s).start s.start := level_of_blankWithin hstart (blankWithin_mask hfront)
  have hbehind : SameLevel (mask t) s.stop (removed t s).stop := level_of_blankWithin hstop (blankWithin_mask hback)
  exact hbefore.trans (h.trans hbehind)

theorem free_removed (h : Boundary t s.start) (hs : s.start < t.length) (hne : t[s.start]? ≠ some '\n')
    (hclear : Clear (mask t) s.start) : Free t (removed t s).start := by
  by_cases halone : Alone t s.start s.stop
  · simp only [removed, removalSpan_of_alone halone]
    exact free_lineStart h hs hne halone.1
  · simp only [removed, removalSpan_of_not_alone halone]
    exact ⟨h, hs, offLine_of_ne hs hne, hclear⟩

/-- A removal fits if it closes what it opens. -/
theorem fits_removed (h : Uncut t s) (hlt : s.start < s.stop) (hs : s.stop ≤ t.length) (hne : t[s.start]? ≠ some '\n')
    (hclear : Clear (mask t) s.start) (hlevel : SameLevel (mask t) s.start s.stop) :
    (⟨(removed t s).start, (removed t s).stop, []⟩ : Edit).Fits t := by
  have hfree := free_removed h.start (by omega) hne hclear
  obtain ⟨-, hstop, -, -, hback⟩ := removalSpan_spec (s := s.start) hs
  exact fits_of_level hfree.boundary (h.stop.of_blankWithin hstop hback) hfree.inside (level_removed hs hlevel)
    Turns.nil fun _ hl _ => hfree.meets hl _

/-! ## Code that starts with a plain character -/

/-- The character takes part in no comment and no literal. -/
def isApart (c : Char) : Bool := c != '/' && c != '*' && c != '"'

theorem meets_apart (h : Boundary t j) (hj : j ≤ t.length) (hline : OffLine t j) (hd : isApart d = true)
    (hl : (lexemes (t.take j)).getLast? = some l) : l.Meets (some d) := by
  simp only [isApart, Bool.and_eq_true, bne_iff_ne] at hd
  exact h.meets_some hj hline hd.1.1 hd.1.2 hd.2 hl

theorem meets_newline (l : Lexeme) : l.Meets (some '\n') := ⟨by simp, by simp, by simp⟩

theorem fits_replace (h : Uncut t s) (hs : s.start < t.length) (hline : OffLine t s.start)
    (hlevel : SameLevel (mask t) s.start s.stop) (hhead : u.head? = some d) (hd : isApart d = true)
    (hu : ∀ owed, Turns owed u owed) : (⟨s.start, s.stop, u⟩ : Edit).Fits t := by
  refine fits_of_level h.start h.stop hs hlevel hu fun l hl v => ?_
  rw [head?_append, hhead, some_or]
  exact meets_apart h.start (Nat.le_of_lt hs) hline hd hl

theorem fits_insert (h : Boundary t j) (hj : j < t.length) (hline : OffLine t j) (hhead : u.head? = some d)
    (hd : isApart d = true) (hu : ∀ owed, Turns owed u owed) : (⟨j, j, u⟩ : Edit).Fits t := by
  refine fits_of_level h h hj (.refl _ _) hu fun l hl v => ?_
  rw [head?_append, hhead, some_or]
  exact meets_apart h (Nat.le_of_lt hj) hline hd hl

theorem fits_insert_newline (h : Boundary t j) (hj : j < t.length) (hhead : u.head? = some '\n')
    (hu : ∀ owed, Turns owed u owed) : (⟨j, j, u⟩ : Edit).Fits t := by
  refine fits_of_level h h hj (.refl _ _) hu fun l _ v => ?_
  rw [head?_append, hhead, some_or]
  exact meets_newline l

end Rebind.Edit
