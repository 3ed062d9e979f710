/-
Paths that the settings leave alone.

The pattern for a directory, `**/d/**`, stands for the paths that pass through a directory of that name
(`ignores_directory_iff`).
-/
import Rebind.Proofs.Text.Matching
import Rebind.Proofs.Text.Pieces
import Rebind.Settings.Basic

namespace Rebind

open List

/-! ## Patterns -/

namespace Settings

namespace GlobPart

variable {t : Text} {rest : List GlobPart}

theorem mem_suffixes {u} : ∀ {t}, u ∈ suffixes t ↔ u <:+ t
  | [] => by simp [suffixes]
  | c :: t => by rw [suffixes, mem_cons, mem_suffixes, suffix_cons_iff]

/-- An asterisk stands for any text. -/
theorem fit_any : fit (.any :: rest) t = true ↔ ∃ u v, t = u ++ v ∧ fit rest v = true := by
  simp only [fit, any_eq_true, mem_suffixes]
  constructor
  · rintro ⟨v, ⟨u, rfl⟩, hv⟩
    exact ⟨u, v, rfl, hv⟩
  · rintro ⟨u, v, rfl, hv⟩
    exact ⟨v, ⟨u, rfl⟩, hv⟩

theorem accepts_exactly {c d} : (exactly c).accepts d = true ↔ d = c := by
  simp only [exactly, accepts, any_cons, any_nil, Bool.or_false, bne_iff_ne, ne_eq, Bool.false_eq, Bool.not_eq_false,
    Bool.and_eq_true, decide_eq_true_eq]
  rw [← Char.toNat_inj]
  omega

/-- A pattern of plain characters stands for itself. -/
theorem fit_exactly : ∀ {w t}, fit (w.map exactly ++ rest) t = true ↔ ∃ v, t = w ++ v ∧ fit rest v = true
  | [], t => by simp
  | c :: w, [] => by simp [exactly, fit]
  | c :: w, d :: t => by
    have hstep :
        fit ((c :: w).map exactly ++ rest) (d :: t) = ((exactly c).accepts d && fit (w.map exactly ++ rest) t) := rfl
    rw [hstep, Bool.and_eq_true, accepts_exactly, fit_exactly]
    constructor
    · rintro ⟨rfl, v, rfl, hv⟩
      exact ⟨v, rfl, hv⟩
    · rintro ⟨v, heq, hv⟩
      obtain ⟨rfl, rfl⟩ := cons.inj heq
      exact ⟨rfl, v, rfl, hv⟩

end GlobPart

def IsLiteral (w : Text) : Prop := '*' ∉ w ∧ '?' ∉ w ∧ '[' ∉ w

theorem globParts_append (t : Text) : ∀ {w}, IsLiteral w → globParts (w ++ t) = w.map .exactly ++ globParts t
  | [], _ => rfl
  | c :: w, ⟨hstar, hmark, hbracket⟩ => by
    simp only [mem_cons, not_or] at hstar hmark hbracket
    rw [cons_append, globParts, globParts_append t ⟨hstar.2, hmark.2, hbracket.2⟩]
    · rfl
    · exact Ne.symm hstar.1
    · exact Ne.symm hmark.1
    · exact Ne.symm hbracket.1

theorem globParts_stars {c} {w t : Text} (hw : IsLiteral (c :: w)) :
    globParts ("**" ++ (c :: w ++ t)) = .any :: ((c :: w).map .exactly ++ globParts t) := by
  have hliteral := globParts_append t hw
  have hstar : globParts ('*' :: (c :: w ++ t)) = .any :: ((c :: w).map .exactly ++ globParts t) := by
    rw [globParts, hliteral]
    rfl
  rw [show ("**" : Text) ++ (c :: w ++ t) = '*' :: '*' :: (c :: w ++ t) from rfl, globParts, hstar]

/-! ## Directories -/

/-- The pattern for what lies below a directory of a name. -/
def directoryPattern (d : Text) : Text := "**/" ++ (d ++ "/**")

variable {d t : Text}

theorem IsLiteral.slashed (hd : IsLiteral d) : IsLiteral (d ++ ['/']) ∧ IsLiteral ('/' :: (d ++ ['/'])) := by
  simpa [IsLiteral] using hd

theorem globMatches_directory (hd : IsLiteral d) :
    globMatches (directoryPattern d) t = true ↔ ∃ u v, t = u ++ '/' :: (d ++ '/' :: v) := by
  have hparts : globParts (directoryPattern d) = .any :: (('/' :: (d ++ ['/'])).map .exactly ++ [.any]) := by
    have h := globParts_stars (t := "**") hd.slashed.2
    simpa [directoryPattern, globParts] using h
  simp only [globMatches, hparts, GlobPart.fit_any, GlobPart.fit_exactly]
  constructor
  · rintro ⟨u, v, rfl, w, rfl, -⟩
    exact ⟨u, w, by simp⟩
  · rintro ⟨u, v, rfl⟩
    exact ⟨u, _, rfl, v, by simp, v, [], by simp, rfl⟩

theorem globMatches_start (hd : IsLiteral d) : globMatches (d ++ "/**") t = true ↔ ∃ v, t = d ++ '/' :: v := by
  have hparts : globParts (d ++ "/**") = (d ++ ['/']).map .exactly ++ [.any] := by
    have h := globParts_append "**" hd.slashed.1
    simpa [globParts] using h
  simp only [globMatches, hparts, GlobPart.fit_any, GlobPart.fit_exactly]
  constructor
  · rintro ⟨w, rfl, -⟩
    exact ⟨w, by simp⟩
  · rintro ⟨v, rfl⟩
    exact ⟨v, by simp, v, [], by simp, rfl⟩

theorem matchesPattern_directory (hd : IsLiteral d) : matchesPattern (directoryPattern d) t = true ↔
    (∃ u v, t = u ++ '/' :: (d ++ '/' :: v)) ∨ ∃ v, t = d ++ '/' :: v := by
  have hrest : Text.after? "**/" (directoryPattern d) = some (d ++ "/**") := Text.after?_eq_some.2 rfl
  rw [matchesPattern, hrest, Bool.or_eq_true, globMatches_directory hd, globMatches_start hd]

end Settings

/-! ## Paths -/

namespace Project.Path

theorem text_ofText {p} (hp : p.head? ≠ some '/') :
    (ofText p).text = if partsOf p = [] then ['.'] else Text.join ['/'] (partsOf p) := by
  have hroot : rootOf p = [] := by
    unfold rootOf
    split <;> simp_all
  simp only [text, ofText, hroot, isEmpty_nil, Bool.true_and, List.isEmpty_iff]
  rfl

theorem pieces_text {p} (hp : p.head? ≠ some '/') (hne : partsOf p ≠ []) :
    Text.pieces '/' (ofText p).text = partsOf p := by
  rw [text_ofText hp, if_neg hne, Text.pieces_eq_splitOn, Text.join]
  refine splitOn_intercalate _ (fun part hpart hslash => ?_) hne
  exact (Text.mem_of_mem_pieces hslash (mem_filter.1 hpart).1).2 rfl

/-- A path passes through the directories of its text that stand between slashes, or before the first one. -/
theorem mem_dropLast_partsOf {d p} (hp : p.head? ≠ some '/') (hd : '/' ∉ d) : d ∈ (partsOf p).dropLast ↔
    (∃ u v, (ofText p).text = u ++ '/' :: (d ++ '/' :: v)) ∨ ∃ v, (ofText p).text = d ++ '/' :: v := by
  by_cases hne : partsOf p = []
  · simp only [text_ofText hp, hne, if_true, dropLast_nil, not_mem_nil, false_iff, not_or, not_exists]
    exact ⟨fun u v h => absurd (h ▸ mem_append_right u mem_cons_self) (by decide : '/' ∉ ['.']),
      fun v h => absurd (h ▸ mem_append_right d mem_cons_self) (by decide : '/' ∉ ['.'])⟩
  · constructor
    · intro hmem
      obtain ⟨l₁, l₂, heq⟩ := mem_iff_append.1 hmem
      obtain ⟨last, hsplit⟩ : ∃ last, partsOf p = l₁ ++ d :: (l₂ ++ [last]) := by
        have hlast := dropLast_concat_getLast hne
        rw [heq] at hlast
        exact ⟨_, by simpa using hlast.symm⟩
      rw [text_ofText hp, if_neg hne, hsplit]
      by_cases hl : l₁ = []
      · refine .inr ⟨Text.join ['/'] (l₂ ++ [last]), ?_⟩
        rw [hl, nil_append, Text.join_cons _ _ (by simp)]
        rfl
      · refine .inl ⟨Text.join ['/'] l₁, Text.join ['/'] (l₂ ++ [last]), ?_⟩
        rw [Text.join_append _ hl (by simp), Text.join_cons _ _ (by simp)]
        rfl
    · have hparts := pieces_text hp hne
      rw [Text.pieces_eq_splitOn] at hparts
      rintro (⟨u, v, heq⟩ | ⟨v, heq⟩)
      · rw [← hparts, heq, splitOn_append_cons_self, splitOn_append_cons_self, splitOn_eq_singleton hd]
        rw [singleton_append, dropLast_append_cons, dropLast_cons_of_ne_nil (splitOn_ne_nil _ _)]
        simp
      · rw [← hparts, heq, splitOn_append_cons_self, splitOn_eq_singleton hd, singleton_append,
          dropLast_cons_of_ne_nil (splitOn_ne_nil _ _)]
        simp

end Project.Path

namespace Settings

/-- A path is left alone by the pattern for a directory exactly if one of its parts but the last is that directory, and
by a list of patterns exactly if it is by one of them. -/
theorem ignores_directory_iff {d p : Text} (hd : IsLiteral d) (hslash : '/' ∉ d) (hp : p.head? ≠ some '/')
    (s : Settings) :
    ({ s with ignored := [directoryPattern d] }.ignores (.ofText p) = true ↔ d ∈ (Project.Path.partsOf p).dropLast) ∧
    ∀ path, s.ignores path = true ↔ ∃ pattern ∈ s.ignored, { s with ignored := [pattern] }.ignores path = true := by
  refine ⟨?_, fun path => by simp [ignores]⟩
  rw [ignores, any_cons, any_nil, Bool.or_false, matchesPattern_directory hd,
    Project.Path.mem_dropLast_partsOf hp hslash]

theorem ignores_directory_test : { ({} : Settings) with ignored := [directoryPattern "test"] }.ignores
    (.ofText "./a/mytest//test/T.java") = true :=
  (ignores_directory_iff (by simp [IsLiteral]) (by decide) (by decide) {}).1.2 (by decide)

end Settings

end Rebind
