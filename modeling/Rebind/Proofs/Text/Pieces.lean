/-
Texts cut at a character.

The pieces are those of `List.splitOn`, so they are joined and taken apart by its lemmas.
-/
import Rebind.Text.Basic

namespace Rebind.Text

open List

theorem pieces_eq_splitOn (sep : Char) : ∀ t : Text, pieces sep t = t.splitOn sep
  | [] => rfl
  | c :: t => by
    rw [pieces, splitOn_cons_eq_if_modifyHead, pieces_eq_splitOn sep t]
    split
    · rfl
    · cases h : t.splitOn sep with
      | nil => exact absurd h (splitOn_ne_nil _ _)
      | cons p ps => rfl

theorem join_cons (sep p : Text) {parts} (h : parts ≠ []) :
    join sep (p :: parts) = p ++ (sep ++ join sep parts) := by
  rw [join, intercalate_cons_of_ne_nil h, append_assoc]
  rfl

theorem join_append (sep : Text) {ls ms} (hls : ls ≠ []) (hms : ms ≠ []) :
    join sep (ls ++ ms) = join sep ls ++ (sep ++ join sep ms) := by
  induction ls with
  | nil => exact absurd rfl hls
  | cons l ls ih =>
    cases ls with
    | nil =>
      rw [singleton_append, join_cons sep l hms]
      simp [join]
    | cons l' ls =>
      rw [cons_append, join_cons sep l (by simp), join_cons sep l (by simp), ih (by simp)]
      simp

/-- No piece holds the character that the text is cut at. -/
theorem mem_of_mem_pieces {sep c u} (hc : c ∈ u) : ∀ {t}, u ∈ pieces sep t → c ∈ t ∧ c ≠ sep
  | [], hu => by
    rw [mem_singleton.1 hu] at hc
    cases hc
  | d :: t, hu => by
    rw [pieces] at hu
    split at hu
    · rcases mem_cons.1 hu with rfl | hu
      · cases hc
      · exact (mem_of_mem_pieces hc hu).imp_left (mem_cons_of_mem d)
    · next hd =>
      have hd : d ≠ sep := by simpa using hd
      split at hu
      · rw [mem_singleton.1 hu, mem_singleton] at hc
        subst hc
        exact ⟨mem_cons_self, hd⟩
      · next p ps heq =>
        rcases mem_cons.1 hu with rfl | hu
        · rcases mem_cons.1 hc with rfl | hc
          · exact ⟨mem_cons_self, hd⟩
          · exact (mem_of_mem_pieces hc (heq ▸ mem_cons_self)).imp_left (mem_cons_of_mem d)
        · exact (mem_of_mem_pieces hc (heq ▸ mem_cons_of_mem p hu)).imp_left (mem_cons_of_mem d)

end Rebind.Text
