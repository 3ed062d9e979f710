/-
The order of names: texts are compared by characters, and lists of names by names.
-/
import Rebind.Project.Tree

namespace Rebind

open List Bool

/-- A comparison that orders different values; equal ones it may compare either way. -/
structure Orders {α : Type} (r : α → α → Bool) : Prop where
  trans : ∀ a b c, r a b = true → r b c = true → r a c = true
  total : ∀ a b, a ≠ b → (r a b || r b a) = true
  antisymm : ∀ a b, r a b = true → r b a = true → a = b

/-- Lists compared by their first difference; a list comes before its extensions. -/
def lexLe {α : Type} [DecidableEq α] (r : α → α → Bool) : List α → List α → Bool
  | [], _ => true
  | _ :: _, [] => false
  | a :: as, b :: bs => if a == b then lexLe r as bs else r a b

namespace Orders

variable {α : Type} [DecidableEq α] {r : α → α → Bool} (h : Orders r)

include h

theorem lexLe_trans : ∀ (a b c : List α), lexLe r a b = true → lexLe r b c = true → lexLe r a c = true
  | [], _, _, _, _ => by simp [lexLe]
  | _ :: _, [], _, hab, _ => by simp [lexLe] at hab
  | _ :: _, _ :: _, [], _, hbc => by simp [lexLe] at hbc
  | x :: a, y :: b, z :: c, hab, hbc => by
    simp only [lexLe] at hab hbc ⊢
    by_cases hxy : x = y
    · subst hxy
      by_cases hxz : x = z
      · subst hxz
        simp only [beq_self_eq_true, if_true] at hab hbc ⊢
        exact lexLe_trans a b c hab hbc
      · simpa [hxz] using hbc
    · by_cases hyz : y = z
      · subst hyz
        simpa [hxy] using hab
      · simp only [beq_eq_false_iff_ne.2 hxy, beq_eq_false_iff_ne.2 hyz, false_eq_true, if_false] at hab hbc
        have hxz : x ≠ z := by
          rintro rfl
          exact hxy (h.antisymm x y hab hbc)
        simp only [beq_eq_false_iff_ne.2 hxz, false_eq_true, if_false]
        exact h.trans x y z hab hbc

theorem lexLe_total : ∀ (a b : List α), (lexLe r a b || lexLe r b a) = true
  | [], _ | _ :: _, [] => by simp [lexLe]
  | x :: a, y :: b => by
    by_cases hxy : x = y
    · subst hxy
      simpa [lexLe] using lexLe_total a b
    · simpa only [lexLe, beq_eq_false_iff_ne.2 hxy, beq_eq_false_iff_ne.2 (Ne.symm hxy), false_eq_true,
        if_false] using h.total x y hxy

theorem lexLe_antisymm : ∀ (a b : List α), lexLe r a b = true → lexLe r b a = true → a = b
  | [], [], _, _ => rfl
  | [], _ :: _, _, hba => by simp [lexLe] at hba
  | _ :: _, [], hab, _ => by simp [lexLe] at hab
  | x :: a, y :: b, hab, hba => by
    by_cases hxy : x = y
    · subst hxy
      simp only [lexLe, beq_self_eq_true, if_true] at hab hba
      rw [lexLe_antisymm a b hab hba]
    · simp only [lexLe, beq_eq_false_iff_ne.2 hxy, beq_eq_false_iff_ne.2 (Ne.symm hxy), false_eq_true,
        if_false] at hab hba
      exact absurd (h.antisymm x y hab hba) hxy

theorem orders_lexLe : Orders (lexLe r) :=
  ⟨h.lexLe_trans, fun a b _ => h.lexLe_total a b, h.lexLe_antisymm⟩

end Orders

theorem Text.le_eq_lexLe : ∀ a b : Text, Text.le a b = lexLe (fun x y => decide (x.toNat < y.toNat)) a b
  | [], _ | _ :: _, [] => rfl
  | x :: a, y :: b => by rw [Text.le, lexLe, le_eq_lexLe a b]

theorem Text.orders_le : Orders Text.le := by
  have hchars : Orders fun x y : Char => decide (x.toNat < y.toNat) := by
    refine ⟨fun a b c => ?_, fun a b hne => ?_, fun a b => ?_⟩ <;> simp only [decide_eq_true_eq, or_eq_true]
    · exact Nat.lt_trans
    · exact Nat.lt_or_gt_of_ne fun heq => hne (Char.toNat_inj.1 heq)
    · intro hab hba
      omega
  rw [funext fun a => funext (Text.le_eq_lexLe a)]
  exact hchars.orders_lexLe

theorem Text.le_refl : ∀ a : Text, Text.le a a = true
  | [] => rfl
  | c :: a => by simp [Text.le, le_refl a]

namespace Project

theorem namesLe_eq_lexLe : ∀ a b : List Text, namesLe a b = lexLe Text.le a b
  | [], _ | _ :: _, [] => rfl
  | x :: a, y :: b => by
    simp only [namesLe, lexLe, namesLe_eq_lexLe a b, beq_iff_eq]

end Project

end Rebind
