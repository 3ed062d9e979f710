/-
Computations that may fail, taken apart: what it means for one, and for a sequence of
two, to succeed.
-/
import Rebind.Text.Basic

namespace Rebind

variable {ε α β : Type}

theorem bind_eq_ok {x} {f : α → Except ε β} {b} : x >>= f = .ok b ↔ ∃ a, x = .ok a ∧ f a = .ok b := by
  cases x with
  | error e | ok a => simp [bind, Except.bind]

@[simp] theorem pure_eq_ok {a b} : (pure a : Except ε α) = .ok b ↔ a = b := by
  simp [pure, Except.pure]

theorem bind_pure_eq_ok {x : Except ε α} {f : α → β} {b} :
    (do let a ← x; pure (f a)) = .ok b ↔ ∃ a, x = .ok a ∧ f a = b := by
  simp only [bind_eq_ok, pure_eq_ok]

theorem toOption_eq_some {x : Except ε α} {a} : x.toOption = some a ↔ x = .ok a := by
  cases x with
  | error e | ok b => simp [Except.toOption]

end Rebind
