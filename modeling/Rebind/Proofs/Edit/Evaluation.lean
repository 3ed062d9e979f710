/-
Edits that can be applied by evaluation.

The logic does not evaluate the sort that `apply` uses; `applied` sorts by insertion.
-/
import Rebind.Proofs.Edit.Origin

namespace Rebind.Edit

open Text List

section Sorting

variable {α : Type} {le : α → α → Bool}

/-- Puts a member in front of the first one that it may stand before. -/
def insertSorted (le : α → α → Bool) (a : α) (l : List α) : List α :=
  l.takeWhile (!le a ·) ++ a :: l.dropWhile (!le a ·)

/-- A sort by insertion gives the same list as long as the order is total and transitive. -/
theorem mergeSort_eq_foldr (htrans : ∀ a b c, le a b = true → le b c = true → le a c = true)
    (htotal : ∀ a b, (le a b || le b a) = true) : ∀ l : List α, l.mergeSort le = l.foldr (insertSorted le) []
  | [] => mergeSort_nil
  | a :: l => by
    obtain ⟨front, back, heq, hrest, hfront⟩ := mergeSort_cons htrans htotal a l
    have hsorted := pairwise_mergeSort htrans htotal (a :: l)
    rw [heq] at hsorted
    have hback := (pairwise_cons.1 (pairwise_append.1 hsorted).2.1).1
    rw [heq, foldr_cons, ← mergeSort_eq_foldr htrans htotal l, hrest, insertSorted,
      takeWhile_append_of_pos hfront, dropWhile_append_of_pos hfront]
    cases back with
    | nil => simp
    | cons b back => simp [hback b]

end Sorting

namespace Draft

/-- The ranges that take effect. -/
def keptRanges (d : Draft) : Except EditError (List Edit) :=
  keepOuter none ((d.edits.filter fun e => !e.isInsertion).foldr (insertSorted before) [])

theorem resolve_eq_keptRanges (d : Draft) : d.resolve = d.keptRanges :=
  congrArg (keepOuter none) (mergeSort_eq_foldr before_trans before_total _)

def applied (d : Draft) : Except EditError Text := do
  let kept ← d.keptRanges
  return assemble d.text 0 ((d.insertionsOutside kept ++ kept).foldr (insertSorted startsBy) [])

theorem apply_eq_applied (d : Draft) : d.apply = d.applied := by
  have hsort : ∀ es : List Edit, es.mergeSort startsBy = es.foldr (insertSorted startsBy) [] :=
    mergeSort_eq_foldr startsBy_trans startsBy_total
  rw [apply, resolve_eq_keptRanges, applied]
  exact congrArg _ (funext fun kept => congrArg (fun es => pure (assemble d.text 0 es)) (hsort _))

end Draft

end Rebind.Edit
