/-
Edits that leave the brackets of a text in pairs.

An edit fits into a text if it starts and ends between lexemes, and writes code that keeps its lexemes where it comes to
stand and opens and closes what the code in its place did (`Edit.Fits`).
-/
import Rebind.Proofs.Edit.Origin
import Rebind.Proofs.Java.Balance

namespace Rebind.Edit

open Java Text Option List

/-- The edit can be made without an effect on the code around it. -/
structure Fits (t : Text) (e : Edit) : Prop where
  start : Boundary t e.start
  stop : Boundary t e.stop
  inside : e.start < t.length
  turns : ∀ owed owed', owedAt (mask t) e.start = some owed → owedAt (mask t) e.stop = some owed' →
    Turns owed e.text owed'
  meets : ∀ l, (lexemes (t.take e.start)).getLast? = some l → ∀ v, l.Meets (e.text ++ v).head?

variable {t : Text}

theorem owedAfter_assemble (hwell : WellBracketed (mask t)) : ∀ {es cursor owed},
    InOrder t es → (∀ e ∈ es, cursor ≤ e.start) → (∀ e ∈ es, e.Fits t) → Boundary t cursor →
    owedAt (mask t) cursor = some owed → owedAfter owed (mask (Draft.assemble t cursor es)) = some []
  | [], cursor, owed, _, _, _, hcursor, howed => by
    have hall : owedAfter [] (mask t) = some [] := hwell
    rw [← take_append_drop cursor (mask t), owedAfter_append] at hall
    rw [owedAt] at howed
    rw [howed, bind_some] at hall
    rw [Draft.assemble, ← hcursor.drop_mask]
    exact hall
  | e :: es, cursor, owed, horder, hle, hfits, hcursor, howed => by
    have hfit := hfits e (by simp)
    have hce := hle e (by simp)
    have hforward := horder.forward e (by simp)
    have hmax : max cursor e.stop = e.stop := by omega
    obtain ⟨owed', howed'⟩ := exists_owedAt hwell e.start
    obtain ⟨owed'', howed''⟩ := exists_owedAt hwell e.stop
    have hrest : owedAfter owed'' (mask (Draft.assemble t e.stop es)) = some [] := by
      refine owedAfter_assemble hwell horder.tail ?_ (forall_mem_cons.1 hfits).2 hfit.stop howed''
      intro f hf
      exact (pairwise_cons.1 horder.apart).1 f hf
    have hturns := hfit.turns owed' owed'' howed' howed''
    have hjoins : Joins (slice t cursor e.start) (e.text ++ Draft.assemble t e.stop es) := by
      refine hcursor.joins_slice hfit.start hce ?_ fun l hl => hfit.meets l hl _
      intro hlength
      have := hfit.inside
      omega
    have hslice : owedAfter owed (slice (mask t) cursor e.start) = some owed' := by
      rw [owedAt_slice hce, howed, bind_some] at howed'
      exact howed'
    rw [Draft.assemble, hmax, append_assoc, hjoins.mask_append, hcursor.mask_slice hfit.start,
      (hturns.whole _).mask_append, owedAfter_append, hslice, bind_some, owedAfter_append,
      hturns.owedAfter_eq, bind_some, hrest]

/-- Edits that fit leave brackets in pairs. -/
theorem wellBracketed_of_fits {d} (hd : d.Orderly) {kept} (hresolved : Draft.Resolved d kept)
    (hwell : WellBracketed (mask d.text)) (hfits : ∀ e ∈ d.effective kept, e.Fits d.text) :
    WellBracketed (mask ((origins d.text (d.effective kept)).map Prod.fst)) := by
  have horder := Draft.inOrder_effective hd hresolved
  have hassemble := @assemble_eq_originsFrom d.text _ 0 horder (by simp) (Nat.zero_le _)
  rw [originsFrom_congr (fun i _ => Draft.originsAt_mergeSort d.text (d.effective kept) i)] at hassemble
  rw [origins, ← hassemble]
  refine owedAfter_assemble hwell horder (by simp) (fun e he => hfits e (mem_mergeSort.1 he))
    (boundary_zero _) ?_
  simp [owedAt, owedAfter]

end Rebind.Edit
