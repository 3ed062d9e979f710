/-
Recorded edits that lie inside wider ones, and the edits that cannot be applied: a draft is refused exactly if its
outermost ranges conflict (`apply_error_iff_conflict`).
-/
import Rebind.Proofs.Edit.Origin

namespace Rebind.Edit

open List

open Java (Span)

variable {d d' : Draft} {e : Edit} {s : Span}

inductive Call where
  | insert (pos : Nat) (text : Text)
  | delete (start stop : Nat)
  | replace (start stop : Nat) (text : Text)
  | remove (start stop : Nat)

namespace Draft

def record (d : Draft) : Call → Except EditError Draft
  | .insert pos text => d.insert pos text
  | .delete start stop => d.delete start stop
  | .replace start stop text => d.replace start stop text
  | .remove start stop => d.remove start stop

/-- The draft after calls one after the other; a call that fails records nothing. -/
def recorded (t : Text) (calls : List Call) : Draft :=
  calls.foldl (fun d c => (d.record c).toOption.getD d) (ofText t)

/-! ## What is recorded lies in the text -/

theorem Orderly.delete {start stop} (hd : d.Orderly) (h : d.delete start stop = .ok d') : d'.Orderly := by
  unfold Draft.delete at h
  split at h
  · exact hd.replace h
  · cases h
    exact hd

theorem Orderly.record {c} (hd : d.Orderly) (h : d.record c = .ok d') : d'.Orderly := by
  cases c with
  | insert pos text =>
    simp only [Draft.record, Draft.insert] at h
    split at h
    · cases h
      exact hd
    · exact hd.replace h
  | delete start stop => exact hd.delete h
  | replace start stop text => exact hd.replace h
  | remove start stop => exact hd.delete h

theorem orderly_foldl_record (calls : List Call) (hd : d.Orderly) :
    (calls.foldl (fun d c => (d.record c).toOption.getD d) d).Orderly := by
  induction calls generalizing d with
  | nil => exact hd
  | cons c calls ih =>
    rw [foldl_cons]
    cases h : d.record c with
    | error why => exact ih hd
    | ok d' => exact ih (hd.record h)

/-- All that a draft records lies in its text. -/
theorem orderly_recorded (t : Text) (calls : List Call) : (recorded t calls).Orderly := by
  refine orderly_foldl_record calls ?_
  intro e he
  simp [ofText] at he

/-! ## Buried edits -/

/-- The edit lies inside a wider recorded range, and an insertion not at an end of it. -/
def Buried (d : Draft) (e : Edit) : Prop :=
  ∃ w ∈ d.edits, e.span.Inside w.span ∧ w.span ≠ e.span ∧
    (e.start = e.stop → w.start < e.start ∧ e.start < w.stop)

/-- The draft with the recorded edits that pass a test. -/
def only (d : Draft) (p : Edit → Bool) : Draft := { d with edits := d.edits.filter p }

theorem mem_only {p} : e ∈ (d.only p).edits ↔ e ∈ d.edits ∧ p e = true := mem_filter

theorem Orderly.only (hd : d.Orderly) (p : Edit → Bool) : (d.only p).Orderly := fun e he => hd e (mem_only.1 he).1

theorem not_buried_of_outermost (he : Span.Outermost d.Takes e.span) : ¬ d.Buried e := by
  rintro ⟨w, hw, hin, hne, -⟩
  obtain ⟨-, hlt, hout⟩ := he
  have hwide : w.start < w.stop := by
    obtain ⟨h1, h2⟩ := hin
    simp only [span_start, span_stop] at h1 h2 hlt
    omega
  exact hne (hout w.span ⟨hwide, w, hw, rfl⟩ hin)

theorem exists_outermost (hd : d.Orderly) (hs : d.Takes s) : ∃ o, Span.Outermost d.Takes o ∧ s.Inside o := by
  -- a wider range is longer, and none is longer than the text
  induction h : d.text.length - (s.stop - s.start) using Nat.strongRecOn generalizing s with
  | ind n ih =>
    by_cases hwider : ∃ r, d.Takes r ∧ s.Inside r ∧ r ≠ s
    · obtain ⟨r, hr, hin, hne⟩ := hwider
      have hlen : r.stop ≤ d.text.length := by
        obtain ⟨-, e, he, rfl⟩ := hr
        exact (hd e he).2
      have hlonger : s.stop - s.start < r.stop - r.start := by
        have hbounds : ¬ (r.start = s.start ∧ r.stop = s.stop) := fun h' =>
          hne (by cases r; cases s; simp_all)
        obtain ⟨h1, h2⟩ := hin
        have h3 := hs.1
        omega
      obtain ⟨o, ho, hro⟩ := ih _ (by omega) hr rfl
      exact ⟨o, ho, hin.trans hro⟩
    · refine ⟨s, ⟨hs, hs.1, fun r hr hin => ?_⟩, Nat.le_refl _, Nat.le_refl _⟩
      exact Classical.byContradiction fun hne => hwider ⟨r, hr, hin, hne⟩

section Only

variable {d : Draft} {p : Edit → Bool} (hp : ∀ e ∈ d.edits, p e = false → d.Buried e)

theorem takes_of_only (h : (d.only p).Takes s) : d.Takes s := by
  obtain ⟨hs, e, he, rfl⟩ := h
  exact ⟨hs, e, (mem_only.1 he).1, rfl⟩

include hp

theorem passes_of_outermost (he : e ∈ d.edits) (hout : Span.Outermost d.Takes e.span) : p e = true := by
  cases h : p e with
  | true => rfl
  | false => exact absurd (hp e he h) (not_buried_of_outermost hout)

theorem outermost_only_iff (hd : d.Orderly) : Span.Outermost (d.only p).Takes s ↔ Span.Outermost d.Takes s := by
  have takes : ∀ {o}, Span.Outermost d.Takes o → (d.only p).Takes o := by
    rintro _ ⟨⟨hlt, e, he, rfl⟩, hout⟩
    exact ⟨hlt, e, mem_only.2 ⟨he, passes_of_outermost hp he ⟨⟨hlt, e, he, rfl⟩, hout⟩⟩, rfl⟩
  constructor
  · rintro ⟨hs, hlt, hout⟩
    refine ⟨takes_of_only hs, hlt, fun r hr hin => ?_⟩
    obtain ⟨o, ho, hro⟩ := exists_outermost hd hr
    obtain rfl := hout o (takes ho) (hin.trans hro)
    cases r
    cases o
    obtain ⟨h1, h2⟩ := hin
    obtain ⟨h3, h4⟩ := hro
    simp_all only [Span.mk.injEq]
    omega
  · intro hs
    exact ⟨takes hs, hs.2.1, fun r hr hin => hs.2.2 r (takes_of_only hr) hin⟩

theorem find?_only (hs : Span.Outermost d.Takes s) :
    (d.only p).edits.find? (·.span = s) = d.edits.find? (·.span = s) := by
  rw [← head?_filter, ← head?_filter, only, filter_filter]
  congr 1
  refine filter_congr fun e he => ?_
  by_cases hspan : e.span = s
  · subst hspan
    simp [passes_of_outermost hp he hs]
  · simp [hspan]

/-- Taking edits inside wider ranges out of a draft changes neither its outermost ranges nor what was first recorded for
them. -/
theorem conflict_only_iff (hd : d.Orderly) {why} : (d.only p).Conflict why ↔ d.Conflict why := by
  constructor
  · rintro (⟨ha, hb, hab⟩ | ⟨hs, hf, hf1, he, hes, he1, hef⟩)
    · exact .overlapping ((outermost_only_iff hp hd).1 ha) ((outermost_only_iff hp hd).1 hb) hab
    · have hs' := (outermost_only_iff hp hd).1 hs
      exact .differing hs' (find?_only hp hs' ▸ hf) hf1 (mem_only.1 he).1 hes he1 hef
  · rintro (⟨ha, hb, hab⟩ | ⟨hs, hf, hf1, he, hes, he1, hef⟩)
    · exact .overlapping ((outermost_only_iff hp hd).2 ha) ((outermost_only_iff hp hd).2 hb) hab
    · have hs' := (outermost_only_iff hp hd).2 hs
      have hpass := passes_of_outermost hp he (hes ▸ hs)
      exact .differing hs' ((find?_only hp hs).trans hf) hf1 (mem_only.2 ⟨he, hpass⟩) hes he1 hef

end Only

/-! ## Refusal -/

theorem exists_error_iff_conflict (hd : d.Orderly) : (∃ why, d.apply = .error why) ↔ ∃ why, d.Conflict why := by
  simp only [apply_eq_error_iff]
  rw [resolve_isError_iff hd, exists_conflict_iff]

/-- Recorded edits cannot be applied exactly if two outermost ranges straddle, or an outermost one was first
recorded with a text and later with another. What is reported is such a conflict, in all other cases there is an
edited text, and ranges inside a wider one, however they overlap, have no part in it. -/
theorem apply_error_iff_conflict (t : Text) (calls : List Call) :
    ((∃ why, (recorded t calls).apply = .error why) ↔ ∃ why, (recorded t calls).Conflict why) ∧
    (∀ why, (recorded t calls).apply = .error why → (recorded t calls).Conflict why) ∧
    ((¬ ∃ why, (recorded t calls).Conflict why) → ∃ out, (recorded t calls).apply = .ok out) ∧
    ∀ p : Edit → Bool, (∀ e ∈ (recorded t calls).edits, p e = false → (recorded t calls).Buried e) →
      ((∃ why, ((recorded t calls).only p).apply = .error why) ↔ ∃ why, (recorded t calls).apply = .error why) := by
  have hd := orderly_recorded t calls
  generalize recorded t calls = d at hd
  refine ⟨exists_error_iff_conflict hd, fun why h => ?_, fun hnone => ?_, fun p hp => ?_⟩
  · exact conflict_of_resolve hd (apply_eq_error_iff.1 h)
  · cases h : d.apply with
    | ok out => exact ⟨out, rfl⟩
    | error why => exact absurd ((exists_error_iff_conflict hd).1 ⟨why, h⟩) hnone
  · rw [exists_error_iff_conflict (hd.only p), exists_error_iff_conflict hd]
    simp only [conflict_only_iff hp hd]

end Draft

end Rebind.Edit
