/-
The order of recording.

Edits with different bounds give the same text, or the same conflict, in whatever order they are recorded
(`apply_perm`). Removals of separate spans that start and end with no blank stay separate when they are widened
(`removals_apart`).
-/
import Rebind.Proofs.Edit.Removal
import Rebind.Proofs.Edit.Scan

namespace Rebind.Edit

open Text List
open Java (Span)

/-- The edit that a call asks for. -/
def Call.edit (t : Text) : Call → Edit
  | insert pos text => ⟨pos, pos, text⟩
  | delete start stop => ⟨start, stop, []⟩
  | replace start stop text => ⟨start, stop, text⟩
  | remove start stop => ⟨(removalSpan t start stop).1, (removalSpan t start stop).2, []⟩

namespace Draft

theorem record_eq (t : Text) (c : Call) : ∃ recorded : Bool, ∀ d : Draft, d.text = t →
    (d.record c).toOption.getD d = if recorded then { d with edits := d.edits ++ [c.edit t] } else d := by
  have hreplace (start stop : Nat) (u : Text) : ∀ d : Draft, d.text = t → (d.replace start stop u).toOption.getD d =
      if !decide (stop < start ∨ t.length < stop) then { d with edits := d.edits ++ [⟨start, stop, u⟩] } else d := by
    rintro d rfl
    by_cases h : stop < start ∨ d.text.length < stop <;> simp [replace, h, Except.toOption]
  have hdelete (start stop : Nat) : ∃ recorded : Bool, ∀ d : Draft, d.text = t →
      (d.delete start stop).toOption.getD d =
        if recorded then { d with edits := d.edits ++ [⟨start, stop, []⟩] } else d := by
    by_cases h : start < stop
    · exact ⟨_, fun d hd => by rw [delete, if_pos h, hreplace _ _ _ d hd]⟩
    · exact ⟨false, fun d _ => by simp [delete, h, Except.toOption]⟩
  cases c with
  | insert pos u =>
    by_cases h : u.isEmpty = true
    · exact ⟨false, fun d _ => by simp [record, insert, h, Except.toOption]⟩
    · exact ⟨_, fun d hd => by rw [record, insert, if_neg h, hreplace _ _ _ d hd]; rfl⟩
  | delete start stop => exact hdelete start stop
  | replace start stop u => exact ⟨_, hreplace start stop u⟩
  | remove start stop =>
    obtain ⟨recorded, h⟩ := hdelete (removalSpan t start stop).1 (removalSpan t start stop).2
    refine ⟨recorded, ?_⟩
    rintro d rfl
    exact h d rfl

/-- What a call records depends on the call and the text alone. -/
theorem edits_recorded (t : Text) : ∃ p : Call → Bool, ∀ calls,
    recorded t calls = ⟨t, (calls.filter p).map (Call.edit t)⟩ := by
  choose p hp using record_eq t
  have run : ∀ (calls : List Call) (es : List Edit),
      calls.foldl (fun d c => (d.record c).toOption.getD d) (⟨t, es⟩ : Draft) =
        ⟨t, es ++ (calls.filter p).map (Call.edit t)⟩ := by
    intro calls
    induction calls with
    | nil => simp
    | cons c calls ih =>
      intro es
      rw [foldl_cons, hp c ⟨t, es⟩ rfl]
      cases hc : p c <;> simp [hc, ih]
  exact ⟨p, fun calls => run calls []⟩

/-! ## Edits with different bounds -/

section Reordered

variable {t : Text} {es fs : List Edit} (h : es.Perm fs) (hne : es.Pairwise fun a b => a.span ≠ b.span)

include h hne

theorem eq_of_span {a b} (ha : a ∈ es) (hb : b ∈ fs) (hspan : a.span = b.span) : a = b := by
  rcases eq_or_of_pairwise hne ha (h.mem_iff.2 hb) with heq | h' | h'
  · exact heq
  · exact absurd hspan h'
  · exact absurd hspan.symm h'

theorem resolve_perm : (⟨t, es⟩ : Draft).resolve = (⟨t, fs⟩ : Draft).resolve := by
  have hranges : (⟨t, es⟩ : Draft).ranges = (⟨t, fs⟩ : Draft).ranges := by
    have hperm : (⟨t, es⟩ : Draft).ranges.Perm (⟨t, fs⟩ : Draft).ranges :=
      ((mergeSort_perm _ _).trans (h.filter _)).trans (mergeSort_perm _ _).symm
    refine hperm.eq_of_pairwise (fun a b ha hb hab hba => ?_) (pairwise_ranges _) (pairwise_ranges _)
    simp only [ranges, mem_mergeSort, mem_filter] at ha hb
    refine eq_of_span h hne ha.1 hb.1 ?_
    simp only [Before] at hab hba
    simp only [span, Span.mk.injEq]
    omega
  rw [resolve, resolve, hranges]

theorem originsAt_perm (kept : List Edit) (pos : Nat) :
    originsAt t ((⟨t, es⟩ : Draft).effective kept) pos = originsAt t ((⟨t, fs⟩ : Draft).effective kept) pos := by
  have hperm : ((⟨t, es⟩ : Draft).insertionsOutside kept).Perm ((⟨t, fs⟩ : Draft).insertionsOutside kept) := h.filter _
  -- no two insertions stand at one offset, so there is nothing to reorder
  have hat : ((⟨t, es⟩ : Draft).insertionsOutside kept).filter (·.start = pos) =
      ((⟨t, fs⟩ : Draft).insertionsOutside kept).filter (·.start = pos) := by
    refine (hperm.filter _).eq_of_pairwise (fun a b ha hb _ _ => ?_)
      (pairwise_of_forall fun _ _ => trivial) (pairwise_of_forall fun _ _ => trivial)
    simp only [mem_filter, mem_insertionsOutside, decide_eq_true_eq] at ha hb
    obtain ⟨⟨ha, ha', -⟩, hapos⟩ := ha
    obtain ⟨⟨hb, hb', -⟩, hbpos⟩ := hb
    refine eq_of_span h hne ha hb ?_
    simp only [span, Span.mk.injEq]
    omega
  rw [originsAt, originsAt, effective, effective, filter_append, filter_append, hat, (hperm.append_right kept).any_eq]

theorem apply_eq_of_perm (hd : (⟨t, es⟩ : Draft).Orderly) : (⟨t, es⟩ : Draft).apply = (⟨t, fs⟩ : Draft).apply := by
  have hresolve := @resolve_perm t es fs h hne
  cases hr : (⟨t, es⟩ : Draft).resolve with
  | error why => rw [apply_eq_error_iff.2 hr, apply_eq_error_iff.2 (hresolve ▸ hr)]
  | ok kept =>
    have hd' : (⟨t, fs⟩ : Draft).Orderly := fun e he => hd e (h.mem_iff.2 he)
    rw [apply_eq_origins hd hr, apply_eq_origins hd' (hresolve ▸ hr)]
    have horigins := originsFrom_congr fun i (_ : 0 ≤ i) => @originsAt_perm t es fs h hne kept i
    rw [origins, origins, horigins]

end Reordered

/-- Recording calls with different bounds in another order changes neither the edited text nor the conflict. -/
theorem apply_perm (t : Text) {calls reordered : List Call} (h : calls.Perm reordered)
    (hne : calls.Pairwise fun a b => (a.edit t).span ≠ (b.edit t).span) :
    (recorded t calls).apply = (recorded t reordered).apply := by
  obtain ⟨p, hp⟩ := edits_recorded t
  have hd := orderly_recorded t calls
  rw [hp] at hd
  rw [hp, hp]
  refine apply_eq_of_perm ((h.filter p).map _) ?_ hd
  exact pairwise_map.2 (hne.sublist filter_sublist)

theorem apply_perm_overlaid :
    overlaid.Perm overlaid.reverse ∧ (overlaid.Pairwise fun a b => (a.edit "abcdefg").span ≠ (b.edit "abcdefg").span) ∧
    (recorded "abcdefg" overlaid).apply = (recorded "abcdefg" overlaid.reverse).apply := by
  have hne : overlaid.Pairwise fun a b => (a.edit "abcdefg").span ≠ (b.edit "abcdefg").span := by
    simp [overlaid, Call.edit, span]
  exact ⟨overlaid.reverse_perm.symm, hne, apply_perm "abcdefg" overlaid.reverse_perm.symm hne⟩

/-! ## Removals of separate spans -/

/-- Spans that start and end with no blank and do not overlap have removals that do not overlap, so both can be
made. -/
theorem removals_apart {t : Text} {s r : Span} (hs : Solid t s) (hr : Solid t r) (h : s.stop ≤ r.start) :
    (removed t s).stop ≤ (removed t r).start ∧
      ∃ out, (recorded t [.remove s.start s.stop, .remove r.start r.stop]).apply = .ok out := by
  have hapart := removed_stop_le_start hs hr h
  refine ⟨hapart, ?_⟩
  have hedit : ∀ e ∈ (recorded t [.remove s.start s.stop, .remove r.start r.stop]).edits,
      e.text = [] ∧ (e.span = removed t s ∨ e.span = removed t r) := by
    obtain ⟨p, hp⟩ := edits_recorded t
    intro e he
    rw [hp] at he
    obtain ⟨c, hc, rfl⟩ := mem_map.1 he
    have hc' := (mem_filter.1 hc).1
    simp only [mem_cons, not_mem_nil, or_false] at hc'
    rcases hc' with rfl | rfl
    · exact ⟨rfl, .inl rfl⟩
    · exact ⟨rfl, .inr rfl⟩
  have hd := orderly_recorded t [.remove s.start s.stop, .remove r.start r.stop]
  generalize recorded t [.remove s.start s.stop, .remove r.start r.stop] = d at hedit hd
  cases hresult : d.apply with
  | ok out => exact ⟨out, rfl⟩
  | error why =>
    obtain ⟨_, hconflict⟩ := (exists_error_iff_conflict hd).1 ⟨why, hresult⟩
    cases hconflict with
    | overlapping left right straddle =>
      obtain ⟨⟨ha, e, he, rfl⟩, -⟩ := left
      obtain ⟨⟨hb, f, hf, rfl⟩, -⟩ := right
      obtain ⟨h1, h2, h3⟩ := straddle
      rcases (hedit e he).2 with he' | he' <;> rcases (hedit f hf).2 with hf' | hf' <;>
        simp only [he', hf'] at ha hb h1 h2 h3 <;> omega
    | differing _ _ _ recorded _ text _ => exact absurd (hedit _ recorded).1 text

/-- Two statements with a blank line before, between and behind them. -/
def spaced : Text := "x\n\n a;\n\n b;\n\ny"

theorem removals_apart_spaced :
    removed spaced ⟨4, 6⟩ = ⟨3, 8⟩ ∧ removed spaced ⟨9, 11⟩ = ⟨8, 13⟩ ∧
    (removed spaced ⟨4, 6⟩).stop ≤ (removed spaced ⟨9, 11⟩).start ∧
    ∃ out, (recorded spaced [.remove 4 6, .remove 9 11]).apply = .ok out := by
  have ha : Solid spaced ⟨4, 6⟩ := ⟨by decide, ⟨'a', by decide⟩, ⟨';', by decide⟩⟩
  have hb : Solid spaced ⟨9, 11⟩ := ⟨by decide, ⟨'b', by decide⟩, ⟨';', by decide⟩⟩
  exact ⟨by decide, by decide, removals_apart ha hb (by decide)⟩

end Draft

end Rebind.Edit
