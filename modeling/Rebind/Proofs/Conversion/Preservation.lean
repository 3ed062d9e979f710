/-
A conversion loses no code besides what it changes.

Every range that takes effect is that of a change. So the characters that are no blanks and stand outside of all changes
are in the converted text, in their order (`convert_keeps_code`).
-/
import Rebind.Proofs.Conversion.Outcome

namespace Rebind.Conversion

open Edit Java Text

variable {options : Options} {unit : CompilationUnit}

/-- Removals are widened, but only over blanks. -/
theorem Change.span_covers_of_range {c : Change} (hunit : unit.Placed)
    (hc : ∀ s, c = .removal s → Marked unit.masked s) {i d} (hd : unit.text[i]? = some d)
    (hblank : isBlank d = false) (hi : (c.range unit.text).covers i = true) : c.span.covers i = true := by
  cases c with
  | content s | use s id => exact hi
  | removal s =>
    have hstop : s.stop ≤ unit.text.length := by
      have := (hc s rfl).1
      rwa [hunit.masked_eq, length_mask] at this
    obtain ⟨-, -, -, hfront, hback⟩ := removalSpan_spec (s := s.start) hstop
    rw [Span.covers_iff] at hi ⊢
    refine ⟨?_, ?_⟩
    · apply Classical.byContradiction
      intro hlt
      have := hfront i d hi.1 (Nat.lt_of_not_le hlt) hd
      simp [hblank] at this
    · apply Classical.byContradiction
      intro hge
      have := hback i d (Nat.le_of_not_lt hge) hi.2 hd
      simp [hblank] at this

theorem Applied.exists_change {layouts : Keyed Text Bytes} {text out draft kept}
    (h : Applied options layouts text out unit draft kept) :
    unit.text = text ∧ unit.Placed ∧ ∃ cs, fileChanges options unit = .ok cs ∧
      ∀ k ∈ kept, ∃ c ∈ cs, c.range text = k.span ∧ ∀ s, c = .removal s → Marked unit.masked s := by
  obtain ⟨rfl, hunit, hresolved, rs, imports, hrecord⟩ := h.record
  refine ⟨rfl, hunit, _, hrecord.changes, fun k hk => ?_⟩
  obtain ⟨hmem, hlt⟩ := hresolved.recorded hk
  rcases (hrecord.mem_edits_iff hlt).1 hmem with ⟨r, hr, c, hc, rfl⟩ | ⟨c, hc, rfl⟩
  · refine ⟨c, (hrecord.mem_changes_iff hrecord.changes).2 (.inl ⟨r, hr, hc⟩), rfl, ?_⟩
    rintro s rfl
    exact hrecord.placed hunit hr hc
  · refine ⟨c, (hrecord.mem_changes_iff hrecord.changes).2 (.inr hc), rfl, ?_⟩
    obtain ⟨s, rfl, hmarked⟩ := marked_importChanges hunit (hrecord.obsolete c hc)
    intro s' heq
    rwa [← Change.removal.inj heq]

/-- The characters that are no blanks and stand in no change are kept, in their order. -/
theorem convert_keeps_code {layouts : Keyed Text Bytes} {text : Text} {out : Outcome}
    (h : convert options layouts text = .ok out) :
    ∃ unit changes, Java.readUnit text = .ok unit ∧ fileChanges options unit = .ok changes ∧
      (Edit.pick (fun i c => !isBlank c && !changes.any (·.span.covers i)) text).Sublist out.text := by
  obtain ⟨unit, draft, kept, happlied⟩ := applied_of_convert h
  obtain ⟨rfl, hunit, cs, hcs, hkept⟩ := happlied.exists_change
  refine ⟨unit, cs, happlied.read, hcs, ?_⟩
  rw [happlied.text_eq]
  refine Edit.pick_sublist_origins fun i d hd hpick => ?_
  simp only [Bool.and_eq_true, Bool.not_eq_true', List.any_eq_false] at hpick
  rw [List.any_eq_false]
  intro e he hcovers
  rw [Edit.covers_iff] at hcovers
  rcases List.mem_append.1 he with he | he
  · have := (Edit.Draft.mem_insertionsOutside.1 he).2.1
    omega
  · obtain ⟨c, hc, hrange, hmarked⟩ := hkept e he
    refine hpick.2 c hc (Change.span_covers_of_range hunit hmarked hd hpick.1 ?_)
    rw [hrange]
    exact Span.covers_iff.2 hcovers

theorem convert_keeps_code_boundTitle :
    ∃ out unit changes, convert toBinding [] boundTitle = .ok out ∧
      Java.readUnit boundTitle = .ok unit ∧
      fileChanges toBinding unit = .ok changes ∧
      (Edit.pick (fun i c => !isBlank c && !changes.any (·.span.covers i)) boundTitle).Sublist out.text := by
  obtain ⟨out, hout, -⟩ := exists_convert_boundTitle
  obtain ⟨unit, changes, h⟩ := convert_keeps_code hout
  exact ⟨out, unit, changes, hout, h⟩

end Rebind.Conversion
