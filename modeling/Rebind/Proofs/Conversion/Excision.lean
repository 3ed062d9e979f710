/-
What a conversion takes out of a file leaves its brackets in pairs.

Annotations, calls and statements that are taken out close what they open; of declarations this is asked for
(`Separable`).
-/
import Rebind.Proofs.Conversion.Cuts
import Rebind.Proofs.Conversion.Levels
import Rebind.Proofs.Edit.Places

namespace Rebind.Conversion

open Edit Java Text List

variable {i : Nat} {c : Char} {masked text : Text} {s : Span}

/-- The declarations and statements of a class can be told from what stands around them: a declaration closes what it
opens, and no slash and no quote stands right in front of a statement that unbinds views. -/
structure Separable (masked : Text) (type : TypeDecl) : Prop where
  fields : ∀ f ∈ type.fields, SameLevel masked f.span.start f.span.stop
  unbinders : ∀ f ∈ type.fields, ∀ name ∈ f.names, ∀ m ∈ type.methods, ∀ b, m.body = some b →
    ∀ s ∈ unbinderStatements masked name b, Clear masked s.start

/-! ## Spans in the mask -/

theorem ne_newline_of_mask {t} (h : (mask t)[i]? = some c) (hc : isBlank c = false) : t[i]? ≠ some '\n' := by
  rw [getElem?_of_mask h hc]
  rintro ⟨⟩
  simp [isBlank_newline] at hc

theorem level_of_unbinderStatements {name b} (hwell : WellBracketed masked)
    (hname : ∀ c ∈ name, isWord c = true) (hb : b.opening ≤ b.closing) (hclosing : b.closing ≤ masked.length)
    (hs : s ∈ unbinderStatements masked name b) : SameLevel masked s.start s.stop := by
  obtain ⟨-, hle, -, _, _, htokens, hspelled⟩ := spelled_of_mem_unbinderStatements hb hclosing hs
  obtain ⟨owed, howed⟩ := exists_owedAt hwell s.start
  have hframe := owedAfter_above owed (htokens.wellBracketed hname)
  rw [SameLevel, owedAt_slice hle, howed, Option.bind_some, ← owedAfter_brackets,
    brackets_spaced hspelled.spaced, owedAfter_brackets]
  exact hframe.symm

/-- What comes first in front of an offset, blanks left out, is none of the characters that something else grows
together with. -/
theorem clear_of_dropBlanksEnd {j} (hij : i ≤ j) (hj : j ≤ masked.length)
    (h : (dropBlanksEnd (slice masked i j)).getLast? = some c) (hslash : c ≠ '/') (hquote : c ≠ '"') :
    Clear masked j := by
  have hsplit : slice masked i j = dropBlanksEnd (slice masked i j) ++
      ((slice masked i j).reverse.takeWhile isBlank).reverse := by
    rw [dropBlanksEnd, ← reverse_append, takeWhile_append_dropWhile, reverse_reverse]
  have hlast : (slice masked i j).getLast? = masked[j - 1]? := by
    have hne : slice masked i j ≠ [] := by
      intro hnil
      rw [hnil] at h
      simp [dropBlanksEnd] at h
    have hpos := length_pos_iff.2 hne
    rw [length_slice] at hpos
    rw [getLast?_eq_getElem?, getElem?_slice, length_slice, if_pos (by omega)]
    congr 1
    omega
  rw [hsplit, getLast?_append, h] at hlast
  cases hblanks : ((slice masked i j).reverse.takeWhile isBlank).reverse.getLast? with
  | none =>
    rw [hblanks] at hlast
    exact clear_of_last hlast.symm hslash hquote
  | some d =>
    rw [hblanks] at hlast
    have hd : isBlank d = true := all_eq_true.1 all_takeWhile d (mem_reverse.1 (mem_of_getLast? hblanks))
    refine clear_of_last hlast.symm ?_ ?_
    · rintro rfl
      revert hd
      decide
    · rintro rfl
      revert hd
      decide

/-! ## The changes of a class -/

section Plans

variable {text : Text} {plan : Plan} (h : plan.Placed text) (hclosed : BlocksClosed text)
  (hread : readUnit text = .ok plan.unit) (hwell : WellBracketed (mask text))

namespace Plan.Placed

include h hread hwell

theorem clear_annotation {a} (ha : a ∈ plan.bindings.annotations) :
    Clear (mask text) a.span.start ∧ SameLevel (mask text) a.span.start a.span.stop := by
  have hfrom := readFrom_of_readUnit hread _ h.type_mem
  have hat : annotationAt text (mask text) a.span.start = .ok a ∧ Clear (mask text) a.span.start := by
    rcases h.drawn.annotations a ha with ⟨f, hf, ha⟩ | ⟨m, hm, ha⟩
    · exact (hfrom.field hf).2 a ha
    · exact (hfrom.method hm).2 a ha
  exact ⟨hat.2, (annotationAt_level hat.1).2 hwell⟩

theorem clear_removal (hsep : Separable (mask text) plan.type) (hc : plan.Makes (.removal s)) :
    text[s.start]? ≠ some '\n' ∧ Clear (mask text) s.start ∧ SameLevel (mask text) s.start s.stop := by
  have hmasked : plan.unit.masked = mask text := by rw [h.unit.masked_eq, h.text_eq]
  have hbody := h.body
  have hfield : ∀ {f}, f ∈ plan.type.fields → text[f.span.start]? ≠ some '\n' ∧
      Clear (mask text) f.span.start ∧ SameLevel (mask text) f.span.start f.span.stop := by
    intro f hf
    obtain ⟨-, -, -, ⟨c, hc, hblank⟩, -⟩ := h.type.field hf
    rw [hmasked] at hc
    exact ⟨ne_newline_of_mask hc hblank, ((readFrom_of_readUnit hread _ h.type_mem).field hf).1, hsep.fields f hf⟩
  cases hc with
  | annotated ha =>
    have hsign := (h.annotation ha).at_sign
    rw [hmasked] at hsign
    exact ⟨ne_newline_of_mask hsign (by decide), h.clear_annotation hread hwell ha⟩
  | declaration hf => exact hfield (h.drawn.declarations _ _ hf).1
  | unbinder hf => exact hfield hf
  | @bindCall m b call cs _ _ hm hb hcall hcs hc =>
    obtain ⟨-, -, hlt, hclosing⟩ := h.type.methodBody hm hb
    rw [hmasked] at hbody hcall
    have hwithin := allMatches_spec hcall (by omega) (by omega)
    obtain ⟨closing, k, hpartner, hk, -, hsemicolon, ⟨c, hmem, hlast⟩, heq⟩ :=
      Plan.removal_of_mem_bindCallChanges hcs hc
    obtain rfl : _ = _ := Change.removal.inj heq
    rw [hmasked] at hpartner hk hsemicolon hlast
    obtain ⟨-, -, hlevel⟩ := level_call hwell hwithin (fun h => takes_callTo (callTo_bindCall? h)) hpartner
    obtain ⟨d, hd, hcode⟩ := codeAt_start hwithin fun h => (callTo_bindCall? h).1
    refine ⟨ne_newline_of_codeAt ⟨d, hd, hcode⟩, ?_, ?_⟩
    · have hstop := hwithin.stop_le
      have hstart := hwithin.start_le
      refine clear_of_dropBlanksEnd hwithin.le_start (by simp only; omega) hlast ?_ ?_
      · rintro rfl
        simp at hmem
      · rintro rfl
        simp at hmem
    · have hskip := level_skipBlanks (mask text) (closing + 1) b.closing
      have hsemi : SameLevel (mask text) k (k + 1) := by
        obtain ⟨owed, howed⟩ := exists_owedAt hwell k
        rw [SameLevel, owedAt_succ hsemicolon, howed, Option.bind_some]
        exact (owedStep_of_not_isBracket (by decide) owed).symm
      rw [hk] at hskip
      exact hlevel.trans (hskip.trans hsemi)
  | unbinderStatement _ hf hname hm hb hs =>
    obtain ⟨-, -, hlt, hclosing⟩ := h.type.methodBody hm hb
    rw [hmasked] at hs hbody
    have hplaced := (h.type.field hf).2.2.2.2
    obtain ⟨hstart, -⟩ := unbinderStatements_edges (isWord_of_mem_names hplaced hname) (by omega) (by omega) hs
    refine ⟨ne_newline_of_codeAt hstart, hsep.unbinders _ hf _ hname _ hm _ hb _ hs, ?_⟩
    exact level_of_unbinderStatements hwell (isWord_of_mem_names hplaced hname).2 (by omega) (by omega) hs

include hclosed

/-- Nothing in front of what is taken out could grow together with what follows, so each removal fits. -/
theorem fits_removal (hsep : Separable (mask text) plan.type) (hc : plan.Makes (.removal s)) :
    (⟨(removed text s).start, (removed text s).stop, []⟩ : Edit).Fits text := by
  obtain ⟨hne, hclear, hlevel⟩ := h.clear_removal hread hwell hsep hc
  have hmarked : Marked plan.unit.masked s := h.changes hc
  have hstop := hmarked.1
  rw [h.length_masked] at hstop
  exact fits_removed (h.uncut hclosed hread hc) hmarked.start_lt hstop hne hclear hlevel

omit hwell in
/-- Closed code that starts a name fits in the place of a use. -/
theorem fits_use {f us u} (hf : f ∈ plan.bindings.fields)
    (hus : plan.visibleUses f.name = .ok us) (hu : u ∈ us) {way d} (hway : way.head? = some d)
    (hd : isApart d = true) (hturns : Closed way) : (⟨u.start, u.stop, way⟩ : Edit).Fits text := by
  have huncut := h.uncut hclosed hread (.use hf hus hu)
  obtain ⟨name, hname, huse⟩ := h.use_placed hf hus hu
  have hmasked : plan.unit.masked = mask text := by rw [h.unit.masked_eq, h.text_eq]
  rw [hmasked] at huse
  obtain ⟨c, hc, hfirst⟩ := huse.first
  have hinside : u.start < text.length := by
    simpa using (List.getElem?_eq_some_iff.1 hc).1
  have hcode : isCode c = true := by
    rcases hfirst with rfl | hfirst
    · decide
    · exact isCode_of_isWord (hname c hfirst)
  have hlevel : SameLevel (mask text) u.start u.stop := by
    refine level_of_brackets_nil (Nat.le_of_lt huse.start_lt) (brackets_eq_nil fun e he => ?_)
    obtain ⟨k, hk, hk', hget⟩ := mem_slice.1 he
    rcases huse.chars k e hk hk' hget with hblank | hthis | hword
    · exact not_isBracket_of_isBlank hblank
    · have hall : ".this".toList.all (fun c => !isBracket c) = true := by decide
      simpa using all_eq_true.1 hall e hthis
    · exact not_isBracket_of_class (by decide +kernel) (hname e hword)
  exact fits_replace huncut hinside
    (offLine_of_ne hinside (ne_newline_of_codeAt ⟨c, hc, hcode⟩)) hlevel hway hd fun owed => hturns.turns owed

end Plan.Placed

end Plans

/-! ## Imports -/

section Imports

variable {masked : Text} {e : Nat} {t rest : Text}

theorem takes_headEnds (h : HeadEnds t rest) : Takes masked e [] t rest [] := by
  obtain ⟨front, blanks, tail, rfl, hfront, hblanks, htail⟩ := h
  have hend : (';' :: (blanks ++ tail)).all (fun c => isBlank c || c == ';') = true := by
    have htail : tail.all isBlank = true := by
      rcases htail with rfl | ⟨rfl, -⟩ <;> rfl
    refine all_eq_true.2 fun c hc => ?_
    simp only [mem_cons, mem_append] at hc
    rcases hc with rfl | hc | hc
    · rfl
    · simp [isBlank_of_isInlineBlank (hblanks c hc)]
    · simp [all_eq_true.1 htail c hc]
  have hhead : Takes masked e [] (front ++ (';' :: (blanks ++ tail) ++ rest)) (';' :: (blanks ++ tail) ++ rest) [] :=
    .past (by decide +kernel) ⟨front, rfl, hfront⟩ []
  simpa using hhead.trans (.past (by decide +kernel) ⟨_, rfl, hend⟩ [])

theorem level_import {i} (hwell : WellBracketed masked) (hi : i ∈ imports masked) :
    SameLevel masked i.span.start i.span.stop ∧ masked[i.span.start]? ≠ some '\n' := by
  simp only [imports, mem_map] at hi
  obtain ⟨m, hm, rfl⟩ := hi
  have hwithin := allMatches_spec hm (Nat.zero_le _) (Nat.le_refl _)
  refine ⟨level_match hwell hwithin fun h => takes_headEnds (headEnds_import? h), fun hbreak => ?_⟩
  obtain ⟨rest, haccept, -⟩ := hwithin.accepts
  have hlt : m.start < masked.length := (List.getElem?_eq_some_iff.1 hbreak).1
  have hslice : slice masked m.start masked.length = '\n' :: masked.drop (m.start + 1) := by
    rw [slice, take_length, drop_eq_getElem_cons hlt, ← (List.getElem?_eq_some_iff.1 hbreak).2]
  rw [hslice] at haccept
  simp [import?, isInlineBlank, after?] at haccept

theorem level_joinSpans {l} : (∀ s ∈ l, SameLevel masked s.start s.stop) →
    ∀ s ∈ joinSpans l, SameLevel masked s.start s.stop :=
  joinSpans_induction fun _ _ ha hb heq => ha.trans (heq ▸ hb)

theorem level_importsSpan (h : SameLevel (mask text) s.start s.stop) :
    SameLevel (mask text) (importsSpan text s).start (importsSpan text s).stop := by
  simp only [importsSpan]
  split
  · next hslice =>
    have hbreak : (mask text)[s.stop - 1]? = some '\n' := by
      have hget := congrArg (·[0]?) (beq_iff_eq.1 hslice)
      simp only [getElem?_slice, Nat.add_zero] at hget
      split at hget
      · exact getElem?_mask_newline.2 hget
      · simp at hget
    have hlast : SameLevel (mask text) (s.stop - 1) s.stop := by
      rcases Nat.eq_zero_or_pos s.stop with hzero | hpos
      · rw [hzero]
        exact .refl _ _
      · refine level_of_blankWithin (Nat.sub_le _ _) fun k c hk hk' hc => ?_
        obtain rfl : k = s.stop - 1 := by omega
        rw [hbreak] at hc
        rw [← Option.some.inj hc]
        exact isBlank_newline
    exact h.trans hlast.symm
  · exact h

theorem fits_removed_block {unit} (hclosed : BlocksClosed text)
    (hread : readUnit text = .ok unit) (hwell : WellBracketed (mask text)) (htypes : unit.types ≠ [])
    {cs block} (hblock : block ∈ obsoleteBlocks unit cs)
    (hstart : Boundary text block.start) (hstop : Boundary text block.stop) :
    (⟨(removed text (importsSpan text block)).start, (removed text (importsSpan text block)).stop, []⟩ :
      Edit).Fits text := by
  obtain ⟨rfl, hunit⟩ := placed_of_readUnit hread
  have himports : unit.imports = imports (mask unit.text) := by
    rw [imports_of_readUnit hread, hunit.masked_eq]
  obtain ⟨⟨i, hi, hlined, hi'⟩, j, hj, hlined', hj'⟩ := exists_imports_of_block hread hblock
  have hstarts := removed_block_start hread hblock
  have hplaced := (hunit.imports i hi)
  have hinside : block.start < unit.text.length := by
    obtain ⟨k, hk, hk', -⟩ := hplaced.semicolon
    have := hplaced.stop_le
    rw [hunit.masked_eq, length_mask] at this
    omega
  have hfree : Free unit.text block.start := by
    refine ⟨hstart, hinside, offLine_of_ne hinside ?_, ?_⟩
    · rw [himports] at hi
      rw [← hi', ne_eq, ← getElem?_mask_newline]
      exact (level_import hwell hi).2
    · rw [← hi']
      exact clear_of_newline fun hpos => hlined.start.resolve_left (by omega)
  have hlevel : SameLevel (mask unit.text) block.start block.stop := by
    refine level_joinSpans (fun s hs => ?_) block hblock
    obtain ⟨k, hk, rfl⟩ := mem_map.1 hs
    have hk := (mem_filter.1 hk).1
    rw [himports] at hk
    exact (level_import hwell hk).1
  have hlength : (importsSpan unit.text block).stop ≤ unit.text.length := by
    have hle := (hunit.imports j hj).stop_le
    rw [hunit.masked_eq, length_mask, hj'] at hle
    simp only [importsSpan]
    split <;> omega
  have hbounds := (boundary_removed_block hread hblock hclosed htypes).2 hstop
  refine fits_of_level (by rwa [hstarts]) hbounds (by rwa [hstarts])
    (level_removed hlength (level_importsSpan hlevel)) Turns.nil fun l hl v => ?_
  rw [hstarts] at hl
  exact hfree.meets hl _

end Imports

end Rebind.Conversion
