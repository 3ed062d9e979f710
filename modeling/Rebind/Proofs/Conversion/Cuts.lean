/-
Which comments and literals a conversion cuts.

Imports are taken out by lines, so a comment that shares a line with them and goes on over its end is cut, and nothing
else is (`range_cuts_iff`).
-/
import Rebind.Proofs.Conversion.Removals
import Rebind.Proofs.Java.Edges

namespace Rebind.Conversion

open Edit Java
open Text List

variable {text : Text} {cs : List Change}

variable {options : Options} {unit : CompilationUnit}

/-! ## Where code stands -/

theorem codeAt_start {α r t s e} {m : Match α}
    (h : MatchWithin r (Java.mask t) s e m) (hr : ∀ {u v rest}, r u = some (v, rest) → Starts u) :
    CodeAt t m.start := by
  obtain ⟨rest, haccept, -⟩ := h.accepts
  obtain ⟨c, hc, hcode⟩ := hr haccept
  rw [head?_eq_getElem?, getElem?_slice, Nat.add_zero] at hc
  split at hc
  · exact ⟨c, hc, hcode⟩
  · simp at hc

variable {s : Span} {c : Change} {layouts : Keyed Text Bytes} {draft : Draft} {rs : List ClassRecord}
  {imports : List Change} {kept : List Edit}

theorem unbinderStatements_edges {name : Text} {b} (hname : name ≠ [] ∧ ∀ c ∈ name, isWord c = true)
    (hle : b.opening ≤ b.closing) (hlength : b.closing ≤ (Java.mask text).length)
    (hs : s ∈ unbinderStatements (Java.mask text) name b) : CodeAt text s.start ∧ CodeAt text (s.stop - 1) := by
  obtain ⟨-, hstart, hstop, _, _, htokens, hspelled⟩ := spelled_of_mem_unbinderStatements hle hlength hs
  obtain ⟨c, hc, hword⟩ := htokens.head? hname.2 hname.1 hspelled
  obtain ⟨d, hd, hlast⟩ := htokens.getLast? hspelled.spaced
  rw [head?_eq_getElem?, getElem?_slice, Nat.add_zero] at hc
  split at hc
  · next hlt =>
    rw [getLast?_eq_getElem?, length_slice, getElem?_slice, Nat.min_eq_left (by omega), if_pos (by omega),
      show s.start + (s.stop - s.start - 1) = s.stop - 1 by omega] at hlast
    refine ⟨⟨c, hc, isCode_of_isWord hword⟩, d, hlast, ?_⟩
    simp only [mem_cons, not_mem_nil, or_false] at hd
    rcases hd with rfl | rfl <;> decide
  · cases hc

/-! ## The changes of a class -/

section Plans

variable {text : Text} {plan : Plan} (h : plan.Placed text) (hclosed : BlocksClosed text)

include h hclosed

theorem Plan.Placed.uncut_content {screen init content}
    (ha : plan.anchor = .content screen init content) : Uncut text content.span := by
  obtain ⟨hm, ss, hss, hcontent⟩ := h.content_mem ha
  simp only [statements] at hss
  split at hss
  · simp only [Except.ok.injEq] at hss
    subst hss
    cases hcontent
  · next b hb =>
    rw [h.unit.masked_eq, h.text_eq] at hss
    have hbrace := (h.type.method hm).2.2.2.brace b hb
    rw [h.unit.masked_eq, h.text_eq] at hbrace
    exact Java.statementsFrom_boundary hclosed (Java.boundary_of_code hclosed hbrace (by decide)).2 hss content hcontent

variable (hread : Java.readUnit text = .ok plan.unit)

include hread

theorem Plan.Placed.uncut_field {f} (hf : f ∈ plan.type.fields) : Uncut text f.span where
  start := Java.boundary_of_readUnit hclosed hread _ h.type_mem _ (Java.TypeDecl.mem_members_of_field hf)
  stop := by
    have hsemicolon := (h.type.field hf).2.2.2.2.semicolon
    rw [h.unit.masked_eq, h.text_eq] at hsemicolon
    exact (Java.codeAt_of_mem_closers hsemicolon (by simp)).boundary_stop hclosed

/-- What a class changes starts and ends with code. -/
theorem Plan.Placed.uncut {c : Change} (hc : plan.Makes c) : Uncut text c.span := by
  have hmasked : plan.unit.masked = Java.mask text := by rw [h.unit.masked_eq, h.text_eq]
  have hbody := h.body
  cases hc with
  | annotated ha =>
    have hwithin := h.annotation ha
    rw [hmasked] at hwithin
    obtain ⟨c, hc, hcode⟩ := hwithin.last
    exact ⟨(Java.boundary_of_code hclosed hwithin.at_sign (by decide)).1, CodeAt.boundary_stop ⟨c, hc, hcode⟩ hclosed⟩
  | content ha => exact h.uncut_content hclosed ha
  | use hf hus hu =>
    obtain ⟨name, hname, huse⟩ := h.use_placed hf hus hu
    rw [hmasked] at huse
    obtain ⟨c, hc, hfirst⟩ := huse.first
    obtain ⟨d, hd, hlast⟩ := huse.last
    have hcode : isCode c = true := by
      rcases hfirst with rfl | hfirst
      · decide
      · exact isCode_of_isWord (hname c hfirst)
    exact ⟨(Java.boundary_of_code hclosed hc hcode).1,
      CodeAt.boundary_stop ⟨d, hlast, isCode_of_isWord (hname d hd)⟩ hclosed⟩
  | declaration hf => exact h.uncut_field hclosed hread (h.drawn.declarations _ _ hf).1
  | unbinder hf => exact h.uncut_field hclosed hread hf
  | @bindCall m b call cs _ _ hm hb hcall hcs hc =>
    obtain ⟨-, -, hlt, hclosing⟩ := h.type.methodBody hm hb
    have hwithin := allMatches_spec hcall (by omega) (by omega)
    rw [hmasked] at hwithin
    obtain ⟨closing, k, -, -, -, hsemicolon, -, rfl⟩ := Plan.removal_of_mem_bindCallChanges hcs hc
    refine ⟨(codeAt_start hwithin fun h => (callTo_bindCall? h).1).boundary hclosed, ?_⟩
    exact CodeAt.boundary_stop ⟨';', hmasked ▸ hsemicolon, by decide⟩ hclosed
  | unbinderStatement _ hf hname hm hb hs =>
    obtain ⟨-, -, hlt, hclosing⟩ := h.type.methodBody hm hb
    rw [hmasked] at hs
    obtain ⟨h1, h2⟩ := unbinderStatements_edges (isWord_of_mem_names (h.type.field hf).2.2.2.2 hname) (by omega)
      (by rw [← hmasked]; omega) hs
    exact ⟨h1.boundary hclosed, h2.boundary_stop hclosed⟩

end Plans

/-- What cuts nothing does not when it is widened by blanks, either. -/
theorem uncut_removed (h : Uncut text s) (hlt : s.start < s.stop) (hs : s.stop ≤ text.length) :
    Uncut text (removed text s) := by
  obtain ⟨-, hstop, -, -, hback⟩ := removalSpan_spec (s := s.start) hs
  refine ⟨?_, h.stop.of_blankWithin hstop hback⟩
  by_cases halone : Alone text s.start s.stop
  · simp only [removed, removalSpan_of_alone halone]
    exact boundary_lineStart h.start (by omega) halone.1
  · simp only [removed, removalSpan_of_not_alone halone]
    exact h.start

theorem classChanges_uncut {type} (hclosed : BlocksClosed text)
    (hread : Java.readUnit text = .ok unit) (htype : type ∈ unit.types)
    (hcs : classChanges options unit type = .ok cs) (hc : c ∈ cs) : Uncut text (c.range text) := by
  obtain ⟨rfl, hunit⟩ := placed_of_readUnit hread
  obtain ⟨-, plan, hplan, rfl, rfl, hmakes⟩ := exists_plan_of_mem_classChanges hunit htype hcs hc
  have huncut := hplan.uncut hclosed hread hmakes
  cases c with
  | content s | use s id => exact huncut
  | removal s =>
    have hmarked : Marked plan.unit.masked s := hplan.changes hmakes
    have hstop := hmarked.1
    rw [hunit.masked_eq, length_mask] at hstop
    exact uncut_removed huncut hmarked.start_lt hstop

/-! ## Imports -/

/-- The blocks of imports that are taken out once the changes of the classes are made. -/
def obsoleteBlocks (unit : CompilationUnit) (ofClasses : List Change) : List Span :=
  joinSpans ((unit.imports.filter (isObsolete unit (takenBy unit.text ofClasses))).map (·.span))

theorem exists_ends_of_joinSpans {l} : ∀ s ∈ joinSpans l,
    (∃ a ∈ l, a.start = s.start) ∧ ∃ b ∈ l, b.stop = s.stop :=
  joinSpans_induction (fun _ _ ha hb _ => ⟨ha.1, hb.2⟩) fun s hs => ⟨⟨s, hs, rfl⟩, s, hs, rfl⟩

section Blocks

variable {text : Text} (hread : Java.readUnit text = .ok unit) {cs : List Change} {block : Span}
  (hblock : block ∈ obsoleteBlocks unit cs)

include hread hblock

theorem exists_imports_of_block : (∃ i ∈ unit.imports, i.Lined (Java.mask text) ∧ i.span.start = block.start) ∧
      ∃ i ∈ unit.imports, i.Lined (Java.mask text) ∧ i.span.stop = block.stop := by
  obtain ⟨rfl, hunit⟩ := placed_of_readUnit hread
  have hlined : ∀ i ∈ unit.imports, i.Lined (Java.mask unit.text) := by
    intro i hi
    rw [imports_of_readUnit hread, hunit.masked_eq] at hi
    exact lined_of_mem_imports hi
  obtain ⟨⟨a, ha, hstart⟩, b, hb, hstop⟩ := exists_ends_of_joinSpans _ hblock
  simp only [mem_map, mem_filter] at ha hb
  obtain ⟨i, ⟨hi, -⟩, rfl⟩ := ha
  obtain ⟨j, ⟨hj, -⟩, rfl⟩ := hb
  exact ⟨⟨i, hi, hlined i hi, hstart⟩, j, hj, hlined j hj, hstop⟩

theorem removed_block_start : (removed text (importsSpan text block)).start = block.start := by
  obtain ⟨⟨i, -, hlined, hstart⟩, -⟩ := exists_imports_of_block hread hblock
  by_cases halone : Alone text (importsSpan text block).start (importsSpan text block).stop
  · rw [removed, removalSpan_of_alone halone, show (importsSpan text block).start = block.start from rfl, ← hstart]
    exact hlined.lineStart_eq
  · rw [removed, removalSpan_of_not_alone halone]
    rfl

theorem removed_block_stop (hbreak : text[block.stop - 1]? = some '\n') :
    block.stop ≤ (removed text (importsSpan text block)).stop ∧
      BlankWithin text block.stop (removed text (importsSpan text block)).stop := by
  obtain ⟨⟨i, -, hlined, hstart⟩, j, hj, hlined', hstop⟩ := exists_imports_of_block hread hblock
  obtain ⟨k, -, -, hk, -⟩ := hlined'.stop
  have hlt : block.stop - 1 < text.length := (List.getElem?_eq_some_iff.1 hbreak).1
  have hspan : importsSpan text block = ⟨block.start, block.stop - 1⟩ := by
    have hslice : slice text (block.stop - 1) block.stop = ['\n'] := by
      apply ext_getElem?
      intro n
      rw [getElem?_slice]
      cases n with
      | zero => rw [if_pos (by omega), Nat.add_zero, hbreak]; rfl
      | succ n => rw [if_neg (by omega)]; rfl
    simp only [importsSpan, hslice]
    rfl
  obtain ⟨h1, -, h3, -⟩ := lineEnd_spec (Nat.le_of_lt hlt)
  have hend : lineEnd text (block.stop - 1) = block.stop - 1 := by
    apply Classical.byContradiction
    intro hne
    exact h3 _ (Nat.le_refl _) (by omega) hbreak
  have halone : Alone text block.start (block.stop - 1) := by
    refine ⟨fun n c h h' => ?_, fun n c h h' => ?_⟩
    · rw [← hstart, hlined.lineStart_eq] at h
      omega
    · omega
  simp only [removed, hspan, removalSpan_of_alone halone, hend]
  have hmin : min (block.stop - 1 + 1) text.length = block.stop := by omega
  rw [hmin]
  obtain ⟨h4, -, h5⟩ := @Edit.linesRemovalEnd_spec text (lineStart text block.start) block.stop (by omega)
  exact ⟨h4, h5⟩

theorem boundary_removed_block (hclosed : BlocksClosed text) (htype : unit.types ≠ []) :
    Boundary text (removed text (importsSpan text block)).stop ↔ Boundary text block.stop := by
  obtain ⟨-, i, hi, hlined, hstop⟩ := exists_imports_of_block hread hblock
  constructor
  · -- a comment that holds the end of the block ends behind the blank lines that go with it
    intro hboundary
    apply Classical.byContradiction
    intro hcut
    rw [← hstop] at hcut
    obtain ⟨hbreak, a, c, u, body, ha, hdrop, hlt, hlt', hbody⟩ := hlined.comment_of_cut hclosed hcut
    rw [hstop] at hbreak hlt hlt'
    obtain ⟨hle, hblank⟩ := removed_block_stop hread hblock hbreak
    refine not_boundary_of_within ha hdrop (by omega) (Nat.lt_of_not_le fun hge => ?_) hboundary
    have hget : ∀ k, k < body.length → text[a + k]? = body[k]? := by
      intro k hk
      have := text_lexemeAt c u
      rw [hbody, Lexeme.text] at this
      rw [← getElem?_drop, hdrop, ← this, getElem?_append_left hk]
    rw [hbody, Lexeme.text] at hlt' hge
    have hmem : '\n' ∈ body := by
      have := hget (block.stop - 1 - a) (by omega)
      rw [show a + (block.stop - 1 - a) = block.stop - 1 by omega, hbreak] at this
      exact mem_of_getElem? this.symm
    have hreads := reads_lexemeAt c u
    rw [hbody] at hreads
    have hrest : (lexemeAt c u).2 ≠ [] := by
      -- the first type stands behind the imports, and not in a comment
      intro hnil
      obtain ⟨type, htype⟩ := exists_mem_of_ne_nil _ htype
      obtain ⟨rfl, hunit⟩ := placed_of_readUnit hread
      have hplaced := hunit.types type htype
      have hstart := import_stop_le_start hread hi htype
      have hopening := hplaced.start_lt
      have hbrace := hplaced.brace
      rw [hunit.masked_eq] at hbrace
      have hlength : type.body.opening < unit.text.length := by
        simpa using (List.getElem?_eq_some_iff.1 hbrace).1
      have hwhole := congrArg List.length (text_lexemeAt c u)
      rw [length_append, hnil, ← hdrop, length_drop, hbody, Lexeme.text, length_nil] at hwhole
      have hmask := ha.getElem?_mask hdrop (k := type.body.opening - a) (by rw [hbody, Lexeme.text]; omega)
      rw [show a + (type.body.opening - a) = type.body.opening by omega, hbrace, hbody] at hmask
      exact absurd (isBlank_of_mem_blanked (mem_of_getElem? hmask.symm)) (by decide)
    have hlast := hreads.getLast?_comment hrest hmem
    rw [getLast?_eq_getElem?, ← hget _ (by omega)] at hlast
    exact absurd (hblank _ '/' (by omega) (by omega) hlast) (by decide)
  · intro hboundary
    by_cases hbreak : text[block.stop - 1]? = some '\n'
    · obtain ⟨hle, hblank⟩ := removed_block_stop hread hblock hbreak
      exact hboundary.of_blankWithin hle hblank
    · have hspan : (importsSpan text block).stop = block.stop := by
        refine if_neg fun hslice => hbreak ?_
        have := congrArg (·[0]?) (beq_iff_eq.1 hslice)
        simp only [getElem?_slice, Nat.add_zero] at this
        split at this
        · exact this
        · simp at this
      have hlength : block.stop ≤ text.length := by
        obtain ⟨rfl, hunit⟩ := placed_of_readUnit hread
        have := (hunit.imports i hi).stop_le
        rwa [hstop, hunit.masked_eq, length_mask] at this
      rw [← hspan] at hboundary hlength
      obtain ⟨-, hle, -, -, hblank⟩ := removalSpan_spec (s := (importsSpan text block).start) hlength
      exact hboundary.of_blankWithin hle hblank

end Blocks

/-! ## The file -/

theorem not_cuts_of_uncut (h : Uncut text s) : ¬ (Cuts text s.start ∨ Cuts text s.stop) := by
  rw [cuts_iff_not_boundary, cuts_iff_not_boundary]
  rintro (hcut | hcut)
  · exact hcut h.start
  · exact hcut h.stop

theorem FileRecord.types_ne_nil (h : FileRecord options layouts unit draft rs imports) (hc : c ∈ imports) :
    unit.types ≠ [] := by
  intro hnil
  have hclasses : classesOf unit = [] := by simp [classesOf, hnil]
  have hchanges : fileChanges options unit = .ok [] := by
    rw [fileChanges, hclasses]
    rfl
  have hboth := h.changes
  rw [hchanges, Except.ok.injEq] at hboth
  rw [(append_eq_nil_iff.1 hboth.symm).2] at hc
  cases hc

theorem removed_block_cuts_iff (hclosed : BlocksClosed unit.text) (hread : readUnit unit.text = .ok unit)
    (htypes : unit.types ≠ []) {block} (hblock : block ∈ obsoleteBlocks unit cs)
    (hs : s = removed unit.text (importsSpan unit.text block)) :
    Cuts unit.text s.start ∨ Cuts unit.text s.stop ↔ Cuts unit.text block.start ∨ Cuts unit.text block.stop := by
  subst hs
  simp only [cuts_iff_not_boundary, removed_block_start hread hblock,
    boundary_removed_block hread hblock hclosed htypes]

theorem FileRecord.cuts_iff (h : FileRecord options layouts unit draft rs imports) (hclosed : BlocksClosed unit.text)
    (hread : readUnit unit.text = .ok unit) {e} (he : e ∈ draft.edits) (hlt : e.start < e.stop) :
    Cuts unit.text e.start ∨ Cuts unit.text e.stop ↔ ∃ block ∈ obsoleteBlocks unit (rs.flatMap (·.changes)),
        e.span = removed unit.text (importsSpan unit.text block) ∧
        (Cuts unit.text block.start ∨ Cuts unit.text block.stop) := by
  rcases (h.mem_edits_iff hlt).1 he with ⟨r, hr, c, hc, hedit⟩ | ⟨c, hc, hedit⟩
  · have hsound := h.sound r hr
    have huncut := classChanges_uncut hclosed hread hsound.type_mem hsound.changes_eq hc
    have hspan : c.range unit.text = e.span := congrArg Edit.span hedit
    rw [hspan] at huncut
    constructor
    · exact fun hcut => absurd hcut (not_cuts_of_uncut huncut)
    · rintro ⟨block, hblock, hspan, hcut⟩
      exact (removed_block_cuts_iff hclosed hread (ne_nil_of_mem hsound.type_mem) hblock hspan).2 hcut
  · have htypes := h.types_ne_nil hc
    obtain ⟨block, hblock, rfl⟩ := mem_map.1 (h.obsolete c hc)
    have hspan : removed unit.text (importsSpan unit.text block) = e.span := congrArg Edit.span hedit
    constructor
    · exact fun hcut =>
        ⟨block, hblock, hspan.symm, (removed_block_cuts_iff hclosed hread htypes hblock hspan.symm).1 hcut⟩
    · rintro ⟨block, hblock, hspan, hcut⟩
      exact (removed_block_cuts_iff hclosed hread htypes hblock hspan).2 hcut

theorem inside_or_apart (huncut : ∀ k ∈ kept, ¬ (Cuts text k.start ∨ Cuts text k.stop))
    {front back l} (hlexemes : lexemes text = front ++ l :: back)
    (hstart : s.start = (front.flatMap Lexeme.text).length) (hstop : s.stop = s.start + l.text.length) :
    (∃ k ∈ kept, s.Inside k.span) ∨ ∀ k ∈ kept, k.stop ≤ s.start ∨ s.stop ≤ k.start := by
  by_cases hall : ∀ k ∈ kept, k.stop ≤ s.start ∨ s.stop ≤ k.start
  · exact .inr hall
  · simp only [not_forall, not_or, Nat.not_le] at hall
    obtain ⟨k, hk, h1, h2⟩ := hall
    refine .inl ⟨k, hk, Nat.le_of_not_lt fun hlt => huncut k hk (.inl ?_), Nat.le_of_not_lt fun hlt =>
      huncut k hk (.inr ?_)⟩
    · have hlt : s.start < k.start := hlt
      exact ⟨front, l, back, hlexemes, by omega, by omega⟩
    · have hlt : k.stop < s.stop := hlt
      exact ⟨front, l, back, hlexemes, by omega, by omega⟩

/-- A range that took effect starts or ends inside a comment or a literal exactly when it takes out a block of imports
that does. If there is no such block, every comment and every literal is taken away whole or left whole. -/
theorem range_cuts_iff {layouts : Keyed Text Bytes} {text : Text} {out : Outcome} (hclosed : BlocksClosed text)
    (h : convert options layouts text = .ok out) :
    ∃ unit draft kept ofClasses, Applied options layouts text out unit draft kept ∧
      gather (classChanges options unit) (classesOf unit) = .ok ofClasses ∧
      (∀ k ∈ kept, Cuts text k.start ∨ Cuts text k.stop ↔
        ∃ block ∈ obsoleteBlocks unit ofClasses, k.span = Edit.removed text (importsSpan text block) ∧
          (Cuts text block.start ∨ Cuts text block.stop)) ∧
      ((∀ block ∈ obsoleteBlocks unit ofClasses, ¬ (Cuts text block.start ∨ Cuts text block.stop)) →
        ∀ front l back, lexemes text = front ++ l :: back → ∀ s : Span,
          s.start = (front.flatMap Lexeme.text).length → s.stop = s.start + l.text.length →
          (∃ k ∈ kept, s.Inside k.span) ∨ ∀ k ∈ kept, k.stop ≤ s.start ∨ s.stop ≤ k.start) := by
  obtain ⟨unit, draft, kept, happlied⟩ := applied_of_convert h
  have hread := happlied.read
  obtain ⟨p, hrun, rfl⟩ := happlied.recorded
  obtain ⟨rfl, hunit, hp, -, rs, imports, hrecord⟩ := record_of_run hread hrun
  have hgather := gather_classChanges hrecord.sound
  rw [hrecord.types] at hgather
  have hresolved := Edit.Draft.resolved_of_resolve hp.orderly happlied.resolved
  have hiff : ∀ k ∈ kept, Cuts unit.text k.start ∨ Cuts unit.text k.stop ↔
      ∃ block ∈ obsoleteBlocks unit (rs.flatMap (·.changes)),
        k.span = Edit.removed unit.text (importsSpan unit.text block) ∧
        (Cuts unit.text block.start ∨ Cuts unit.text block.stop) := by
    intro k hk
    obtain ⟨hmem, hlt⟩ := hresolved.recorded hk
    exact hrecord.cuts_iff hclosed hread hmem hlt
  refine ⟨unit, p.draft, kept, rs.flatMap (·.changes), happlied, hgather, ?_, ?_⟩
  · exact hiff
  intro hnone front l back hlexemes s hstart hstop
  refine inside_or_apart (fun k hk => ?_) hlexemes hstart hstop
  rw [hiff k hk]
  rintro ⟨block, hblock, -, hcut⟩
  exact hnone block hblock hcut

/-- A comment that shares the line of an import and goes on over the next. -/
def sharedLine : Text :=
  "import butterknife.BindView; /* views\n   by name */\nclass A \x7b\n @BindView(R.id.t)\n V t;\n" ++
    " void onCreate(B b) \x7b\n  setContentView(R.layout.m);\n \x7d\n\x7d\n"

theorem cuts_sharedLine : Cuts sharedLine 38 :=
  ⟨(lexemes sharedLine).take 29, .comment "/* views\n   by name */", (lexemes sharedLine).drop 30,
    by decide +kernel, by decide +kernel, by decide +kernel⟩

theorem replay?_sharedLine : ∃ r ∈ replay? toBinding [] sharedLine, ∃ k ∈ r.kept, k.text = [] ∧ k.stop = 38 := by
  unfold sharedLine
  repeat rewrite [String.toList_ofList]
  decide +kernel

/-- With the line of the import goes the head of the comment. -/
theorem convert_sharedLine :
    ∃ out unit draft kept, convert toBinding [] sharedLine = .ok out ∧
      Applied toBinding [] sharedLine out unit draft kept ∧ ∃ k ∈ kept, k.text = [] ∧ Cuts sharedLine k.stop := by
  obtain ⟨out, unit, draft, kept, hout, happlied, k, hk, htext, hstop⟩ := exists_applied _ _ _ replay?_sharedLine
  exact ⟨out, unit, draft, kept, hout, happlied, k, hk, htext, hstop ▸ cuts_sharedLine⟩

/-- The block that is taken out ends inside the comment, and its removal does. -/
theorem range_cuts_iff_sharedLine :
    ∃ out unit draft kept ofClasses, Applied toBinding [] sharedLine out unit draft kept ∧
      ∃ k ∈ kept, Cuts sharedLine k.stop ∧ ∃ block ∈ obsoleteBlocks unit ofClasses,
        k.span = Edit.removed sharedLine (importsSpan sharedLine block) ∧
        (Cuts sharedLine block.start ∨ Cuts sharedLine block.stop) := by
  obtain ⟨out, -, -, -, hout, -⟩ := exists_applied _ _ _ replay?_sharedLine
  obtain ⟨unit, draft, kept, ofClasses, happlied, -, hiff, -⟩ :=
    range_cuts_iff (by decide +kernel : BlocksClosed sharedLine) hout
  obtain ⟨k, hk, -, hstop⟩ := happlied.of_replay? replay?_sharedLine
  have hcut : Cuts sharedLine k.stop := hstop ▸ cuts_sharedLine
  exact ⟨out, unit, draft, kept, ofClasses, happlied, k, hk, hcut, (hiff k hk).1 (.inr hcut)⟩

end Rebind.Conversion
