/-
Brackets of a converted file.

Where the brackets of the code of a file pair, they pair in the converted file too, if what the conversion copies and
takes out is complete (`convert_wellBracketed`). A part of a comment may be copied (`convert_not_wellBracketed`).
-/
import Rebind.Proofs.Conversion.Repetition
import Rebind.Proofs.Conversion.Written

namespace Rebind.Conversion

open Binding Edit Java Text List

variable {p : Progress} {names : List Text} {unit : CompilationUnit}

/-! ## What is copied and taken out -/

/-- What the conversion of a class copies and takes out is complete code: declarations and the types of the parameters
of handlers close what they open, and so do the ways to the views and the pieces of the call that inflates the layout.
-/
structure ClassComplete (options : Options) (layouts : Keyed Text Bytes) (unit : CompilationUnit) (type : TypeDecl) :
    Prop where
  separable : Separable unit.masked type
  params : ∀ m ∈ type.methods, ∀ a ∈ m.annotations, recognises unit.imports a = true →
    ∀ p ∈ m.params, Closed p.type
  copied : options.mode = .viewBinding → ∀ init content,
    Anchor.locate unit type = .ok (.content .fragment init content) →
    ∀ u ∈ copiedCode unit content, Portable (lineIndent unit.text content.span.start) u
  ways : ∀ id way, (pathsOf options layouts unit type).get? id = some way → Closed way

/-- What the conversion of a file copies and takes out is complete code, and it writes with plain names. No import and
no place for one is inside a comment. -/
structure Complete (options : Options) (layouts : Keyed Text Bytes) (unit : CompilationUnit) : Prop where
  blocks : BlocksClosed unit.text
  holder_ne : options.holder ≠ []
  holder : ∀ c ∈ options.holder, isNamePart c = true
  files : ∀ f ∈ layouts, f.1.all isPlain = true
  imports : ∀ i ∈ unit.imports, Uncut unit.text i.span
  importsEnd : Boundary unit.text unit.importsEnd
  classes : ∀ type ∈ classesOf unit, (bindingsOf unit type).isEmpty = false →
    ClassComplete options layouts unit type

section

variable {text : Text} {options : Options} {layouts : Keyed Text Bytes} {unit : CompilationUnit}
  (hread : readUnit text = .ok unit) (hwell : WellBracketed (mask text))
  (hcomplete : Complete options layouts unit)

include hread

/-! ## Classes -/

theorem tidy_of_complete {type} (hcomplete : Complete options layouts unit)
    (hclass : ClassComplete options layouts unit type) (htype : type ∈ unit.types)
    {anchor} (hanchor : Anchor.locate unit type = .ok anchor) {known}
    (hknown : known = layouts.map (·.1)) :
    Plan.Tidy
      { options, unit, type, anchor
        bindings := bindingsOf unit type
        layout := layoutOf unit type anchor known } := by
  have hfrom := readFrom_of_readUnit hread type htype
  have hplaced := (placed_of_readUnit hread).2.types type htype
  have hfields : ∀ f ∈ type.fields, ∀ c ∈ f.name, isWord c = true := by
    intro f hf
    obtain ⟨-, -, -, -, hfield⟩ := hplaced.field hf
    exact hfield.name_word
  refine ⟨hcomplete.holder_ne, hcomplete.holder, all_isPlain_layoutOf hfrom.name ?_ anchor,
    written_bindingsOf hfields fun m hm => ⟨(hfrom.method hm).1.1, hclass.params m hm⟩, hfrom.memberIndent,
    fun m hm => (hfrom.method hm).1.2, fun hmode init content ha => ?_⟩
  · intro name hname
    rw [hknown, mem_map] at hname
    obtain ⟨f, hf, rfl⟩ := hname
    exact hcomplete.files f hf
  · exact hclass.copied hmode init content (hanchor.trans (congrArg _ ha))

include hwell hcomplete

theorem ensures_convertClass {type} (htype : type ∈ classesOf unit)
    (hfiles : p.layouts.files = layouts) :
    Ensures (convertClass options unit type) p fun o q => q.layouts.files = layouts ∧
      (∀ name ∈ o.imports, name.all isPlain = true) ∧
      (pathsOf options layouts unit type = q.paths → ∀ e ∈ q.draft.edits, e ∈ p.draft.edits ∨ Written text e) := by
  obtain ⟨rfl, hunit⟩ := placed_of_readUnit hread
  simp only [convertClass]
  split
  · exact .pure ⟨hfiles, by simp, fun _ e he => .inl he⟩
  · next hempty =>
    have hclass := hcomplete.classes type htype (by simpa using hempty)
    let p₀ : Progress := { p with paths := [], imports := [] }
    have hmodify : Ensures (modify fun p => { p with paths := [], imports := [] } : Conversion Unit) p fun _ q =>
        q = p₀ :=
      .of_run rfl rfl
    refine hmodify.bind fun _ q hqp => ?_
    subst hqp
    refine (ensures_forM unit.text options.holder fun id _ p =>
      (ensures_report unit.text options.holder _).mono fun _ _ hq => hq.1).bind fun _ q₁ hq₁ => ?_
    refine Ensures.read.bind ?_
    rintro anchor q₂ ⟨hanchor, heq₂⟩
    subst heq₂
    refine Ensures.get.bind ?_
    rintro s q₃ ⟨hs, heq₃⟩
    subst hs heq₃
    have hcomplaint : Ensures (anchor.complaint?.forM fun message =>
        Conversion.report (type.name ++ ": " ++ message)) q₃ fun _ q => Writes unit.text options.holder q₃ q := by
      cases anchor.complaint? with
      | none => exact .pure (.refl _ _ q₃)
      | some message => exact (ensures_report unit.text options.holder _).mono fun _ _ hq => hq.1
    refine hcomplaint.bind fun _ q₄ hq₄ => ?_
    refine (ensures_ask unit.text options.holder fun s => (Layout.Session.Stable.files s.files).load _ rfl).bind ?_
    rintro _ q₅ ⟨hq₅, -⟩
    refine (ensures_report unit.text options.holder _).bind ?_
    rintro _ q₆ ⟨hq₆, -⟩
    have hknown : q₃.layouts.files.map (·.1) = layouts.map (·.1) := by rw [hq₁.files, ← hfiles]
    have htidy := tidy_of_complete hread hcomplete hclass (mem_classesOf htype) hanchor hknown
    have hplan : ∀ layout, Plan.Placed unit.text
        { options, unit, type, bindings := bindingsOf unit type, anchor, layout } :=
      fun _ => ⟨rfl, hunit, mem_classesOf htype, rfl, hanchor⟩
    refine (ensures_convertPlanned (hplan _) htidy hcomplete.blocks hread hwell).bind fun _ q₇ hq₇ => ?_
    refine Ensures.get.bind ?_
    rintro s q₈ ⟨hs, heq₈⟩
    subst hs heq₈
    -- what was recorded for the class starts without ways and without imports
    have hwrites := ((((hq₁.trans hq₄).trans hq₅).trans hq₆).trans hq₇)
    refine .pure ⟨hwrites.files.trans hfiles, fun name hname => ?_, fun hpaths => hwrites.edits fun id way hway => ?_⟩
    · exact (hwrites.imports name hname).resolve_left (by simp [p₀])
    · refine ⟨hclass.ways id way (by rw [hpaths, hway]), (hwrites.ways id way hway).resolve_left ?_⟩
      simp [p₀, Keyed.get?]

/-- The classes behind the first ones; the run over those leads to the state in which it goes on. -/
theorem ensures_convertClasses : ∀ {ts pre p done},
    classesOf unit = pre ++ ts → (pre.mapM (convertClass options unit)).run (start layouts text) = .ok (done, p) →
    p.layouts.files = layouts → Ensures (ts.mapM (convertClass options unit)) p fun os q =>
      (∀ o ∈ os, ∀ name ∈ o.imports, name.all isPlain = true) ∧
        ∀ e ∈ q.draft.edits, e ∈ p.draft.edits ∨ Written text e
  | [], pre, p, done, _, _, _ => .pure ⟨by simp, fun e he => .inl he⟩
  | type :: ts, pre, p, done, hsplit, hdone, hfiles => by
    obtain ⟨htext, hunit⟩ := placed_of_readUnit hread
    rw [mapM_cons]
    refine (ensures_convertClass hread hwell hcomplete (by simp [hsplit]) hfiles).with_run.bind ?_
    rintro o q ⟨hrun, hfiles', himports, hedits⟩
    have hnext :
        ((pre ++ [type]).mapM (convertClass options unit)).run (start layouts text) = .ok (done ++ [o], q) := by
      rw [mapM_append, run_bind_of_ok hdone, mapM_cons, bind_assoc, run_bind_of_ok hrun]
      rfl
    have hedits := hedits (pathsOf_eq hunit hsplit (htext ▸ hnext))
    have hbehind : classesOf unit = pre ++ [type] ++ ts := by simp [hsplit]
    refine (ensures_convertClasses hbehind hnext hfiles').bind ?_
    rintro os r ⟨himports', hedits'⟩
    refine .pure ⟨fun o' ho' => ?_, fun e he => (hedits' e he).elim (hedits e) .inr⟩
    rcases mem_cons.1 ho' with rfl | ho'
    · exact himports
    · exact himports' o' ho'

/-! ## Imports -/

omit hread hwell hcomplete in
theorem foldl_max_stop : ∀ (spans : List Span) (n : Nat), spans.foldl (fun n s => max n s.stop) n = n ∨
    ∃ s ∈ spans, spans.foldl (fun n s => max n s.stop) n = s.stop
  | [], n => .inl rfl
  | s :: spans, n => by
    rw [foldl_cons]
    rcases foldl_max_stop spans (max n s.stop) with heq | ⟨s', hs', heq⟩
    · rcases Nat.le_total n s.stop with hle | hle
      · exact .inr ⟨s, by simp, by rw [heq, Nat.max_eq_right hle]⟩
      · exact .inl (by rw [heq, Nat.max_eq_left hle])
    · exact .inr ⟨s', by simp [hs'], heq⟩

omit hread hwell hcomplete in
theorem closed_importLines (h : ∀ name ∈ names, name.all isPlain = true) :
    Closed (names.flatMap importLine) := by
  induction names with
  | nil => exact closed_nil
  | cons name names ih =>
    have hline : Closed (importLine name) :=
      ((closed_text "import " rfl).append (closed_of_plain (h name (by simp)))).append
        (closed_text ";\n" rfl)
    exact hline.append (ih (forall_mem_cons.1 h).2)

omit hcomplete in
theorem import_offLine (htypes : unit.types ≠ []) {i} (hi : i ∈ unit.imports) :
    (i.span.start < text.length ∧ OffLine text i.span.start) ∧
      i.span.stop < text.length ∧ OffLine text i.span.stop := by
  obtain ⟨type, htype⟩ := exists_mem_of_ne_nil _ htypes
  obtain ⟨rfl, hunit⟩ := placed_of_readUnit hread
  have hbraces := partner_lt_length (hunit.types type htype).braces
  have hbefore := (hunit.types type htype).start_lt
  have hle := import_stop_le_start hread hi htype
  have hlt := (hunit.imports i hi).start_lt
  rw [hunit.masked_eq, length_mask] at hbraces
  have himport := hi
  rw [imports_of_readUnit hread, hunit.masked_eq] at himport
  have hstart : i.span.start < unit.text.length := by omega
  have hstop : i.span.stop < unit.text.length := by omega
  refine ⟨⟨hstart, offLine_of_ne hstart ?_⟩, hstop, ?_⟩
  · rw [ne_eq, ← getElem?_mask_newline]
    exact (level_import hwell himport).2
  · obtain ⟨k, -, -, hk, -, hend⟩ := (lined_of_mem_imports himport).stop
    rcases hend with hbreak | hrest
    · refine .inl ⟨'\n', ?_, .inr rfl⟩
      rw [show i.span.stop = i.span.stop - 1 + 1 by omega, charBefore]
      exact hbreak
    · refine offLine_of_ne hstop fun hbreak => ?_
      exact (hrest '\n' (getElem?_mask_newline.2 hbreak)).2 rfl

theorem fits_importLines (htypes : unit.types ≠ []) {obsolete}
    (hobsolete : ∀ s ∈ obsolete, ∃ i ∈ unit.imports, i.span = s) {name}
    (hplain : ∀ n ∈ name :: names, n.all isPlain = true) :
    Fits text ⟨(importAnchor unit obsolete).1, (importAnchor unit obsolete).1,
      (importAnchor unit obsolete).2 ++ (name :: names).flatMap importLine⟩ := by
  obtain ⟨rfl, hunit⟩ := placed_of_readUnit hread
  have hlines := closed_importLines hplain
  simp only [importAnchor]
  split
  · next s kept hkept =>
    -- behind an import that stays
    obtain ⟨s', hs', hstop⟩ : ∃ s' ∈ s :: kept, (s :: kept).foldl (fun n s => max n s.stop) 0 = s'.stop := by
      rcases foldl_max_stop kept s.stop with heq | ⟨s', hs', heq⟩
      · exact ⟨s, by simp, heq⟩
      · exact ⟨s', by simp [hs'], heq⟩
    rw [← hkept, mem_filter, mem_map] at hs'
    obtain ⟨⟨i, hi, rfl⟩, -⟩ := hs'
    obtain ⟨-, hlt, hline⟩ := import_offLine hread hwell htypes hi
    rw [hkept, hstop]
    exact fits_insert (hcomplete.imports i hi).stop hlt hline (d := 'i') rfl (by decide) fun owed =>
      hlines.turns owed
  · next s rest _ =>
    obtain ⟨i, hi, rfl⟩ := hobsolete s (by simp)
    obtain ⟨⟨hlt, hline⟩, -⟩ := import_offLine hread hwell htypes hi
    exact fits_insert (hcomplete.imports i hi).start hlt hline (d := 'i') rfl (by decide)
      fun owed => hlines.turns owed
  · obtain ⟨type, htype⟩ := exists_mem_of_ne_nil _ htypes
    have hbraces := partner_lt_length (hunit.types type htype).braces
    have hbefore := (hunit.types type htype).start_lt
    have hle := importsEnd_le_start hread htype
    rw [hunit.masked_eq, length_mask] at hbraces
    exact fits_insert_newline hcomplete.importsEnd (by omega) rfl fun owed =>
      ((closed_text "\n" rfl).append hlines).turns owed

theorem ensures_updateImports (htypes : unit.types ≠ []) {needed}
    (hneeded : ∀ name ∈ needed, name.all isPlain = true) :
    Ensures (updateImports unit needed) p fun _ q => Drafts text p q := by
  simp only [updateImports]
  refine Ensures.get.bind ?_
  rintro s q ⟨hs, hqp⟩
  subst hs hqp
  have hremove : Ensures ((joinSpans ((unit.imports.filter (isObsolete unit q.draft)).map (·.span))).forM
      (removeImports unit.text)) q fun _ r => Drafts text q r :=
    .forM (.refl text) .trans fun span _ p => drafts_remove text _ _
  refine hremove.bind fun _ r hr => ?_
  split
  · next hmissing =>
    obtain ⟨name, names, heq⟩ : ∃ name names,
        sort (needed.eraseDups.filter fun name => !unit.hasImport name) = name :: names := by
      refine exists_cons_of_ne_nil fun hnil => ?_
      rw [hnil] at hmissing
      cases hmissing
    have hplain : ∀ n ∈ name :: names, n.all isPlain = true := by
      intro n hn
      rw [← heq, sort, mem_mergeSort, mem_filter, mem_eraseDups] at hn
      exact hneeded n hn.1
    rw [heq]
    refine (drafts_insert (fits_importLines hread hwell hcomplete htypes (fun span hspan => ?_) hplain)).mono
      fun _ s hs => hr.trans hs
    obtain ⟨i, hi, rfl⟩ := mem_map.1 hspan
    exact ⟨i, (mem_filter.1 hi).1, rfl⟩
  · exact .pure hr

/-! ## Files -/

theorem ensures_convertUnit : Ensures (convertUnit options unit) (start layouts text) fun _ q =>
    ∀ e ∈ q.draft.edits, Written text e := by
  have hall : classesOf unit = [] ++ classesOf unit := rfl
  refine (ensures_convertClasses hread hwell hcomplete hall rfl rfl).with_run.bind ?_
  rintro os q ⟨hrun, himports, hedits⟩
  have hedits : ∀ e ∈ q.draft.edits, Written text e := by
    intro e he
    exact (hedits e he).resolve_left (by simp [start, Draft.ofText])
  split
  · next hconverted =>
    -- a class was converted, so there is a type
    have htypes : unit.types ≠ [] := by
      intro hnil
      obtain ⟨rfl, hunit⟩ := placed_of_readUnit hread
      have hos := ((yields_convertClasses hunit rfl fun type h => mem_classesOf h).of_ok (sound_start _ layouts _) _ _
        hrun).2.1
      have hclasses : classesOf unit = [] := by simp [classesOf, hnil]
      rw [hclasses, map_nil, map_eq_nil_iff] at hos
      subst hos
      cases hconverted
    have hneeded : ∀ name ∈ os.flatMap (·.imports), name.all isPlain = true := by
      intro name hname
      obtain ⟨o, ho, hname⟩ := mem_flatMap.1 hname
      exact himports o ho name hname
    refine (ensures_updateImports hread hwell hcomplete htypes hneeded).bind fun _ r hr => .pure fun e he => ?_
    exact (hr.edits e he).elim (hedits e) id
  · exact .pure hedits

theorem fits_of_applied {out draft kept}
    (happlied : Applied options layouts text out unit draft kept) :
    ∀ e ∈ draft.effective kept, e.Fits text := by
  obtain ⟨p, hrun, rfl⟩ := happlied.recorded
  obtain ⟨rfl, hunit, hp, -, rs, imports, hrecord⟩ := record_of_run hread hrun
  have hresolved := Draft.resolved_of_resolve hp.orderly happlied.resolved
  intro e he
  have hmem : e ∈ p.draft.edits := by
    rcases mem_append.1 he with he | he
    · exact (Draft.mem_insertionsOutside.1 he).1
    · exact (hresolved.recorded he).1
  rcases ensures_convertUnit hread hwell hcomplete _ _ hrun e hmem with ⟨hlt, hempty⟩ | hfits
  · -- code that is taken out: only removals write nothing
    rcases (hrecord.mem_edits_iff hlt).1 hmem with ⟨r, hr, c, hc, rfl⟩ | ⟨c, hc, rfl⟩
    · have hsound := hrecord.sound r hr
      cases c with
      | removal s =>
        obtain ⟨hbound, plan, hplan, rfl, htype, hmakes⟩ :=
          exists_plan_of_mem_classChanges hunit hsound.type_mem hsound.changes_eq hc
        have hclass : r.type ∈ classesOf plan.unit := by
          rw [← hrecord.types]
          exact mem_map_of_mem hr
        have hsep := (hcomplete.classes r.type hclass hbound).separable
        rw [hunit.masked_eq, ← htype] at hsep
        exact hplan.fits_removal hcomplete.blocks hread hwell hsep hmakes
      | content s => exact absurd hempty (hsound.written s hc)
      | use s id =>
        obtain ⟨path, hdot, hpath⟩ := hsound.known s id hc
        have hnil : path = [] := by simpa [Change.edit, hpath] using hempty
        rw [hnil] at hdot
        cases hdot
    · obtain ⟨block, hblock, rfl⟩ := mem_map.1 (hrecord.obsolete c hc)
      obtain ⟨⟨i, hi, -, hstart⟩, j, hj, -, hstop⟩ := exists_imports_of_block hread hblock
      exact fits_removed_block hcomplete.blocks hread hwell (hrecord.types_ne_nil hc) hblock
        (hstart ▸ (hcomplete.imports i hi).start) (hstop ▸ (hcomplete.imports j hj).stop)
  · exact hfits

end

/-- Where the brackets of a file pair, they pair in the converted file too, if what is copied and taken out is complete
code. -/
theorem convert_wellBracketed {options : Options} {layouts : Keyed Text Bytes} {text : Text} {out : Outcome}
    (hcomplete : ∀ unit, Java.readUnit text = .ok unit → Complete options layouts unit)
    (hwell : WellBracketed (mask text)) (h : convert options layouts text = .ok out) :
    WellBracketed (mask out.text) := by
  obtain ⟨unit, draft, kept, happlied⟩ := applied_of_convert h
  have hfits := fits_of_applied happlied.read hwell (hcomplete unit happlied.read) happlied
  obtain ⟨p, hrun, rfl⟩ := happlied.recorded
  obtain ⟨-, -, hp, -⟩ := record_of_run happlied.read hrun
  have hresolved := Edit.Draft.resolved_of_resolve hp.orderly happlied.resolved
  rw [happlied.text_eq, ← hp.text_eq]
  rw [← hp.text_eq] at hwell hfits
  exact Edit.wellBracketed_of_fits hp.orderly hresolved hwell hfits

theorem complete_boundFragment (hread : readUnit boundFragment = .ok unit) :
    Complete toBinding [] unit := by
  have hfacts : ∃ unit ∈ (readUnit boundFragment).toOption, unit.text = boundFragment ∧
      unit.imports.map (·.span) = [⟨0, 22⟩] ∧ unit.importsEnd = 22 ∧
      ∀ type ∈ classesOf unit, (∀ f ∈ type.fields, SameLevel unit.masked f.span.start f.span.stop) ∧
        (∀ f ∈ type.fields, ∀ name ∈ f.names, ∀ b ∈ type.methods.filterMap Method.body,
          unbinderStatements unit.masked name b = []) ∧
        (∀ m ∈ type.methods, m.annotations = []) ∧
        (∀ anchor ∈ (Anchor.locate unit type).toOption, ∀ f ∈ anchor.fragment?,
          copiedCode unit f.2 = ["i".toList, "p".toList, "false".toList]) ∧
        (pathsOf toBinding [] unit type) = [("t".toList, "binding.t".toList)] := by
    unfold boundFragment
    repeat rewrite [String.toList_ofList]
    decide +kernel
  obtain ⟨unit', hread', htext, himports, hend, hclasses⟩ := hfacts
  obtain rfl : unit' = unit := Except.ok.inj ((toOption_eq_some.1 hread').symm.trans hread)
  have hboundary : Boundary boundFragment 22 :=
    ⟨(lexemes boundFragment).take 22, by decide +kernel, by decide +kernel⟩
  have hholder : toBinding.holder.all isNamePart = true := by decide +kernel
  refine ⟨by rw [htext]; decide +kernel, by decide, all_eq_true.1 hholder, by simp, fun i hi => ?_, ?_,
    fun type htype _ => ?_⟩
  · have hspan : i.span ∈ unit'.imports.map (·.span) := mem_map_of_mem hi
    rw [himports, mem_singleton] at hspan
    rw [htext, hspan]
    exact ⟨boundary_zero _, hboundary⟩
  · rw [htext, hend]
    exact hboundary
  · obtain ⟨hfields, hunbinders, hmethods, hcopied, hpaths⟩ := hclasses type htype
    refine ⟨⟨hfields, fun f hf name hname m hm b hb s hs => ?_⟩, fun m hm a ha => ?_,
      fun _ init content hlocate u hu => ?_, fun id way hway => ?_⟩
    · rw [hunbinders f hf name hname b (mem_filterMap.2 ⟨m, hm, hb⟩)] at hs
      cases hs
    · rw [hmethods m hm] at ha
      cases ha
    · rw [hcopied _ (toOption_eq_some.2 hlocate) _ rfl] at hu
      simp only [mem_cons, not_mem_nil, or_false] at hu
      rcases hu with rfl | rfl | rfl <;> exact .of_plain rfl (by simp; decide)
    · rw [hpaths, Keyed.get?_cons] at hway
      split at hway
      · obtain rfl := Option.some.inj hway
        exact closed_text "binding.t" rfl
      · cases hway

/-- The receiver and the arguments of the inflating call are copied. -/
theorem convert_wellBracketed_boundFragment :
    ∃ out, convert toBinding [] boundFragment = .ok out ∧ out.changed = true ∧ WellBracketed (mask out.text) := by
  obtain ⟨out, hout, hchanged⟩ : ∃ out, convert toBinding [] boundFragment = .ok out ∧ out.changed = true := by
    apply exists_convert
    unfold boundFragment
    repeat rewrite [String.toList_ofList]
    decide +kernel
  exact ⟨out, hout, hchanged, convert_wellBracketed (fun _ => complete_boundFragment) (by decide +kernel) hout⟩

/-- The comment that the converted fragment does not close takes the brackets behind it away. -/
theorem convert_not_wellBracketed : WellBracketed (mask remarkedInflate) ∧
    ∃ out, convert toBinding [] remarkedInflate = .ok out ∧ ¬ WellBracketed (mask out.text) := by
  refine ⟨by decide +kernel, ?_⟩
  apply exists_convert
  unfold remarkedInflate
  repeat rewrite [String.toList_ofList]
  decide +kernel

end Rebind.Conversion
