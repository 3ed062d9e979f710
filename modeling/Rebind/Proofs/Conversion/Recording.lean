/-
What a conversion records.

Each function of a conversion records the ranges that make its changes, and insertions besides; none
of its edits lies outside of the text.
-/
import Rebind.Proofs.Conversion.Listeners

namespace Rebind.Conversion

open Binding Java Text List

variable {W : Edit → Prop} {t content : Text} {plan : Plan} {p : Progress}

/-! ## Ways to views -/

theorem dot_mem_join : ∀ {parts}, 2 ≤ parts.length → '.' ∈ join "." parts
  | a :: b :: rest, _ => by simp [join, List.intercalate]

theorem yields_includeRoot (id : Text) (e : Markup.Element) :
    Yields W t (includeRoot plan id e) p fun _ q => Quiet p q := by
  refine (Yields.ask _).bind fun included q hrec => ?_
  split
  · refine (Yields.report _).bind fun _ r hrec' => ?_
    exact .pure (hrec.trans hrec')
  · split
    · exact .pure hrec
    · refine (Yields.repair _).bind fun found r hrec' => ?_
      split
      · exact .pure (hrec.trans hrec')
      · exact .pure (hrec.trans hrec')

variable {q : Progress} {m init : Method} {ss : List Statement} {screen : Screen} {statement : Statement}
  {text : Text}

theorem yields_insertPath {id path} (hrec : Quiet p q) (hid : p.paths.get? id = none) (hpath : '.' ∈ path) :
    Yields W t (do modify fun p => { p with paths := p.paths.insert id path }; return path : Conversion Text) q
      fun path q => q.paths.get? id = some path ∧ Quiet p q := by
  refine .of_run rfl (fun hq => ⟨hq.text_eq, hq.orderly, hq.inserted, fun id' path' h => ?_⟩)
    ⟨?_, hrec.edits, fun id' path' h => ?_, hrec.kept⟩
  · simp only [Keyed.get?_insert] at h
    split at h
    · exact Option.some.inj h ▸ hpath
    · exact hq.dotted id' path' h
  · simp [Keyed.get?_insert]
  · have hne : id' ≠ id := by
      rintro rfl
      simp [hid] at h
    simp only [Keyed.get?_insert, hne, if_false]
    exact hrec.paths id' path' h

theorem yields_accessPath (id : Text) :
    Yields W t (accessPath plan id) p fun path q => q.paths.get? id = some path ∧ Quiet p q := by
  refine Yields.get.bind ?_
  rintro s q ⟨hs, hqp⟩
  subst hs hqp
  split
  · next path hpath => exact .pure ⟨hpath, .refl q⟩
  · next hnone =>
    refine (Yields.ask _).bind fun found r hrec => ?_
    split
    · exact yields_insertPath hrec hnone (dot_mem_join (by simp))
    · split
      · refine (yields_includeRoot id _).bind fun root s hrec' => ?_
        exact yields_insertPath (hrec.trans hrec') hnone (dot_mem_join (by simp))
      · exact yields_insertPath hrec hnone (dot_mem_join (by simp))

theorem yields_registrations {target}
    (htarget : ∀ handler id, ∀ p, Yields W t (target handler id) p fun view q =>
      plan.Shows q.paths handler id view ∧ Quiet p q) :
    Yields W t (plan.registrations target) p fun listeners q =>
      plan.AreRegistered q.paths listeners ∧ Quiet p q := by
  refine Yields.mapM (R := fun (x : HandlerBinding × Text) u q =>
    ∃ view, plan.Shows q.paths x.1 x.2 view ∧ u = plan.registered x.1 view) ?_ ?_
  · rintro x u p q hquiet ⟨view, hview, rfl⟩
    exact ⟨view, hview.mono hquiet.paths, rfl⟩
  · rintro ⟨handler, id⟩ - p
    refine (htarget handler id p).bind ?_
    rintro view q ⟨hview, hrec⟩
    refine (Yields.needImports _).bind fun _ r hrec' => ?_
    exact .pure ⟨⟨view, hview.mono hrec'.paths, rfl⟩, hrec.trans hrec'⟩

/-! ## Conversion to a holder -/

theorem Plan.Placed.firstMember_le (h : plan.Placed t) : plan.type.firstMember.getD 0 ≤ t.length := by
  simp only [TypeDecl.firstMember]
  cases hm : plan.type.members with
  | nil => simp
  | cons m ms =>
    obtain ⟨-, h1, h2, -⟩ := h.type.members m (by simp [hm])
    have := h.body
    have := h.length_masked
    simp only [head?_cons, Option.map_some, Option.getD_some]
    omega

theorem Plan.Placed.statement_stop_le (h : plan.Placed t) {s}
    (hss : statements plan.unit m = .ok ss) (hs : s ∈ ss) : s.span.stop ≤ t.length := by
  simp only [statements] at hss
  split at hss
  · simp only [Except.ok.injEq] at hss
    simp [← hss] at hs
  · have := statementsFrom_spec hss s hs
    have hlt := this.start_lt_stop
    rw [← h.length_masked]
    exact this.endsCode.le_length (by omega)

/-- Where the holder of a class is declared: in front of the first member, on a line of its own if that is on one. -/
def holderPlace (t : Text) (type : TypeDecl) : Nat :=
  let first := type.firstMember.getD 0
  if isAllBlank (slice t (lineStart t first) first) then lineStart t first else first

def holderDeclaration (options : Options) (layout : Text) : Text :=
  "private " ++ Naming.bindingClassName layout ++ " " ++ options.holder ++ ";"

def DeclaresHolder (options : Options) (unit : CompilationUnit) (type : TypeDecl) (e : Edit) : Prop :=
  ∃ layout, ∃ front ∈ [[], type.memberIndent], ∃ behind ∈ ([" ", "\n", "\n\n"] : List Text),
    e = ⟨holderPlace unit.text type, holderPlace unit.text type, front ++ holderDeclaration options layout ++ behind⟩

/-- What a conversion inserts: the holders, code in methods or behind them, and imports. -/
inductive Inserts (options : Options) (unit : CompilationUnit) : Edit → Prop where
  | holder {type : TypeDecl} {e : Edit} (htype : type ∈ unit.types) (he : DeclaresHolder options unit type e) :
      Inserts options unit e
  | method {type : TypeDecl} {m : Method} {pos : Nat} {text : Text} (htype : type ∈ unit.types)
      (hm : m ∈ type.methods) (hstart : m.span.start < pos)
      (hstop : WellBracketed unit.masked → pos ≤ m.span.stop) : Inserts options unit ⟨pos, pos, text⟩
  | imports {obsolete : List Span} {text : Text} (hobsolete : ∀ s ∈ obsolete, ∃ i ∈ unit.imports, i.span = s) :
      Inserts options unit ⟨(importAnchor unit obsolete).1, (importAnchor unit obsolete).1, text⟩

abbrev Plan.Inserts (plan : Plan) : Edit → Prop := Conversion.Inserts plan.options plan.unit

/-- The class of the plan gets a holder of its own. -/
def Plan.Declares (plan : Plan) (draft : Edit.Draft) : Prop :=
  (∀ f ∈ plan.type.fields, plan.options.holder ∉ f.names) →
    ∃ e ∈ draft.edits, DeclaresHolder plan.options plan.unit plan.type e

theorem Plan.Declares.mono {p : Progress} (h : plan.Declares p.draft) (hkept : p.draft.edits ⊆ q.draft.edits) :
    plan.Declares q.draft := by
  intro hfields
  obtain ⟨e, he, hdeclares⟩ := h hfields
  exact ⟨e, hkept he, hdeclares⟩

theorem yields_declareHolder (h : plan.Placed t) :
    Yields plan.Inserts t (declareHolder plan) p fun _ q => Quiet p q ∧ plan.Declares q.draft := by
  have hle : holderPlace plan.unit.text plan.type ≤ t.length := by
    have hline := (lineStart_spec plan.unit.text (plan.type.firstMember.getD 0)).1
    have hfirst := h.firstMember_le
    simp only [holderPlace]
    split
    · omega
    · exact hfirst
  have insert : ∀ {front behind : Text}, front ∈ [[], plan.type.memberIndent] →
      behind ∈ ([" ", "\n", "\n\n"] : List Text) → Yields plan.Inserts t (Conversion.edit fun d =>
        d.insert (holderPlace plan.unit.text plan.type)
          (front ++ holderDeclaration plan.options plan.layout ++ behind)) p fun _ q =>
        Quiet p q ∧ plan.Declares q.draft := by
    intro front behind hfront hbehind
    have hdeclares : DeclaresHolder plan.options plan.unit plan.type ⟨holderPlace plan.unit.text plan.type,
        holderPlace plan.unit.text plan.type, front ++ holderDeclaration plan.options plan.layout ++ behind⟩ :=
      ⟨plan.layout, front, hfront, behind, hbehind, rfl⟩
    have hne : front ++ holderDeclaration plan.options plan.layout ++ behind ≠ [] :=
      append_ne_nil_of_left_ne_nil (append_ne_nil_of_right_ne_nil _
        (append_ne_nil_of_right_ne_nil _ (cons_ne_nil ';' []))) _
    exact (Yields.insert_mem hle (.holder h.type_mem hdeclares) hne).mono
      fun _ q ⟨hquiet, hmem⟩ => ⟨hquiet, fun _ => ⟨_, hmem, hdeclares⟩⟩
  simp only [declareHolder]
  split
  · next hany =>
    refine (Yields.report _).mono fun _ q hquiet => ⟨hquiet, fun hnone => ?_⟩
    simp only [any_eq_true, contains_iff_mem] at hany
    obtain ⟨f, hf, hname⟩ := hany
    exact absurd hname (hnone f hf)
  · split
    · next hblank =>
      simp only [holderPlace, hblank, if_true] at insert
      refine insert (by simp) ?_
      split <;> simp
    · next hblank =>
      simp only [holderPlace, hblank] at insert
      exact @insert [] " " (by simp) (by simp)

theorem lt_lineStart {i j c} (hc : t[i]? = some c) (hsolid : isBlank c = false) (hij : i < j)
    (hblank : isAllBlank (slice t (lineStart t j) j) = true) : i < lineStart t j := by
  apply Classical.byContradiction
  intro hle
  have := isAllBlank_slice.1 hblank i c (by omega) hij hc
  rw [hsolid] at this
  cases this

theorem yields_releaseIn (h : plan.Placed t) {release body} (hm : m ∈ plan.type.methods)
    (hb : m.body = some body) (hss : statements plan.unit m = .ok ss) :
    Yields plan.Inserts t (releaseIn plan release m body ss) p fun _ q => Quiet p q := by
  obtain ⟨-, -, -, hplaced⟩ := h.type.method hm
  obtain ⟨hbraces, hstart, hstop, -⟩ := hplaced.body body hb
  obtain ⟨-, -, hlt, hclosing⟩ := h.type.methodBody hm hb
  have := h.body
  have := h.length_masked
  simp only [releaseIn]
  split
  · next s hs =>
    have hmem := mem_of_find?_eq_some hs
    have hstopLe := h.statement_stop_le hss hmem
    simp only [statements, hb] at hss
    have hs := statementsFrom_spec hss s hmem
    have := hs.le_start
    have := hs.start_lt
    have := hs.start_lt_stop
    exact .insert hstopLe (.method h.type_mem hm (by omega) fun hwell =>
      Nat.le_trans (hs.reaches.within _ hwell hbraces (by omega) (by omega)) (by omega))
  · split
    · next hblank =>
      have hbrace := hplaced.brace body hb
      rw [h.unit.masked_eq] at hbrace
      have hline := lt_lineStart (getElem?_of_mask hbrace (by decide)) (by decide) hlt hblank
      have hle := (lineStart_spec plan.unit.text body.closing).1
      exact .insert (by omega) (.method h.type_mem hm (by omega) fun _ => by omega)
    · exact .insert (by omega) (.method h.type_mem hm (by omega) fun _ => by omega)

theorem yields_addTeardown (h : plan.Placed t)
    (hinit : init ∈ plan.type.methods) :
    Yields plan.Inserts t (addTeardown plan screen init) p fun _ q => Quiet p q := by
  simp only [addTeardown]
  split
  · next method rest hmethods =>
    have hmem : method ∈ plan.type.methods :=
      (mem_filter.1 (show method ∈ plan.type.methodsNamed _ _ by rw [hmethods]; simp)).1
    refine Yields.read.bind ?_
    rintro ss q ⟨hss, hqp⟩
    subst hqp
    split
    · exact .pure (.refl q)
    · split
      · next body hbody => exact yields_releaseIn h hmem hbody hss
      · exact .pure (.refl q)
  · obtain ⟨-, hlt, hstop, -⟩ := h.type.method hinit
    have := h.body
    have := h.length_masked
    exact .insert (by omega) (.method h.type_mem hinit (by omega) fun _ => Nat.le_refl _)

theorem yields_replaceEach (content : Text) {id path} : ∀ {us : List Span} {p},
    p.paths.get? id = some path → (∀ u ∈ us, u.start < u.stop ∧ u.stop ≤ t.length) →
    Yields W t (us.forM fun use => Conversion.edit fun d => d.replace use.start use.stop path) p fun _ q =>
      Records t content p q (us.map (.use · id))
  | [], p, _, _ => .pure (.of_quiet (.refl p))
  | u :: us, p, hpath, hus => by
    obtain ⟨hlt, hstop⟩ := hus u (by simp)
    refine (Yields.replace_change content (c := .use u id) hlt hstop (by simp [Change.edit, hpath])
      (fun s id' heq => ⟨path, (Change.use.inj heq).2 ▸ hpath⟩) (by simp)).bind fun _ q hrec => ?_
    refine (yields_replaceEach content (hrec.paths id path hpath) (forall_mem_cons.1 hus).2).mono
      fun _ r hrec' => ?_
    exact hrec.trans hrec'

theorem yields_replaceUses (content : Text) (h : plan.Placed t) {field : FieldBinding}
    (hfield : field ∈ plan.bindings.fields) :
    Yields W t (replaceUses plan field) p fun _ q =>
      ∃ cs, plan.useChanges field = .ok cs ∧ Records t content p q cs := by
  simp only [replaceUses]
  refine (yields_accessPath field.id).bind ?_
  rintro path q ⟨hpath, hquiet⟩
  refine Yields.read.bind ?_
  rintro hidden r ⟨hhidden, hrq⟩
  subst hrq
  have hus : plan.visibleUses field.name = _ := bind_pure_eq_ok.2 ⟨hidden, hhidden, rfl⟩
  generalize filter _ _ = us at hus ⊢
  refine (yields_replaceEach content hpath fun u hu => ?_).mono fun _ s hrec => ?_
  · obtain ⟨name, -, huse⟩ := h.use_placed hfield hus hu
    have := huse.stop_le
    have := h.body
    have := h.length_masked
    exact ⟨huse.start_lt, by omega⟩
  · exact ⟨_, by simp only [Plan.useChanges, hus]; rfl, .quiet_trans hquiet hrec⟩

theorem yields_removeDeclaration (content : Text) (h : plan.Placed t) (field : FieldBinding) :
    Yields W t (removeDeclaration plan field) p fun _ q => Records t content p q (plan.declarationChanges field) := by
  simp only [removeDeclaration, Plan.declarationChanges]
  split
  · next f hf =>
    rw [hf]
    exact .remove content (h.length_masked ▸ (h.marked_field (h.drawn.declarations _ f hf).1).1)
  · next hf =>
    rw [hf]
    exact .pure (.of_quiet (.refl p))

theorem Plan.Placed.content_text (h : plan.Placed t) (ha : plan.anchor = .content screen init statement) :
    statement.text = slice t statement.span.start statement.span.stop ∧ statement.text ≠ [] := by
  obtain ⟨-, ss, hss, hmem⟩ := h.content_mem ha
  obtain ⟨-, b, hb, hplaced⟩ := h.content ha
  have hlt := hplaced.start_lt_stop
  have hstop := h.statement_stop_le hss hmem
  simp only [statements, hb] at hss
  have htext := text_of_mem_statementsFrom hss statement hmem
  rw [h.text_eq] at htext
  refine ⟨htext, fun hnil => ?_⟩
  have hlen := congrArg List.length htext
  rw [hnil, length_slice, length_nil] at hlen
  omega

theorem drop_join_ne_nil {sep pad parts} (h : pad ++ text ∈ parts) (htext : text ≠ []) :
    (join sep parts).drop pad.length ≠ [] := by
  intro hnil
  have hle := drop_eq_nil_iff.1 hnil
  have hpart := @length_le_join sep _ _ h
  have hpos := length_pos_iff.2 htext
  rw [length_append] at hpart
  omega

theorem yields_replaceContent (h : plan.Placed t) (ha : plan.anchor = .content screen init statement)
    (before : List Text) (htext : text ≠ []) (after : List Text) :
    Yields W t (plan.replaceContent statement before text after) p fun _ q =>
      Records t (plan.rewritten before text after) p q [.content statement.span] := by
  obtain ⟨-, b, -, hplaced⟩ := h.content ha
  have hlt := hplaced.start_lt_stop
  have hstop : statement.span.stop ≤ t.length := by
    rw [← h.length_masked]
    exact hplaced.endsCode.le_length (by omega)
  simp only [Plan.replaceContent, Plan.rewritten, Plan.pad, ha]
  exact Yields.replace_change _ (c := .content statement.span) hlt hstop rfl (by simp)
    fun _ _ => drop_join_ne_nil (by simp) htext

/-- What follows the new content statement: the holder is let go, and the fields go with their uses. -/
theorem yields_retireFields (content : Text) (h : plan.Placed t)
    (hinit : init ∈ plan.type.methods) :
    Yields plan.Inserts t (do
      addTeardown plan screen init
      plan.bindings.fields.forM (replaceUses plan)
      plan.bindings.fields.forM (removeDeclaration plan)) p fun _ q =>
        ∃ uses, gather plan.useChanges plan.bindings.fields = .ok uses ∧
          Records t content p q (uses ++ plan.bindings.fields.flatMap plan.declarationChanges) := by
  refine (yields_addTeardown h hinit).bind fun _ q hquiet => ?_
  refine (Yields.forM_gather content fun f hf p => yields_replaceUses content h hf).bind ?_
  rintro _ r ⟨uses, huses, hrec⟩
  refine (Yields.forM_flatMap content fun f _ p => yields_removeDeclaration content h f).mono
    fun _ s hrec' => ?_
  exact ⟨uses, huses, .quiet_trans hquiet (hrec.trans hrec')⟩

theorem inflation?_spec {inflation : Inflation} (h : inflation? plan screen init statement = .ok (some inflation)) :
    inflation.statement ≠ [] ∧ ∃ u, inflation.before = [u] ∧ '=' ∈ u := by
  cases screen with
  | activity =>
    simp only [inflation?, activityInflation?] at h
    split at h
    · simp at h
    · obtain ⟨closing, -, h⟩ := bind_eq_ok.1 h
      simp only [pure_eq_ok, Option.some.injEq] at h
      simp [← h]
  | fragment =>
    simp only [inflation?, fragmentInflation?] at h
    split at h
    · simp at h
    · obtain ⟨closing, -, h⟩ := bind_eq_ok.1 h
      simp only [pure_eq_ok, Option.some.injEq] at h
      simp [← h]

theorem yields_convertToHolder (h : plan.Placed t) (hmode : plan.options.mode = .viewBinding) :
    Yields plan.Inserts t (convertToHolder plan) p fun _ q =>
      ∃ content cs, plan.holderChanges = .ok cs ∧ Records t content p q cs ∧ plan.Sets q.paths cs content ∧
        (cs ≠ [] → plan.Declares q.draft) := by
  cases ha : plan.anchor with
  | content screen init statement =>
    simp only [convertToHolder, ha]
    refine Yields.read.bind ?_
    rintro inflation q ⟨hread, hqp⟩
    subst hqp
    cases inflation with
    | none =>
      have hchanges : plan.holderChanges = .ok [] := by
        simp only [Plan.holderChanges, ha, hread]
        rfl
      exact (Yields.report _).mono fun _ r hquiet =>
        ⟨[], [], hchanges, .of_quiet hquiet, by simp [Plan.Sets], by simp⟩
    | some inflation =>
      have hchanges : ∀ {uses}, gather plan.useChanges plan.bindings.fields = .ok uses → plan.holderChanges =
          .ok (.content statement.span :: uses ++ plan.bindings.fields.flatMap plan.declarationChanges) := by
        intro uses huses
        simp only [Plan.holderChanges, ha, hread]
        exact bind_eq_ok.2 ⟨_, rfl, bind_eq_ok.2 ⟨uses, huses, rfl⟩⟩
      refine (yields_declareHolder h).bind fun _ r ⟨hquiet, hdeclares⟩ => ?_
      have hshows : ∀ {q : Progress} {handler : HandlerBinding} {id view : Text},
          q.paths.get? id = some view → plan.Shows q.paths handler id view := by
        intro q handler id view hview
        rwa [Plan.Shows, hmode]
      refine (yields_registrations fun handler id p =>
        (yields_accessPath id).mono fun _ q hq => ⟨hshows hq.1, hq.2⟩).bind ?_
      rintro listeners s ⟨hlisteners, hquiet'⟩
      -- the content statement is rewritten in one of two ways; what follows is the same
      have rest : ∀ before text after, text ≠ [] → plan.Registers s.paths (plan.rewritten before text after) →
          Yields plan.Inserts t (do
            plan.replaceContent statement before text after
            addTeardown plan screen init
            plan.bindings.fields.forM (replaceUses plan)
            plan.bindings.fields.forM (removeDeclaration plan)) s fun _ u =>
              ∃ content cs, plan.holderChanges = .ok cs ∧ Records t content q u cs ∧ plan.Sets u.paths cs content ∧
                (cs ≠ [] → plan.Declares u.draft) := by
        intro before text after htext hregisters
        refine (yields_replaceContent h ha before htext after).bind fun _ u hrec => ?_
        refine (yields_retireFields (plan.rewritten before text after) h (h.content ha).1).mono ?_
        rintro _ v ⟨uses, huses, hrec'⟩
        exact ⟨_, _, hchanges huses, .quiet_trans (hquiet.trans hquiet') (hrec.trans hrec'),
          fun _ => (hregisters.mono hrec.paths).mono hrec'.paths,
          fun _ => ((hdeclares.mono hquiet'.kept).mono hrec.kept).mono hrec'.kept⟩
      obtain ⟨hstatement, u, hbefore, hu⟩ := inflation?_spec hread
      split
      · rw [hbefore, singleton_append]
        exact rest _ _ _ hstatement (Plan.registers_before hlisteners hu [] _)
      · have hfront : ∀ v ∈ [u], '=' ∈ v := by simpa using hu
        have hafter := Plan.registers_after hlisteners hfront inflation.statement [] []
        rw [nil_append, append_nil, ← hbefore] at hafter
        exact rest _ _ _ hstatement hafter
  | noMethod =>
    simp only [convertToHolder, Plan.holderChanges, ha]
    exact .pure ⟨[], [], rfl, .of_quiet (.refl p), by simp [Plan.Sets], by simp⟩
  | noContent screen method =>
    simp only [convertToHolder, Plan.holderChanges, ha]
    exact .pure ⟨[], [], rfl, .of_quiet (.refl p), by simp [Plan.Sets], by simp⟩

/-! ## Conversion to look-ups -/

theorem run_lookupTarget (plan : Plan) (receiver : Text) (handler : HandlerBinding) (id : Text) (p : Progress) :
    ∃ names, (lookupTarget plan receiver handler id).run p =
      .ok (lookupView plan receiver handler id, { p with imports := p.imports ++ names }) := by
  simp only [lookupTarget, lookupView, BindingSet.target]
  cases plan.bindings.fieldsById.get? id with
  | some field => exact ⟨[], by rw [append_nil]; rfl⟩
  | none =>
    simp only [targetView]
    cases receiverType? handler.kind with
    | none => exact ⟨[], by rw [append_nil]; rfl⟩
    | some type => exact ⟨_, rfl⟩

theorem yields_lookupTarget (receiver : Text) (handler : HandlerBinding) (id : Text) :
    Yields W t (lookupTarget plan receiver handler id) p fun view q =>
      view = lookupView plan receiver handler id ∧ Quiet p q := by
  obtain ⟨names, hrun⟩ := run_lookupTarget plan receiver handler id p
  exact .of_run hrun (·.of_eq rfl rfl) ⟨rfl, .of_eq rfl rfl⟩

theorem lookupStatement_ne_nil {content receiver new tail}
    (h : lookupFrame? screen content = some (receiver, new, tail)) (hcontent : content ≠ []) :
    new.getD content ≠ [] := by
  unfold lookupFrame? at h
  split at h
  · cases h
    exact hcontent
  · split at h
    · cases h
      exact hcontent
    · split at h
      · cases h
        simp
      · cases h

theorem yields_convertToLookups (h : plan.Placed t) (hmode : plan.options.mode = .findViewById) :
    Yields W t (convertToLookups plan) p fun _ q => ∃ content,
      Records t content p q plan.lookupChanges ∧ plan.Sets q.paths plan.lookupChanges content := by
  cases ha : plan.anchor with
  | content screen init statement =>
    cases hf : lookupFrame? screen statement.text with
    | none =>
      simp only [convertToLookups, Plan.lookupChanges, ha, hf]
      exact (Yields.report _).mono fun _ q hquiet => ⟨[], .of_quiet hquiet, by simp [Plan.Sets]⟩
    | some frame =>
      obtain ⟨receiver, new, tail⟩ := frame
      have hreceiver : plan.receiver? = some receiver := by
        simp only [Plan.receiver?, ha, hf]
        rfl
      have hshows : ∀ {q : Progress} {handler : HandlerBinding} {id view : Text},
          view = lookupView plan receiver handler id → plan.Shows q.paths handler id view := by
        intro q handler id view hview
        rw [Plan.Shows, hmode]
        exact ⟨receiver, hreceiver, hview⟩
      simp only [convertToLookups, Plan.lookupChanges, ha, hf]
      refine (yields_registrations fun handler id p =>
        (yields_lookupTarget _ handler id).mono fun _ q hq => ⟨hshows hq.1, hq.2⟩).bind ?_
      rintro listeners q ⟨hlisteners, hquiet⟩
      have hempty : listeners.isEmpty = plan.bindings.registrations.isEmpty := by
        rw [Bool.eq_iff_iff, isEmpty_iff_length_eq_zero, isEmpty_iff_length_eq_zero, hlisteners.length_eq]
      simp only [isEmpty_map, hempty]
      split
      · exact .pure ⟨[], .of_quiet hquiet, by simp [Plan.Sets]⟩
      · refine (yields_replaceContent h ha _ (lookupStatement_ne_nil hf (h.content_text ha).2) _).mono
          fun _ r hrec => ⟨_, .quiet_trans hquiet hrec, fun _ => ?_⟩
        exact (Plan.registers_after hlisteners (by simp) _ _ _).mono hrec.paths
  | noMethod =>
    simp only [convertToLookups, Plan.lookupChanges, ha]
    exact .pure ⟨[], .of_quiet (.refl p), by simp [Plan.Sets]⟩
  | noContent screen method =>
    simp only [convertToLookups, Plan.lookupChanges, ha]
    exact .pure ⟨[], .of_quiet (.refl p), by simp [Plan.Sets]⟩

/-! ## Taking out what bound the views -/

theorem yields_removeBindCall (content : Text) (h : plan.Placed t) {b}
    (hm : m ∈ plan.type.methods) (hb : m.body = some b) {call}
    (hcall : call ∈ allMatches plan.unit.masked b.opening b.closing Before.unqualified bindCall?) :
    Yields W t (removeBindCall plan m b call) p fun _ q =>
      ∃ cs, plan.bindCallChanges b call = .ok cs ∧ Records t content p q cs := by
  simp only [removeBindCall]
  refine Yields.read.bind ?_
  rintro closing q ⟨hread, hqp⟩
  subst hqp
  split
  · next hif =>
    let s : Span := ⟨call.start, skipBlanks plan.unit.masked (closing + 1) b.closing + 1⟩
    have hchanges : plan.bindCallChanges b call = .ok [.removal s] := by
      exact bind_eq_ok.2 ⟨closing, hread, if_pos hif⟩
    obtain ⟨_, ⟨rfl⟩, hmarked, -⟩ := h.bindCall_within hm hb hcall hchanges (mem_singleton.2 rfl)
    have hstop : s.stop ≤ t.length := h.length_masked ▸ hmarked.1
    exact (Yields.remove content hstop).mono fun _ r hrec => ⟨_, hchanges, hrec⟩
  · next hif =>
    have hchanges : plan.bindCallChanges b call = .ok [] := by
      exact bind_eq_ok.2 ⟨closing, hread, if_neg hif⟩
    exact (Yields.report _).mono fun _ r hquiet => ⟨[], hchanges, .of_quiet hquiet⟩

theorem yields_removeBindCalls (content : Text) (h : plan.Placed t) (hm : m ∈ plan.type.methods) :
    Yields W t (removeBindCalls plan m) p fun _ q =>
      ∃ cs, plan.bindCallsChanges m = .ok cs ∧ Records t content p q cs := by
  cases hb : m.body with
  | none =>
    simp only [removeBindCalls, Plan.bindCallsChanges, hb]
    exact .pure ⟨[], rfl, .of_quiet (.refl p)⟩
  | some b =>
    simp only [removeBindCalls, Plan.bindCallsChanges, hb]
    exact .forM_gather content fun call hcall p => yields_removeBindCall content h hm hb hcall

theorem yields_removeUnbinder (content : Text) (h : plan.Placed t) {field : Field}
    (hf : field ∈ plan.type.fields) :
    Yields W t (removeUnbinder plan field) p fun _ q => Records t content p q (plan.unbinderChanges field) := by
  refine (Yields.remove content (h.length_masked ▸ (h.marked_field hf).1)).bind fun _ q hrec => ?_
  refine (Yields.forM_flatMap content fun name _ p => ?_).mono fun _ r hrec' => hrec.trans hrec'
  refine .forM_flatMap content fun b hb p => ?_
  obtain ⟨m, hm, hb⟩ := mem_filterMap.1 hb
  exact .forM_remove content fun s hs => h.length_masked ▸ (h.unbinderStatement_within hm hb hs).1.1

theorem yields_removeBinding (content : Text) (h : plan.Placed t)
    (hsupported : plan.bindings.unsupported.isEmpty = true) : Yields W t (removeBinding plan) p fun _ q =>
      ∃ cs, plan.bindingChanges = .ok cs ∧ Records t content p q cs := by
  simp only [removeBinding, Plan.bindingChanges, hsupported]
  refine (Yields.forM_gather content fun m hm p => yields_removeBindCalls content h hm).bind ?_
  rintro _ q ⟨calls, hcalls, hrec⟩
  refine (Yields.forM_flatMap content fun f hf p =>
    yields_removeUnbinder content h (mem_filter.1 hf).1).mono fun _ r hrec' => ?_
  exact ⟨_, bind_eq_ok.2 ⟨calls, hcalls, rfl⟩, hrec.trans hrec'⟩

/-! ## Classes -/

theorem yields_checkIds : Yields W t (checkIds plan) p fun _ q => Quiet p q := by
  simp only [checkIds]
  split
  · refine (Yields.repair _).bind fun reports q hquiet => ?_
    exact (Yields.forM fun _ _ p => .report _).mono fun _ r hquiet' => hquiet.trans hquiet'
  · exact .pure (.refl p)

theorem yields_convertPlanned (h : plan.Placed t) :
    Yields plan.Inserts t (convertPlanned plan) p fun _ q =>
    ∃ content cs ms, plan.changes = .ok cs ∧ Records t content p q cs ∧ plan.modeChanges = .ok ms ∧
      plan.Sets q.paths ms content ∧ (plan.options.mode = .viewBinding → ms ≠ [] → plan.Declares q.draft) := by
  refine yields_checkIds.bind fun _ q hquiet => ?_
  refine (Yields.forM_remove [] fun a ha => h.length_masked ▸ (h.marked_annotation ha).1).bind
    fun _ r hannotations => ?_
  have hannotations := fun content => hannotations.content_irrelevant (by simp) content
  -- what either mode records, and what is taken out behind it
  have rest : ∀ {x : Conversion Unit}, Yields plan.Inserts t x r (fun _ s =>
        ∃ content cs, plan.modeChanges = .ok cs ∧ Records t content r s cs ∧ plan.Sets s.paths cs content ∧
          (plan.options.mode = .viewBinding → cs ≠ [] → plan.Declares s.draft)) →
      Yields plan.Inserts t (do
        x
        if plan.bindings.unsupported.isEmpty then removeBinding plan
        else plan.note (annotationList plan.bindings.unsupported ++ " not converted; ButterKnife.bind kept")) r
        fun _ u => ∃ content cs ms, plan.changes = .ok cs ∧ Records t content p u cs ∧ plan.modeChanges = .ok ms ∧
          plan.Sets u.paths ms content ∧ (plan.options.mode = .viewBinding → ms ≠ [] → plan.Declares u.draft) := by
    intro x hx
    refine hx.bind ?_
    rintro _ s ⟨content, converted, hconverted, hrec, hsets, hdeclares⟩
    have assembled : ∀ {u : Progress} {unbound : List Change}, plan.bindingChanges = .ok unbound →
        Records t content s u unbound → ∃ content cs ms, plan.changes = .ok cs ∧ Records t content p u cs ∧
          plan.modeChanges = .ok ms ∧ plan.Sets u.paths ms content ∧
          (plan.options.mode = .viewBinding → ms ≠ [] → plan.Declares u.draft) :=
      fun hunbound hrec' =>
        ⟨content, _, converted, bind_eq_ok.2 ⟨converted, hconverted, bind_eq_ok.2 ⟨_, hunbound, rfl⟩⟩,
          .quiet_trans hquiet (((hannotations content).trans hrec).trans hrec'), hconverted,
          fun hs => (hsets hs).mono hrec'.paths, fun hmode hne => (hdeclares hmode hne).mono hrec'.kept⟩
    split
    · next hsupported =>
      refine (yields_removeBinding content h hsupported).mono ?_
      rintro _ u ⟨unbound, hunbound, hrec'⟩
      exact assembled hunbound hrec'
    · next hsupported =>
      exact (Yields.report _).mono fun _ u hquiet' =>
        assembled (by simp only [Plan.bindingChanges, hsupported]; rfl) (.of_quiet hquiet')
  cases hmode : plan.options.mode with
  | viewBinding =>
    simp only [Plan.modeChanges, hmode] at rest ⊢
    refine rest ((yields_convertToHolder h hmode).mono ?_)
    rintro _ s ⟨content, cs, hcs, hrec, hsets, hdeclares⟩
    exact ⟨content, cs, hcs, hrec, hsets, fun _ => hdeclares⟩
  | findViewById =>
    simp only [Plan.modeChanges, hmode] at rest ⊢
    refine rest ((yields_convertToLookups h hmode).mono ?_)
    rintro _ s ⟨content, hrec, hsets⟩
    exact ⟨content, _, rfl, hrec, hsets, by simp⟩

/-! ### The layout plays no part -/

theorem Plan.holderChanges_layout (plan : Plan) (layout : Text) :
    Plan.holderChanges { plan with layout } = plan.holderChanges := by
  cases ha : plan.anchor with
  | content screen init statement =>
    simp only [Plan.holderChanges, ha, inflation?]
    cases screen with
    | activity =>
      simp only [activityInflation?]
      split
      · rfl
      · cases hp : partner plan.unit.masked _ <;> rfl
    | fragment =>
      simp only [fragmentInflation?]
      split
      · rfl
      · cases hp : partner plan.unit.masked _ <;> rfl
  | noMethod | noContent screen method => simp only [Plan.holderChanges, ha]

theorem Plan.modeChanges_layout (plan : Plan) (layout : Text) :
    Plan.modeChanges { plan with layout } = plan.modeChanges := by
  simp only [Plan.modeChanges, Plan.holderChanges_layout]
  rfl

theorem Plan.changes_layout (plan : Plan) (layout : Text) :
    Plan.changes { plan with layout } = plan.changes := by
  simp only [Plan.changes, Plan.modeChanges_layout]
  rfl

end Rebind.Conversion
