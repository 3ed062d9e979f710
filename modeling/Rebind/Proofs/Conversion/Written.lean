/-
What the steps of a conversion write.

A step that succeeds only takes code out or records edits that fit, as far as the ways to the views are closed code
(`Writes`). Step by step it is shown of all that a plan does (`ensures_convertPlanned`).
-/
import Rebind.Proofs.Conversion.Content
import Rebind.Proofs.Conversion.Names
import Rebind.Proofs.Layout.Files

namespace Rebind.Conversion

open Binding Edit Java Text List Option Bool Conversion

variable {e : Edit} {text id : Text} {handler : HandlerBinding}

/-! ## What is written -/

def Written (t : Text) (e : Edit) : Prop := (e.start < e.stop ∧ e.text = []) ∨ e.Fits t

/-- The ways to the views are closed code that starts with the holder. -/
def Known (holder : Text) (p : Progress) : Prop :=
  ∀ id way, p.paths.get? id = some way → Closed way ∧ holder <+: way

/-- What is recorded between two states is written as it should be, the files of the project stay what they are, ways
stay known and new ones start with the holder, and new imports are of plain names. -/
structure Writes (t holder : Text) (p q : Progress) : Prop where
  files : q.layouts.files = p.layouts.files
  paths : ∀ id way, p.paths.get? id = some way → q.paths.get? id = some way
  ways : ∀ id way, q.paths.get? id = some way → p.paths.get? id = some way ∨ holder <+: way
  imports : ∀ name ∈ q.imports, name ∈ p.imports ∨ name.all isPlain = true
  edits : Known holder q → ∀ e ∈ q.draft.edits, e ∈ p.draft.edits ∨ Written t e

namespace Writes

variable {t holder : Text} {p q r : Progress}

theorem of_eq (hdraft : q.draft = p.draft) (hfiles : q.layouts.files = p.layouts.files) (hpaths : q.paths = p.paths)
    (himports : q.imports = p.imports) : Writes t holder p q where
  files := hfiles
  paths id way h := by rwa [hpaths]
  ways id way h := by rw [hpaths] at h; exact .inl h
  imports name h := by rw [himports] at h; exact .inl h
  edits _ e h := by rw [hdraft] at h; exact .inl h

theorem refl (t holder : Text) (p : Progress) : Writes t holder p p := of_eq rfl rfl rfl rfl

theorem known (h : Writes t holder p q) (hq : Known holder q) : Known holder p :=
  fun id way hway => hq id way (h.paths id way hway)

theorem trans (h : Writes t holder p q) (h' : Writes t holder q r) : Writes t holder p r where
  files := h'.files.trans h.files
  paths id way hway := h'.paths id way (h.paths id way hway)
  ways id way hway := (h'.ways id way hway).elim (h.ways id way) .inr
  imports name hname := (h'.imports name hname).elim (h.imports name) .inr
  edits hknown e he := (h'.edits hknown e he).elim (h.edits (h'.known hknown) e) .inr

theorem of_edits (hpaths : q.paths = p.paths) (hfiles : q.layouts.files = p.layouts.files)
    (himports : q.imports = p.imports) (hedits : q.draft.edits = p.draft.edits ++ [e])
    (he : Known holder p → Written t e) : Writes t holder p q where
  files := hfiles
  paths id way h := by rwa [hpaths]
  ways id way h := by rw [hpaths] at h; exact .inl h
  imports name h := by rw [himports] at h; exact .inl h
  edits hknown f hf := by
    rw [hedits, mem_append, mem_singleton] at hf
    rcases hf with hf | rfl
    · exact .inl hf
    · exact .inr (he fun id way hway => hknown id way (by rwa [hpaths]))

end Writes

/-- Nothing but edits is recorded between two states, and all of them as it should be. -/
structure Drafts (t : Text) (p q : Progress) : Prop where
  same : q = { p with draft := q.draft }
  edits : ∀ e ∈ q.draft.edits, e ∈ p.draft.edits ∨ Written t e

namespace Drafts

variable {t holder : Text} {p q r : Progress}

theorem refl (t : Text) (p : Progress) : Drafts t p p := ⟨rfl, fun _ he => .inl he⟩

theorem trans (h : Drafts t p q) (h' : Drafts t q r) : Drafts t p r := by
  refine ⟨?_, fun e he => (h'.edits e he).elim (h.edits e) .inr⟩
  rw [h'.same, h.same]

theorem of_edits (hsame : q = { p with draft := q.draft }) (hedits : q.draft.edits = p.draft.edits ++ [e])
    (he : Written t e) : Drafts t p q := by
  refine ⟨hsame, fun f hf => ?_⟩
  rw [hedits, mem_append, mem_singleton] at hf
  rcases hf with hf | rfl
  · exact .inl hf
  · exact .inr he

theorem writes (h : Drafts t p q) : Writes t holder p q := by
  have hsame := h.same
  refine ⟨?_, fun id way hway => ?_, fun id way hway => .inl ?_, fun name hname => .inl ?_, fun _ => h.edits⟩
  · rw [hsame]
  · rw [hsame]
    exact hway
  · rw [hsame] at hway
    exact hway
  · rw [hsame] at hname
    exact hname

end Drafts

/-! ### Elementary steps -/

section Steps

variable {α β : Type} {t holder : Text} {p : Progress}

theorem ensures_report (t holder line : Text) :
    Ensures (report line) p fun _ q => Writes t holder p q ∧ q.paths = p.paths :=
  .of_run rfl ⟨.of_eq rfl rfl rfl rfl, rfl⟩

theorem ensures_needImports {names} (h : ∀ name ∈ names, name.all isPlain = true) :
    Ensures (needImports names) p fun _ q => Writes t holder p q := by
  refine .of_run rfl ⟨rfl, fun _ _ h => h, fun _ _ h => .inl h, fun name hname => ?_, fun _ e he => .inl he⟩
  exact (mem_append.1 hname).imp_right (h name)

theorem ensures_ask (t holder : Text) {f : Layout.Session → α × Layout.Session} (h : ∀ s, (f s).2.files = s.files) :
    Ensures (ask f) p fun _ q => Writes t holder p q ∧ q.paths = p.paths :=
  .of_run rfl ⟨.of_eq rfl (h p.layouts) rfl rfl, rfl⟩

theorem ensures_repair (t holder : Text) {r : Layout.Repair α} (h : ∀ files, r.Keeps (·.files = files)) :
    Ensures (repair r) p fun _ q => Writes t holder p q ∧ q.paths = p.paths := by
  refine Ensures.repair.mono fun _ q hq => ?_
  subst hq
  exact ⟨.of_eq rfl (h _ p.layouts rfl) rfl rfl, rfl⟩

theorem ensures_replace {start stop} (h : Known holder p → Written t ⟨start, stop, text⟩) :
    Ensures (edit fun d => d.replace start stop text) p fun _ q => Writes t holder p q := by
  refine Ensures.edit.mono ?_
  rintro _ q ⟨d, hd, hq⟩
  subst hq
  simp only [Draft.replace] at hd
  split at hd
  · cases hd
  · cases hd
    exact .of_edits rfl rfl rfl rfl h

variable {pos : Nat}

theorem drafts_insert (h : Fits t ⟨pos, pos, text⟩) :
    Ensures (edit fun d => d.insert pos text) p fun _ q => Drafts t p q := by
  refine Ensures.edit.mono ?_
  rintro _ q ⟨d, hd, hq⟩
  subst hq
  simp only [Draft.insert, Draft.replace] at hd
  split at hd
  · cases hd
    exact .refl t p
  · split at hd
    · cases hd
    · cases hd
      exact .of_edits rfl rfl (.inr h)

theorem ensures_insert (h : Fits t ⟨pos, pos, text⟩) :
    Ensures (edit fun d => d.insert pos text) p fun _ q => Writes t holder p q :=
  (drafts_insert h).mono fun _ _ hq => hq.writes

theorem drafts_remove (t : Text) (start stop : Nat) :
    Ensures (edit fun d => d.remove start stop) p fun _ q => Drafts t p q := by
  refine Ensures.edit.mono ?_
  rintro _ q ⟨d, hd, hq⟩
  subst hq
  simp only [Draft.remove, Draft.delete, Draft.replace] at hd
  split at hd
  · next hlt =>
    split at hd
    · cases hd
    · cases hd
      exact .of_edits rfl rfl (.inl ⟨hlt, rfl⟩)
  · cases hd
    exact .refl t p

theorem ensures_remove (t holder : Text) (start stop : Nat) :
    Ensures (edit fun d => d.remove start stop) p fun _ q => Writes t holder p q :=
  (drafts_remove t start stop).mono fun _ _ hq => hq.writes

theorem ensures_forM (t holder : Text) {f : β → Conversion Unit} {l : List β}
    (h : ∀ b ∈ l, ∀ p, Ensures (f b) p fun _ q => Writes t holder p q) :
    Ensures (l.forM f) p fun _ q => Writes t holder p q :=
  .forM (.refl t holder) .trans h

theorem ensures_mapM {f} : ∀ {l : List β} {p},
    (∀ b ∈ l, ∀ p, Ensures (f b) p fun u q => Writes t holder p q ∧ (Known holder q → Closed u)) →
    Ensures (l.mapM f) p fun us q => Writes t holder p q ∧ (Known holder q → ∀ u ∈ us, Closed u)
  | [], p, _ => .pure ⟨.refl t holder p, by simp⟩
  | b :: l, p, h => by
    rw [mapM_cons]
    refine (h b (by simp) p).bind ?_
    rintro u q ⟨hq, hu⟩
    refine (ensures_mapM (forall_mem_cons.1 h).2).bind ?_
    rintro us r ⟨hr, hus⟩
    refine .pure ⟨hq.trans hr, fun hknown v hv => ?_⟩
    rcases mem_cons.1 hv with rfl | hv
    · exact hu (hr.known hknown)
    · exact hus hknown v hv

end Steps

/-! ## Ways to views -/

section Ways

variable {t : Text} {plan : Plan} {p : Progress}

theorem ensures_includeRoot (t id : Text) (e : Markup.Element) : Ensures (includeRoot plan id e) p fun _ q =>
    Writes t plan.options.holder p q ∧ q.paths = p.paths := by
  refine (ensures_ask t plan.options.holder fun s => (Layout.Session.Stable.files s.files).load _ rfl).bind ?_
  rintro included q ⟨hq, hpaths⟩
  split
  · refine (ensures_report t plan.options.holder _).bind ?_
    rintro _ r ⟨hr, hpaths'⟩
    exact .pure ⟨hq.trans hr, hpaths'.trans hpaths⟩
  · split
    · exact .pure ⟨hq, hpaths⟩
    · refine (ensures_repair t plan.options.holder fun _ => .rootId (.files _) _).bind ?_
      rintro found r ⟨hr, hpaths'⟩
      split
      · exact .pure ⟨hq.trans hr, hpaths'.trans hpaths⟩
      · exact .pure ⟨hq.trans hr, hpaths'.trans hpaths⟩

theorem isPrefix_join (sep holder : Text) (parts : List Text) : holder <+: join sep (holder :: parts) := by
  obtain ⟨v, hv⟩ := @exists_join_eq sep holder (holder :: parts) rfl
  exact ⟨v, hv.symm⟩

theorem ensures_insertPath {q} {path holder : Text} (hq : Writes t holder p q)
    (hpaths : q.paths = p.paths) (hid : p.paths.get? id = none) (hpath : holder <+: path) :
    Ensures (do modify fun p => { p with paths := p.paths.insert id path }; return path : Conversion Text) q
      fun path q => Writes t holder p q ∧ q.paths.get? id = some path := by
  have hnew : Writes t holder q { q with paths := q.paths.insert id path } := by
    refine ⟨rfl, fun id' way h => ?_, fun id' way h => ?_, fun _ h => .inl h, fun _ e he => .inl he⟩
    · have hne : id' ≠ id := by
        rintro rfl
        rw [hpaths, hid] at h
        cases h
      simpa only [Keyed.get?_insert, hne, if_false] using h
    · simp only [Keyed.get?_insert] at h
      split at h
      · exact .inr (some.inj h ▸ hpath)
      · exact .inl h
  exact .of_run rfl ⟨hq.trans hnew, by simp [Keyed.get?_insert]⟩

theorem ensures_accessPath (t id : Text) : Ensures (accessPath plan id) p fun path q =>
    Writes t plan.options.holder p q ∧ q.paths.get? id = some path := by
  refine Ensures.get.bind ?_
  rintro s q ⟨hs, hqp⟩
  subst hs hqp
  split
  · next path hpath => exact .pure ⟨.refl _ _ _, hpath⟩
  · next hnone =>
    refine (ensures_ask t plan.options.holder fun s => (Layout.Session.Stable.files s.files).find _ _ rfl).bind ?_
    rintro found r ⟨hr, hpaths⟩
    split
    · exact ensures_insertPath hr hpaths hnone (isPrefix_join _ _ _)
    · split
      · refine (ensures_includeRoot t id _).bind ?_
        rintro root s ⟨hs, hpaths'⟩
        exact ensures_insertPath (hr.trans hs) (hpaths'.trans hpaths) hnone (isPrefix_join _ _ _)
      · exact ensures_insertPath hr hpaths hnone (isPrefix_join _ _ _)

end Ways

/-! ## Plans -/

/-- The code that is copied from the call that inflates the layout of a fragment: its receiver, and the second and the
third argument as they are told apart. -/
def copiedCode (unit : CompilationUnit) (content : Statement) : List Text :=
  match search unit.masked content.span.start content.span.stop Before.unqualified inflateCall? with
  | none => []
  | some call =>
    match partner unit.masked (call.stop - 1) with
    | .error _ => []
    | .ok closing =>
      let written := strip (slice unit.text call.start (call.start + call.value))
      strip (written.reverse.dropWhile (· == '.')).reverse ::
        ((splitArguments (slice unit.text (call.stop - 1 + 1) closing)).drop 1).take 2

/-- What the plan writes code with is closed: the holder is a name, the layout has a plain name, and what is written for
the bindings and copied from the content statement is complete code of its own. What is copied is moved with the lines
of the content statement. -/
structure Plan.Tidy (plan : Plan) : Prop where
  holder_ne : plan.options.holder ≠ []
  holder : ∀ c ∈ plan.options.holder, isNamePart c = true
  layout : plan.layout.all isPlain = true
  bindings : plan.bindings.Written
  indent : ∀ c ∈ plan.type.memberIndent, isBlank c = true
  params : ∀ m ∈ plan.type.methods, ∀ p ∈ m.params, ∀ c ∈ p.name, isWord c = true
  copied : plan.options.mode = .viewBinding → ∀ init content, plan.anchor = .content .fragment init content →
    ∀ u ∈ copiedCode plan.unit content, Portable (lineIndent plan.unit.text content.span.start) u

/-- The step writes as it should, for a plan that starts the ways with its holder. -/
abbrev Plan.Writes (plan : Plan) (t : Text) (x : Conversion Unit) (p : Progress) : Prop :=
  Ensures x p fun _ q => Conversion.Writes t plan.options.holder p q

theorem isApart_of_isNamePart {c} (h : isNamePart c = true) : isApart c = true ∧ isBlank c = false := by
  have hplain := isPlain_of_class (by decide +kernel) h
  obtain ⟨h1, -, h3⟩ := isTame_iff.1 (isTame_of_isPlain hplain)
  refine ⟨?_, ?_⟩
  · have hstar : c ≠ '*' := by
      rintro rfl
      revert h
      decide +kernel
    simp [isApart, h1, h3, hstar]
  · have hcode := isCode_of_isNamePart h
    simp only [isCode, and_eq_true, not_eq_true'] at hcode
    exact hcode.1.1

variable {pad : Text}

theorem closed_blank (hpad : ∀ c ∈ pad, isBlank c = true) : Closed pad :=
  closed_of_plain (all_eq_true.2 fun c hc => isPlain_of_isBlank (hpad c hc))

theorem isBlank_of_mem_lineIndent (t : Text) (pos : Nat) : ∀ c ∈ lineIndent t pos, isBlank c = true := by
  intro c hc
  have hblank := all_eq_true.1 all_takeWhile c hc
  simp only [or_eq_true, beq_iff_eq] at hblank
  rcases hblank with rfl | rfl <;> decide

namespace Plan.Tidy

variable {plan : Plan} (h : plan.Tidy)

include h

theorem closed_holder : Closed plan.options.holder :=
  closed_of_plain (all_eq_true.2 fun c hc => isPlain_of_isNamePart (h.holder c hc))

theorem closed_root : Closed (plan.options.holder ++ ".getRoot()") :=
  h.closed_holder.append (.text ".getRoot()" [] [] rfl fun _ => rfl)

theorem exists_holder : ∃ d rest, plan.options.holder = d :: rest ∧ isApart d = true ∧ isBlank d = false := by
  cases hholder : plan.options.holder with
  | nil => exact absurd hholder h.holder_ne
  | cons d rest => exact ⟨d, rest, rfl, isApart_of_isNamePart (h.holder d (by rw [hholder]; simp))⟩

theorem closed_bindingClass : Closed plan.bindingClass := closed_of_plain (Naming.all_isPlain_bindingClassName h.layout)

theorem isBlank_indentUnit : ∀ c ∈ plan.indentUnit, isBlank c = true := by
  unfold indentUnit
  split
  · next d rest hafter =>
    intro c hc
    refine h.indent c ?_
    rw [after?_eq_some.1 hafter]
    exact mem_append_right _ hc
  · have hall : "    ".toList.all isBlank = true := by decide
    exact all_eq_true.1 hall

theorem closed_registration {view} (hmem : (handler, id) ∈ plan.bindings.registrations) (hview : Closed view) :
    Closed (Listener.registration handler.kind view handler.call (some handler.callback) handler.returnsBoolean
      plan.indentUnit) := by
  have hhandler := (of_lastBound? (mem_registrationsOf_iff.1 hmem)).1
  exact Listener.closed_registration hview (h.bindings.handlers handler hhandler).1
    (closed_blank h.isBlank_indentUnit) _ _ _

theorem turns_inflation {pad args} (hpad : ∀ c ∈ pad, isBlank c = true) (hargs : Portable pad args)
    (owed : List Char) :
    Turns owed (Text.indent pad (plan.options.holder ++ " = " ++ plan.bindingClass ++ ".inflate(" ++ args ++
      ");")) owed := by
  obtain ⟨d, rest, hholder, -, hblank⟩ := h.exists_holder
  have hfront : Ports pad [] (plan.options.holder ++ " = " ++ plan.bindingClass ++ ".inflate" ++ ['(']) [')'] := by
    have hcall := ((h.closed_holder.append (closed_text " = " rfl)).append h.closed_bindingClass).append
      (closed_text ".inflate" rfl)
    exact (hcall.append (.text "(" [] [')'] rfl fun _ => rfl)).ports hpad
  have hback : Ports pad [')'] (args ++ ");") [] := (hargs.frame [')']).append_cons (d := ')') (by decide)
      ((Bears.text ");" [')'] [] rfl fun _ => rfl).ports hpad)
  have hall := hfront.concat_append (by decide) hback
  have hlast : ∀ u : Text, (u ++ (args ++ ");")).getLast? = some ';' := by
    intro u
    rw [getLast?_append, getLast?_append]
    rfl
  rw [hholder] at hall
  have hturns := Ports.turns_indent hpad (d := ';') hall hblank
    (hlast (d :: rest ++ " = " ++ plan.bindingClass ++ ".inflate" ++ ['('])) (by decide) owed
  rw [hholder]
  simpa using hturns

end Plan.Tidy

/-! ## Conversion to a holder -/

/-- What becomes of a content statement is closed before the statement, where it is indented as the statement is, and
does in it what the statement did. -/
structure Inflation.Fit (text : Text) (s : Statement) (i : Inflation) : Prop where
  before : ∀ u ∈ i.before, ∀ owed, Turns owed (indent (lineIndent text s.span.start) u) owed
  leads : ∃ d u, i.before.head? = some (d :: u) ∧ isApart d = true ∧ isBlank d = false
  statement : ∀ owed owed', owedAt (mask text) s.span.start = some owed →
    owedAt (mask text) s.span.stop = some owed' → Turns owed i.statement owed'

theorem portable_inflationArguments {inflater} (hinflater : Portable pad inflater) {args}
    (hargs : ∀ a ∈ (args.drop 1).take 2, Portable pad a) : Portable pad (inflationArguments inflater args) := by
  unfold inflationArguments
  split
  · next first parent attach rest =>
    simp only [append_assoc]
    exact hinflater.comma ((hargs parent (by simp)).comma (hargs attach (by simp)))
  · next first parent =>
    simp only [append_assoc]
    have hparent := hargs parent (by simp)
    exact hinflater.comma (hparent.append_cons (d := ',') (by decide) (v := " false")
      fun below => (closed_text ", false" rfl).turns below)
  · exact hinflater

section Plans

variable {text : Text} {plan : Plan} (h : plan.Placed text) (htidy : plan.Tidy)

theorem Plan.Placed.masked_eq (h : plan.Placed text) : plan.unit.masked = mask text := by
  rw [h.unit.masked_eq, h.text_eq]

variable {m init : Method} {ss : List Statement} {screen : Screen} {content : Statement} {b : Block}
  {inflation : Inflation} {receiver : Text}

theorem Plan.Placed.sits (h : plan.Placed text) (hclosed : BlocksClosed text) (hwell : WellBracketed (mask text))
    (hm : m ∈ plan.type.methods) (hss : statements plan.unit m = .ok ss) :
    ∀ s ∈ ss, ∃ b, m.body = some b ∧ s.Sits text b := by
  intro s hs
  simp only [statements] at hss
  split at hss
  · simp only [Except.ok.injEq] at hss
    subst hss
    cases hs
  · next b hb =>
    obtain ⟨hbody, -⟩ := h.type.methodBody hm hb
    rw [h.text_eq, h.masked_eq] at hss
    rw [h.masked_eq] at hbody
    exact ⟨b, hb, sits_of_mem_statementsFrom hclosed hwell hbody hss s hs⟩

theorem Plan.Placed.content_sits (h : plan.Placed text) (hclosed : BlocksClosed text)
    (hwell : WellBracketed (mask text)) (ha : plan.anchor = .content screen init content) :
    ∃ b, init.body = some b ∧ content.Sits text b := by
  obtain ⟨hm, ss, hss, hmem⟩ := h.content_mem ha
  exact h.sits hclosed hwell hm hss content hmem

include h htidy

theorem Plan.Placed.fit_activity (hclosed : BlocksClosed text) (hwell : WellBracketed (mask text))
    (hs : content.Sits text b) (hinflation : activityInflation? plan content = .ok (some inflation)) :
    inflation.Fit text content := by
  obtain ⟨d, rest, hholder, hd, hblank⟩ := htidy.exists_holder
  simp only [activityInflation?, h.masked_eq] at hinflation
  split at hinflation
  · simp at hinflation
  · next call hcall =>
    obtain ⟨closing, hclosing, hinflation⟩ := bind_eq_ok.1 hinflation
    simp only [pure_eq_ok, some.injEq] at hinflation
    subst hinflation
    have hroot := htidy.closed_root
    refine ⟨fun u hu => ?_, ⟨d, _, by simp only [hholder]; rfl, hd, hblank⟩, fun owed owed' howed howed' => ?_⟩
    · rw [mem_singleton.1 hu]
      refine Bears.turns_indent (isBlank_of_mem_lineIndent text content.span.start) ?_
      exact ((htidy.closed_holder.append (closed_text " = " rfl)).append htidy.closed_bindingClass).append
        (.text ".inflate(getLayoutInflater());" [] [] rfl fun _ => rfl)
    · rw [hholder, cons_append] at hroot
      have hturns := Sits.turns_activity hs hclosed hwell hroot howed howed' hcall hclosing
      simpa [hholder] using hturns

theorem Plan.Placed.fit_fragment (hclosed : BlocksClosed text) (hwell : WellBracketed (mask text))
    (hs : content.Sits text b) (hinit : init ∈ plan.type.methods)
    (hcopied : ∀ u ∈ copiedCode plan.unit content, Portable (lineIndent plan.unit.text content.span.start) u)
    (hinflation : fragmentInflation? plan init content = .ok (some inflation)) : inflation.Fit text content := by
  obtain ⟨d, rest, hholder, hd, hblank⟩ := htidy.exists_holder
  simp only [copiedCode, h.masked_eq, h.text_eq] at hcopied
  simp only [fragmentInflation?, h.masked_eq, h.text_eq] at hinflation
  split at hinflation
  · simp at hinflation
  · next call hcall =>
    obtain ⟨closing, hclosing, hinflation⟩ := bind_eq_ok.1 hinflation
    simp only [pure_eq_ok, some.injEq] at hinflation
    subst hinflation
    simp only [hcall, hclosing] at hcopied
    have hroot := htidy.closed_root
    refine ⟨fun u hu => ?_, ⟨d, _, by simp only [hholder]; rfl, hd, hblank⟩, fun owed owed' howed howed' => ?_⟩
    · rw [mem_singleton.1 hu]
      have hpad := isBlank_of_mem_lineIndent text content.span.start
      refine htidy.turns_inflation hpad (portable_inflationArguments ?_ (forall_mem_cons.1 hcopied).2)
      split
      · cases hhead : init.params.head? with
        | none => exact closed_nil.ports hpad
        | some p =>
          have hname := htidy.params init hinit p (mem_of_mem_head? (mem_def.2 hhead))
          exact (closed_of_plain (all_eq_true.2 fun c hc => isPlain_of_isWord (hname c hc))).ports hpad
      · exact hcopied _ (by simp)
    · rw [hholder, cons_append] at hroot
      have hlength := Sits.stop_lt hs
      have hwithin := search_spec hcall (Nat.le_of_lt hs.start_lt) (by rw [length_mask]; exact Nat.le_of_lt hlength)
      have hturns := Sits.turns_fragment hs hclosed hwell hroot hd howed howed' hcall hclosing
        (codeAt_start hwithin starts_inflateCall?)
      simpa [hholder] using hturns

omit h htidy in
theorem ensures_replaceContent {p} (hs : content.Sits text b) {before after statement}
    (hpad : lineIndent plan.unit.text content.span.start = pad)
    (hleads :
      Leads text pad content.span.start (before.map (indent pad) ++ [pad ++ statement] ++ after.map (indent pad)))
    (hstatement : ∀ owed owed', owedAt (mask text) content.span.start = some owed →
      owedAt (mask text) content.span.stop = some owed' → Turns owed statement owed')
    (hcode : Known plan.options.holder p →
      (∀ u ∈ before, ∀ owed, Turns owed (indent pad u) owed) ∧ ∀ u ∈ after, Closed u) :
    plan.Writes text (plan.replaceContent content before statement after) p := by
  subst hpad
  have hpad := isBlank_of_mem_lineIndent plan.unit.text content.span.start
  refine ensures_replace fun hknown => .inr ?_
  obtain ⟨hbefore, hafter⟩ := hcode hknown
  exact Sits.fits_content hs hpad hstatement hbefore (fun u hu owed => (hafter u hu).turns_indent hpad owed) hleads

variable (hclosed : BlocksClosed text) (hread : readUnit text = .ok plan.unit)
  (hwell : WellBracketed (mask text)) {p : Progress}

include hclosed hread

theorem ensures_declareHolder (hm : m ∈ plan.type.methods) : plan.Writes text (declareHolder plan) p := by
  have hdeclaration : Closed ("private " ++ plan.bindingClass ++ " " ++ plan.options.holder ++ ";") :=
    ((((closed_text "private " rfl).append htidy.closed_bindingClass).append (closed_text " " rfl)).append
      htidy.closed_holder).append (closed_text ";" rfl)
  -- the first member starts with code
  obtain ⟨pos, hpos, hboundary, hinside, hne⟩ : ∃ pos, plan.type.firstMember.getD 0 = pos ∧ Boundary text pos ∧
      pos < text.length ∧ text[pos]? ≠ some '\n' := by
    have hmember := TypeDecl.mem_members_of_method hm
    cases hmembers : plan.type.members with
    | nil =>
      rw [hmembers] at hmember
      cases hmember
    | cons a rest =>
      have hfirst : plan.type.firstMember.getD 0 = a.span.start := by simp [TypeDecl.firstMember, hmembers]
      have hmem : a ∈ plan.type.members := by simp [hmembers]
      obtain ⟨-, -, -, ⟨c, hc, hblank⟩, -⟩ := h.type.members a hmem
      rw [h.masked_eq] at hc
      refine ⟨a.span.start, hfirst, boundary_of_readUnit hclosed hread _ h.type_mem a hmem, ?_,
        ne_newline_of_mask hc hblank⟩
      simpa using (List.getElem?_eq_some_iff.1 hc).1
  simp only [declareHolder, hpos, h.text_eq]
  split
  · exact (ensures_report text _ _).mono fun _ _ hq => hq.1
  · split
    · next hblank =>
      refine ensures_insert (fits_insert_of_free
        (free_lineStart hboundary hinside hne (isAllBlank_slice.1 hblank)) fun owed => ?_)
      refine Bears.turns (((closed_blank htidy.indent).append hdeclaration).append ?_) owed
      split
      · exact closed_text "\n" rfl
      · exact closed_text "\n\n" rfl
    · refine ensures_insert (fits_insert hboundary hinside (offLine_of_ne hinside hne) (d := 'p') rfl rfl ?_)
      exact fun owed => (hdeclaration.append (closed_text " " rfl)).turns owed

omit h hclosed hread in
theorem closed_bodyIndent (ss : List Statement) : Closed (match ss with
    | s :: _ => lineIndent text s.span.start
    | [] => plan.type.memberIndent ++ plan.indentUnit) := by
  cases ss with
  | nil => exact (closed_blank htidy.indent).append (closed_blank htidy.isBlank_indentUnit)
  | cons s ss => exact closed_blank (isBlank_of_mem_lineIndent text s.span.start)

omit hread in
theorem ensures_releaseIn (hwell : WellBracketed (mask text)) (hm : m ∈ plan.type.methods) (hb : m.body = some b)
    (hss : statements plan.unit m = .ok ss) {release} (hrelease : Closed release) :
    plan.Writes text (releaseIn plan release m b ss) p := by
  obtain ⟨hbody, -, -, hlt⟩ := h.type.methodBody hm hb
  rw [h.masked_eq] at hbody
  have hcode := codeAt_partner hbody
  have hinside : b.closing < text.length := by simpa using (partner_lt_length hbody).2
  have hne := ne_newline_of_codeAt hcode
  simp only [releaseIn, h.text_eq]
  split
  · next s hs =>
    obtain ⟨b', -, hsits⟩ := h.sits hclosed hwell hm hss s (mem_of_find?_eq_some hs)
    refine ensures_insert (fits_insert_newline hsits.uncut.stop (Sits.stop_lt hsits) rfl fun owed => ?_)
    exact (((closed_text "\n" rfl).append (closed_bodyIndent htidy ss)).append hrelease).turns owed
  · split
    · next hline =>
      refine ensures_insert (fits_insert_of_free
        (free_lineStart (hcode.boundary hclosed) hinside hne (isAllBlank_slice.1 hline)) fun owed => ?_)
      exact (((closed_bodyIndent htidy ss).append hrelease).append (closed_text "\n" rfl)).turns owed
    · refine ensures_insert (fits_insert (hcode.boundary hclosed) hinside (offLine_of_ne hinside hne)
        (d := ' ') rfl rfl fun owed => ?_)
      exact (((closed_text " " rfl).append hrelease).append (closed_text " " rfl)).turns owed

omit hread in
theorem ensures_addTeardown (hwell : WellBracketed (mask text)) (hinit : init ∈ plan.type.methods)
    (hb : init.body = some b) : plan.Writes text (addTeardown plan screen init) p := by
  have hrelease : Closed (plan.options.holder ++ " = null;") :=
    htidy.closed_holder.append (closed_text " = null;" rfl)
  simp only [addTeardown]
  split
  · next method rest hmethods =>
    have hmem : method ∈ plan.type.methods :=
      (mem_filter.1 (show method ∈ plan.type.methodsNamed _ _ by rw [hmethods]; simp)).1
    refine Ensures.read.bind ?_
    rintro ss q ⟨hss, hqp⟩
    subst hqp
    split
    · exact .pure (.refl _ _ _)
    · split
      · next body hbody => exact ensures_releaseIn h htidy hclosed hwell hmem hbody hss hrelease
      · exact .pure (.refl _ _ _)
  · obtain ⟨hbody, -, hend, -⟩ := (h.type.method hinit).2.2.2.body b hb
    rw [h.masked_eq] at hbody
    have hstop : init.span.stop < text.length := by
      have hle := (h.type.method hinit).2.2.1
      have hlt := h.body.2
      rw [h.masked_eq, length_mask] at hlt
      omega
    have hboundary : Boundary text init.span.stop := by
      rw [← hend]
      exact (codeAt_partner hbody).boundary_stop (i := b.closing + 1) hclosed
    have hplain : Closed screen.teardownVisibility ∧ Closed screen.teardownMethod := by
      cases screen with
      | activity => exact ⟨closed_text "protected" rfl, closed_text "onDestroy" rfl⟩
      | fragment => exact ⟨closed_text "public" rfl, closed_text "onDestroyView" rfl⟩
    have hcode := Listener.closed_teardownMethod hplain.1 hplain.2 htidy.closed_holder
      (closed_blank htidy.isBlank_indentUnit)
    refine ensures_insert (fits_insert_newline hboundary hstop rfl fun owed => ?_)
    exact ((closed_text "\n\n" rfl).turns owed).append (hcode.turns_indent htidy.indent owed)

theorem ensures_replaceUses {field} (hfield : field ∈ plan.bindings.fields) :
    plan.Writes text (replaceUses plan field) p := by
  simp only [replaceUses]
  refine (ensures_accessPath text field.id).bind ?_
  rintro path q ⟨hq, hpath⟩
  refine Ensures.read.bind ?_
  rintro hidden r ⟨hhidden, hrq⟩
  subst hrq
  have hus : plan.visibleUses field.name = _ := bind_pure_eq_ok.2 ⟨hidden, hhidden, rfl⟩
  generalize filter _ _ = us at hus ⊢
  obtain ⟨d, rest, hholder, hd, -⟩ := htidy.exists_holder
  -- the way is known as long as the uses are replaced
  have hloop : ∀ (l : List Span) (s : Progress), (∀ u ∈ l, u ∈ us) → s.paths.get? field.id = some path →
      Ensures (l.forM fun use => edit fun d => d.replace use.start use.stop path) s fun _ q =>
        Writes text plan.options.holder s q := by
    intro l
    induction l with
    | nil => exact fun s _ _ => .pure (.refl _ _ _)
    | cons u l ih =>
      intro s hl hs
      have hfirst : Ensures (edit fun d => d.replace u.start u.stop path) s fun _ q =>
          Writes text plan.options.holder s q := by
        refine ensures_replace fun hknown => ?_
        obtain ⟨hclosed', ⟨more, hmore⟩⟩ := hknown _ _ hs
        refine .inr (h.fits_use hclosed hread hfield hus (hl u (by simp)) (d := d) ?_ hd hclosed')
        rw [← hmore, hholder]
        rfl
      refine hfirst.bind fun _ q hq => ?_
      exact (ih q (forall_mem_cons.1 hl).2 (hq.paths _ _ hs)).mono fun _ r hr => hq.trans hr
  exact (hloop us r (fun _ hu => hu) hpath).mono fun _ s hs => hq.trans hs

omit h hclosed hread in
theorem ensures_registrations {target : HandlerBinding → Text → Conversion Text}
    (htarget : ∀ handler id, (handler, id) ∈ plan.bindings.registrations → ∀ p, Ensures (target handler id) p
      fun view q => Writes text plan.options.holder p q ∧ (Known plan.options.holder q → Closed view)) :
    Ensures (plan.registrations target) p fun listeners q =>
      Writes text plan.options.holder p q ∧ (Known plan.options.holder q → ∀ u ∈ listeners, Closed u) := by
  refine ensures_mapM fun b hb p => ?_
  obtain ⟨handler, id⟩ := b
  refine (htarget handler id hb p).bind ?_
  rintro view q ⟨hq, hview⟩
  have himports : ∀ name ∈ handler.kind.shape.imports, name.all isPlain = true := by
    have hplain := Listener.isPlain_shape handler.kind
    simp only [Listener.Shape.isPlain, and_eq_true] at hplain
    exact all_eq_true.1 hplain.2
  have hneed : Ensures (needImports handler.kind.shape.imports) q fun _ r =>
      Writes text plan.options.holder q r := ensures_needImports himports
  refine hneed.bind fun _ r hr => ?_
  exact .pure ⟨hq.trans hr, fun hknown => htidy.closed_registration hb (hview (hr.known hknown))⟩

theorem ensures_convertToHolder (hwell : WellBracketed (mask text)) (hmode : plan.options.mode = .viewBinding) :
    plan.Writes text (convertToHolder plan) p := by
  cases ha : plan.anchor with
  | noMethod =>
    simp only [convertToHolder, ha]
    exact .pure (.refl _ _ _)
  | noContent screen method =>
    simp only [convertToHolder, ha]
    exact .pure (.refl _ _ _)
  | content screen init content =>
    obtain ⟨b, hb, hs⟩ := h.content_sits hclosed hwell ha
    have hinit := (h.content_mem ha).1
    simp only [convertToHolder, ha]
    refine Ensures.read.bind ?_
    rintro inflation q ⟨hinflation, hqp⟩
    subst hqp
    cases inflation with
    | none => exact (ensures_report text _ _).mono fun _ _ hq => hq.1
    | some inflation =>
      have hfit : inflation.Fit text content := by
        cases screen with
        | activity => exact h.fit_activity htidy hclosed hwell hs hinflation
        | fragment => exact h.fit_fragment htidy hclosed hwell hs hinit (htidy.copied hmode init content ha) hinflation
      obtain ⟨d, u, hhead, hd, hblank⟩ := hfit.leads
      refine (ensures_declareHolder h htidy hclosed hread hinit).bind fun _ q₁ hq₁ => ?_
      have hlisteners : Ensures (plan.registrations fun _ id => accessPath plan id) q₁ fun listeners q =>
          Writes text plan.options.holder q₁ q ∧ (Known plan.options.holder q → ∀ u ∈ listeners, Closed u) :=
        ensures_registrations htidy fun handler id _ p =>
          (ensures_accessPath text id).mono fun view q hq => ⟨hq.1, fun hknown => (hknown _ _ hq.2).1⟩
      refine hlisteners.bind ?_
      rintro listeners q₂ ⟨hq₂, hclosed₂⟩
      -- the listeners come before a statement that returns, and behind any other
      have hcontent : ∀ before after, before.head? = some (d :: u) →
          (Known plan.options.holder q₂ → (∀ u ∈ before, ∀ owed,
            Turns owed (indent (lineIndent plan.unit.text content.span.start) u) owed) ∧ ∀ u ∈ after, Closed u) →
          Ensures (do
            plan.replaceContent content before inflation.statement after
            addTeardown plan screen init
            plan.bindings.fields.forM (replaceUses plan)
            plan.bindings.fields.forM (removeDeclaration plan)) q₂ fun _ r =>
              Writes text plan.options.holder q r := by
        intro before after hbefore hcode
        refine (ensures_replaceContent hs rfl (leads_of_before hs hd hblank hbefore) hfit.statement hcode).bind
          fun _ q₃ hq₃ => ?_
        refine (ensures_addTeardown h htidy hclosed hwell hinit hb).bind fun _ q₄ hq₄ => ?_
        refine (ensures_forM text _ fun f hf p => ensures_replaceUses h htidy hclosed hread hf).bind fun _ q₅ hq₅ => ?_
        refine (ensures_forM text _ fun f _ p => ?_).mono fun _ q₆ hq₆ =>
          ((((hq₁.trans hq₂).trans hq₃).trans hq₄).trans hq₅).trans hq₆
        simp only [removeDeclaration]
        split
        · exact ensures_remove text _ _ _
        · exact .pure (.refl _ _ _)
      split
      · refine hcontent _ _ (by rw [head?_append, hhead]; rfl) fun hknown => ⟨fun v hv => ?_, by simp⟩
        rcases mem_append.1 hv with hv | hv
        · rw [h.text_eq]
          exact hfit.before v hv
        · exact (hclosed₂ hknown v hv).turns_indent (isBlank_of_mem_lineIndent _ _)
      · exact hcontent _ _ hhead fun hknown => ⟨by rw [h.text_eq]; exact hfit.before, hclosed₂ hknown⟩

/-! ## Conversion to look-ups -/

omit h htidy hclosed hread in
theorem closed_lookup {ref} (hreceiver : Closed receiver) (href : Closed ref) : Closed (lookup receiver ref) :=
  ((hreceiver.append (.text "findViewById(" [] [')'] rfl fun _ => rfl)).append (href.frame _)).append
    (.text ")" [')'] [] rfl fun _ => rfl)

omit h htidy hclosed hread in
theorem isNamePart_of_storedVariable? {t name} (hname : storedVariable? t = some name) :
    ∀ c ∈ name, isNamePart c = true := by
  obtain ⟨u, -, hname⟩ := exists_of_findSome?_eq_some hname
  simp only [bind_eq_bind, bind_eq_some_iff] at hname
  obtain ⟨⟨word, rest⟩, hword, rest', -, hname⟩ := hname
  split at hname
  · cases hname
  · obtain rfl : word = name := by simpa using hname
    cases u with
    | nil => simp [name?] at hword
    | cons c u =>
      simp only [name?] at hword
      split at hword
      · next hc =>
        obtain ⟨rfl, -⟩ := Prod.mk.inj (some.inj hword)
        intro d hd
        rcases mem_cons.1 hd with rfl | hd
        · simp only [isNameStart, or_eq_true, beq_iff_eq] at hc
          rcases hc with (hc | rfl) | rfl
          · simp [isNamePart, isWord_of_isAsciiLetter hc]
          · decide +kernel
          · decide +kernel
        · exact all_eq_true.1 all_takeWhile d hd
      · cases hword

omit h hclosed hread in
theorem ensures_lookupTarget (hreceiver : Closed receiver)
    (hmem : (handler, id) ∈ plan.bindings.registrations) : Ensures (lookupTarget plan receiver handler id) p
      fun view q => Writes text plan.options.holder p q ∧ (Known plan.options.holder q → Closed view) := by
  obtain ⟨hhandler, -, hid⟩ := of_lastBound? (mem_registrationsOf_iff.1 hmem)
  have hfound := closed_lookup hreceiver (closed_refOf (htidy.bindings.handlers handler hhandler).2 hid)
  simp only [lookupTarget]
  split
  · next field hfield =>
    have hmem : field ∈ plan.bindings.fields := (BindingSet.of_fieldsById hfield).1
    exact .pure ⟨.refl _ _ _, fun _ => (htidy.bindings.fields field hmem).1⟩
  · split
    · exact .pure ⟨.refl _ _ _, fun _ => hfound⟩
    · next type needed htype =>
      have hplain : type.all isPlain = true ∧ needed.all isPlain = true := by
        revert htype
        cases handler.kind <;> simp only [receiverType?, reduceCtorEq, false_implies, some.injEq, Prod.mk.injEq]
          <;> rintro ⟨rfl, rfl⟩ <;> exact ⟨by decide, by decide⟩
      have hneed : plan.Writes text (needImports [needed]) p := ensures_needImports (by simpa using hplain.2)
      refine hneed.bind fun _ q hq => .pure ⟨hq, fun _ => ?_⟩
      have hcast : Bears [] ("((" ++ type ++ ") ") [')'] :=
        ((Bears.text "((" [] [')', ')'] rfl fun _ => rfl).append ((closed_of_plain hplain.1).frame _)).append
          (.text ") " [')', ')'] [')'] rfl fun _ => rfl)
      exact (hcast.append (hfound.frame _)).append (.text ")" [')'] [] rfl fun _ => rfl)

omit h htidy hclosed hread in
/-- What a view is looked up in is closed, and so is what is returned at the end. The statement stays, or what it
returns is stored. -/
theorem lookupFrame?_cases {content} {new : Option Text} {tail}
    (hframe : lookupFrame? screen content = some (receiver, new, tail)) :
    (Closed receiver ∧ ∀ u ∈ tail, Closed u) ∧ (new = none ∨ startsWithReturn content = true ∧
      new = some ("View view = " ++ strip (content.drop "return".length))) := by
  unfold lookupFrame? at hframe
  split at hframe
  · cases hframe
    exact ⟨⟨closed_nil, by simp⟩, .inl rfl⟩
  · split at hframe
    · next name hname =>
      cases hframe
      have hplain : ∀ c ∈ name, isNamePart c = true := isNamePart_of_storedVariable? hname
      have hclosed := closed_of_plain (all_eq_true.2 fun c hc => isPlain_of_isNamePart (hplain c hc))
      exact ⟨⟨hclosed.append (closed_text "." rfl), by simp⟩, .inl rfl⟩
    · split at hframe
      · next hreturn =>
        cases hframe
        refine ⟨⟨closed_text "view." rfl, fun u hu => ?_⟩, .inr ⟨hreturn, rfl⟩⟩
        rw [mem_singleton.1 hu]
        exact closed_text "return view;" rfl
      · cases hframe

omit hread in
theorem ensures_convertToLookups (hwell : WellBracketed (mask text)) : plan.Writes text (convertToLookups plan) p := by
  cases ha : plan.anchor with
  | noMethod =>
    simp only [convertToLookups, ha]
    exact .pure (.refl _ _ _)
  | noContent screen method =>
    simp only [convertToLookups, ha]
    exact .pure (.refl _ _ _)
  | content screen init content =>
    obtain ⟨b, -, hs⟩ := h.content_sits hclosed hwell ha
    simp only [convertToLookups, ha]
    cases hframe : lookupFrame? screen content.text with
    | none => exact (ensures_report text _ _).mono fun _ _ hq => hq.1
    | some frame =>
      obtain ⟨receiver, new, tail⟩ := frame
      obtain ⟨⟨hreceiver, htail⟩, hnew⟩ := lookupFrame?_cases hframe
      have hlisteners : Ensures (plan.registrations (lookupTarget plan receiver)) p fun listeners q =>
          Writes text plan.options.holder p q ∧ (Known plan.options.holder q → ∀ u ∈ listeners, Closed u) :=
        ensures_registrations htidy fun handler id hmem p => ensures_lookupTarget htidy hreceiver hmem
      refine hlisteners.bind ?_
      rintro listeners q ⟨hq, hclosed'⟩
      have hafter : Known plan.options.holder q → ∀ u ∈ plan.bindings.fields.map (fun f =>
          f.name ++ " = " ++ lookup receiver f.ref ++ ";") ++ listeners ++ tail, Closed u := by
        intro hknown u hu
        simp only [mem_append, List.mem_map] at hu
        rcases hu with (⟨f, hf, rfl⟩ | hu) | hu
        · obtain ⟨hname, href⟩ := htidy.bindings.fields f hf
          exact ((hname.append (closed_text " = " rfl)).append (closed_lookup hreceiver href)).append
            (closed_text ";" rfl)
        · exact hclosed' hknown u hu
        · exact htail u hu
      split
      · exact .pure hq
      · rcases hnew with rfl | ⟨hreturn, rfl⟩
        · refine (ensures_replaceContent hs rfl (leads_of_text hs) ?_ fun hknown => ⟨by simp, hafter hknown⟩).mono
            fun _ r hr => hq.trans hr
          exact fun owed owed' howed howed' => Sits.turns hs hclosed howed howed'
        · refine (ensures_replaceContent hs rfl (leads_of_statement hs (d := 'V') rfl rfl) ?_
            fun hknown => ⟨by simp, hafter hknown⟩).mono fun _ r hr => hq.trans hr
          intro owed owed' howed howed'
          exact ((closed_text "View view = " rfl).turns owed).append
            (Sits.turns_returned hs hclosed howed howed' hreturn)

/-! ## A class -/

omit h htidy hclosed hread in
theorem ensures_removeBinding (text : Text) : plan.Writes text (removeBinding plan) p := by
  refine (ensures_forM text _ fun m _ p => ?_).bind fun _ q hq =>
    (ensures_forM text _ fun f _ p => ?_).mono fun _ r hr => hq.trans hr
  · simp only [removeBindCalls]
    split
    · exact .pure (.refl _ _ _)
    · refine ensures_forM text _ fun call _ p => ?_
      simp only [removeBindCall]
      refine Ensures.read.bind ?_
      rintro closing q ⟨-, hqp⟩
      subst hqp
      split
      · exact ensures_remove text _ _ _
      · exact (ensures_report text _ _).mono fun _ _ hq => hq.1
  · simp only [removeUnbinder]
    refine (ensures_remove text _ _ _).bind fun _ q hq =>
      (ensures_forM text _ fun name _ p => ?_).mono fun _ r hr => hq.trans hr
    refine ensures_forM text _ fun body _ p => ensures_forM text _ fun s _ p => ensures_remove text _ _ _

omit h htidy hclosed hread in
theorem ensures_checkIds (text : Text) : plan.Writes text (checkIds plan) p := by
  simp only [checkIds]
  split
  · refine (ensures_repair text plan.options.holder fun _ => .ensureIds (.files _) _ _).bind ?_
    rintro reports q ⟨hq, -⟩
    refine (ensures_forM text _ fun r _ p => ?_).mono fun _ r hr => hq.trans hr
    exact (ensures_report text _ _).mono fun _ _ hq => hq.1
  · exact .pure (.refl _ _ _)

theorem ensures_convertPlanned (hwell : WellBracketed (mask text)) : plan.Writes text (convertPlanned plan) p := by
  simp only [convertPlanned]
  refine (ensures_checkIds text).bind fun _ q₁ hq₁ => ?_
  refine (ensures_forM text plan.options.holder fun a _ p => ensures_remove text _ _ _).bind fun _ q₂ hq₂ => ?_
  have hunbind : ∀ q₃, Writes text plan.options.holder q₂ q₃ → Ensures (if plan.bindings.unsupported.isEmpty = true then
      removeBinding plan else plan.note (annotationList plan.bindings.unsupported ++
        " not converted; ButterKnife.bind kept")) q₃ fun _ r => Writes text plan.options.holder p r := by
    intro q₃ hq₃
    have hbefore := (hq₁.trans hq₂).trans hq₃
    split
    · exact (ensures_removeBinding text).mono fun _ r hr => hbefore.trans hr
    · exact (ensures_report text _ _).mono fun _ r hr => hbefore.trans hr.1
  split
  · next hmode => exact (ensures_convertToHolder h htidy hclosed hread hwell hmode).bind fun _ q₃ hq₃ => hunbind q₃ hq₃
  · exact (ensures_convertToLookups h htidy hclosed hwell).bind fun _ q₃ hq₃ => hunbind q₃ hq₃

end Plans

end Rebind.Conversion
