/-
No handler is lost.

A later handler replaces an earlier one for the same kind and the same id, whatever the callbacks they are for. Every
other handler is called by the code that is written for the content statement (`handlers_called`).
-/
import Mathlib.Data.List.Infix
import Mathlib.Data.List.TakeWhile
import Rebind.Proofs.Conversion.Conflicts
import Rebind.Proofs.Conversion.Uses
import Rebind.Proofs.Listener.Forwarding

namespace Rebind

namespace Listener

open Text List

/-! ## A registration calls its handler -/

theorem dropWhile_append_of_mem {p x c} (hmem : c ∈ x) (hc : p c = false) (y : Text) :
    (x ++ y).dropWhile p = x.dropWhile p ++ y := by
  have hne : x.dropWhile p ≠ [] := by
    intro hnil
    rw [dropWhile_eq_nil_iff.1 hnil c hmem] at hc
    cases hc
  rw [dropWhile_append, if_neg (by simpa using hne)]

theorem infix_stripBreaks {x y c d} (hx : c ∈ x) (hc : (c == '\n') = false) (hy : d ∈ y)
    (hd : (d == '\n') = false) (u : Text) : u <:+: stripBreaks (x ++ (u ++ y)) := by
  refine ⟨x.dropWhile (· == '\n'), (y.reverse.dropWhile (· == '\n')).reverse, ?_⟩
  rw [stripBreaks, dropWhile_append_of_mem hx hc, ← append_assoc, reverse_append,
    dropWhile_append_of_mem (mem_reverse.2 hy) hd, reverse_append, reverse_reverse]

theorem mem_intercalate {l} {g : List Text} {groups : List (List Text)} (hl : l ∈ g) (hg : g ∈ groups) :
    l ∈ List.intercalate [[]] groups := by
  induction groups with
  | nil => cases hg
  | cons first groups ih =>
    cases groups with
    | nil => simpa [List.intercalate, mem_singleton.1 hg] using hl
    | cons second groups =>
      have hsplit : List.intercalate [[]] (first :: second :: groups) =
          first ++ ([] :: List.intercalate [[]] (second :: groups)) := by
        simp [List.intercalate]
      rw [hsplit, mem_append, mem_cons]
      rcases mem_cons.1 hg with rfl | hg
      · exact .inl hl
      · exact .inr (.inr (ih hg))

theorem call_infix_registration (kind : Kind) (target : Text) {call : Text} (hcall : call ≠ [])
    (callback : Option Text) (returnsBoolean : Bool) (unit : Text) :
    call <:+: registration kind target call callback returnsBoolean unit := by
  simp only [registration]
  split
  · next type _ =>
    simp only [anonymousRegistration, unlines]
    set chosen := kind.shape.callback callback
    set bodies := List.intercalate [[]] (kind.shape.callbacks.map fun c =>
      callbackMethod c (if c.name == chosen.name then call else []) unit) with hbodies
    have hline : unit ++ unit ++ call ++ ";" ∈ bodies := by
      refine mem_intercalate ?_ (mem_map.2 ⟨chosen, callback_mem kind callback, rfl⟩)
      simp [callbackMethod, hcall]
    have hbody : call <:+: join ['\n'] bodies := by
      have hinfix := @infix_join ['\n'] _ _ ((singleton_infix_iff _ _).2 hline)
      refine .trans ⟨unit ++ unit, ";", ?_⟩ hinfix
      simp [join]
    rw [cons_append, join_cons _ _ (by simp), join_append _ (ne_nil_of_mem hline) (by simp)]
    refine hbody.trans ?_
    have := infix_stripBreaks (x := target ++ "." ++ kind.shape.setter ++ "(new " ++ type ++
      "() \x7b\n") (y := "\n\x7d);") (c := '.') (d := ';') (by simp) rfl (by simp) rfl (join ['\n'] bodies)
    simpa [join] using this
  · set chosen := kind.shape.callback callback
    simp only [lambdaRegistration, unlines]
    split
    · have := infix_stripBreaks (x := target ++ "." ++ kind.shape.setter ++ "(" ++
        lambdaParams (chosen.params.map (·.2)) ++ " -> \x7b\n" ++ unit)
        (y := ";\n" ++ unit ++ "return true;\n\x7d);") (c := '.') (d := ';') (by simp) rfl (by simp) rfl call
      simpa [join] using this
    · have := infix_stripBreaks (x := target ++ "." ++ kind.shape.setter ++ "(" ++
        lambdaParams (chosen.params.map (·.2)) ++ " -> ") (y := ");") (c := '.') (d := ';') (by simp) rfl
        (by simp) rfl call
      simpa using this

end Listener

namespace Conversion

open Java (Span CompilationUnit TypeDecl)
open Text

/-! ## The content statement of a class -/

/-- The class is converted, and something is written in the place of its content statement. -/
structure Plan.Rewrites (plan : Plan) (kept : List Edit) (s : Span) : Prop where
  type_mem : plan.type ∈ classesOf plan.unit
  bindings_eq : plan.bindings = Binding.bindingsOf plan.unit plan.type
  bound : plan.bindings.isEmpty = false
  anchor_eq : Anchor.locate plan.unit plan.type = .ok plan.anchor
  content : ∃ cs, plan.modeChanges = .ok cs ∧ .content s ∈ cs
  kept : ∃ k ∈ kept, k.span = s ∧ k.text ≠ []

theorem FileRecord.text_of_content {options layouts unit draft rs imports}
    (h : FileRecord options layouts unit draft rs imports) (hunit : unit.Placed) {r} (hr : r ∈ rs)
    {e} (hs : .content e.span ∈ r.changes) (he : e ∈ draft.edits) (hlt : e.start < e.stop) (htext : e.text ≠ []) :
    e.text = r.content := by
  apply Classical.byContradiction
  intro hne
  have hmem := (h.mem_edits_iff (e := (Change.content e.span).edit unit.text r.content r.paths) hlt).2
    (.inl ⟨r, hr, _, hs, rfl⟩)
  obtain ⟨r', hr', id, hu⟩ := h.exists_use_of_texts hunit hmem he rfl hlt ((h.sound r hr).written _ hs) htext hne
  obtain ⟨name, hname, huse⟩ := h.placed hunit hr' hu
  obtain ⟨id', hid'⟩ := (h.placed hunit hr hs).eq_use hunit hname huse
  cases hid'

theorem Plan.Rewrites.standsFor {plan : Plan} {layouts text out draft kept s}
    (happlied : Applied plan.options layouts text out plan.unit draft kept) (h : plan.Rewrites kept s) :
    ∃ code, Edit.StandsFor ⟨s.start, s.stop, code⟩ (Edit.origins text (draft.effective kept)) ∧
      plan.Registers (pathsOf plan.options layouts plan.unit plan.type) code := by
  obtain ⟨p, hrun, rfl⟩ := happlied.recorded
  obtain ⟨htext, hunit, hp, -, rs, imports, hrecord⟩ := record_of_run happlied.read hrun
  have hresolved := Edit.Draft.resolved_of_resolve hp.orderly happlied.resolved
  obtain ⟨r, hr, htype⟩ := hrecord.exists_record h.type_mem
  have hsound := hrecord.sound r hr
  obtain ⟨k, hk, rfl, hwritten⟩ := h.kept
  obtain ⟨hmem, hlt⟩ := hresolved.recorded hk
  obtain ⟨ms, hms, hs⟩ := h.content
  have hcontent := Plan.mem_changes hms hs
    (Plan.changes_of_classChanges h.bindings_eq h.bound h.anchor_eq (htype ▸ hsound.changes_eq))
  have hstands := Edit.standsFor_of_mem hp.orderly hresolved hk
  rw [hp.text_eq] at hstands
  refine ⟨k.text, hstands, ?_⟩
  rw [hrecord.text_of_content hunit hr hcontent hmem hlt hwritten, ← htype, ← hrecord.paths r hr]
  obtain ⟨options, unit, type, bindings, anchor, layout⟩ := plan
  obtain rfl : r.type = type := htype
  obtain rfl : bindings = Binding.bindingsOf unit r.type := h.bindings_eq
  exact hsound.sets anchor h.anchor_eq layout ms hms ⟨_, hs⟩

/-! ## Handlers -/

theorem Plan.Registers.exists_view {plan : Plan} {paths code} (h : plan.Registers paths code)
    {before later b}
    (hsplit : plan.bindings.handlers = before ++ b :: later) {id} (hid : id ∈ b.ids)
    (hlast : ∀ l ∈ later, l.kind = b.kind → id ∉ l.ids) :
    ∃ view, plan.Shows paths b id view ∧ indent plan.pad (plan.registered b view) <:+: code := by
  obtain ⟨listeners, hlisteners, hcode⟩ := h
  have hmem : (b, id) ∈ plan.bindings.registrations := by
    rw [Binding.BindingSet.registrations, Binding.mem_registrationsOf_iff, hsplit, ← List.singleton_append,
      ← List.append_assoc, Binding.lastBound?_append, Binding.lastBound?_eq_none_iff.2 hlast, Option.none_or,
      Binding.lastBound?_append, Binding.lastBound?_singleton hid, Option.some_or]
  obtain ⟨i, heq⟩ := List.mem_iff_get.1 hmem
  obtain ⟨view, hview, hu⟩ := hlisteners.get i.2 (hlisteners.length_eq ▸ i.2)
  rw [show plan.bindings.registrations.get ⟨i, i.2⟩ = (b, id) from heq] at hview hu
  have hu : plan.registered b view ∈ listeners := hu ▸ List.get_mem _ _
  refine ⟨view, hview, .trans ?_ hcode⟩
  have := @infix_join ['\n'] _ _ ((List.singleton_infix_iff _ _).2 (List.mem_map_of_mem (f := indent plan.pad) hu))
  simpa [join] using this

/-- A method whose listener annotation goes away is called by the code that is written for the content statement, for
each of its ids, unless a later method is bound to the same kind and id. -/
theorem handlers_called {plan : Plan} {layouts : Keyed Text Bytes} {text : Text} {out : Outcome} {draft : Edit.Draft}
    {kept : List Edit} {s : Span} (happlied : Applied plan.options layouts text out plan.unit draft kept)
    (hrewrites : plan.Rewrites kept s) :
    ∃ code, Edit.StandsFor ⟨s.start, s.stop, code⟩ (Edit.origins text (draft.effective kept)) ∧
      ∀ earlier later m a, Binding.recognised plan.unit plan.type = earlier ++ (.inr m, a) :: later →
        ∀ b ∈ (Binding.added (.inr m, a)).handlers, ∀ id ∈ b.ids,
          (∃ x ∈ later, ∃ l ∈ (Binding.added x).handlers, l.kind = b.kind ∧ id ∈ l.ids) ∨
          ∃ view, plan.Shows (pathsOf plan.options layouts plan.unit plan.type) b id view ∧
            m.name ++ "(".toList <+: b.call ∧ b.call <:+: plan.registered b view ∧
            indent plan.pad (plan.registered b view) <:+: code := by
  obtain ⟨code, hstands, hregisters⟩ := hrewrites.standsFor happlied
  refine ⟨code, hstands, fun earlier later m a hsplit b hb id hid => ?_⟩
  by_cases hlater : ∃ x ∈ later, ∃ l ∈ (Binding.added x).handlers, l.kind = b.kind ∧ id ∈ l.ids
  · exact .inl hlater
  right
  -- the annotation adds its one handler behind those before it
  have hadds := Binding.adds_added (.inr m, a)
  generalize hd : Binding.added (.inr m, a) = d at hadds hb
  cases hadds with
  | unsupported => cases hb
  | @handler _ _ b' _ _ _ _ hcall =>
    obtain rfl : b = b' := List.mem_singleton.1 hb
    have hhandlers : plan.bindings.handlers = earlier.flatMap (fun x => (Binding.added x).handlers) ++
        b :: later.flatMap fun x => (Binding.added x).handlers := by
      rw [hrewrites.bindings_eq, (Binding.appends_bindingsOf _ _).handlers, hsplit]
      simp [hd]
    have hlast : ∀ l ∈ later.flatMap (fun x => (Binding.added x).handlers), l.kind = b.kind → id ∉ l.ids := by
      intro l hl hkind hmem
      obtain ⟨x, hx, hl⟩ := List.mem_flatMap.1 hl
      exact hlater ⟨x, hx, l, hl, hkind, hmem⟩
    obtain ⟨view, hview, hcode⟩ := hregisters.exists_view hhandlers hid hlast
    have hne : b.call ≠ [] := by
      rintro hnil
      simp [hnil] at hcall
    exact ⟨view, hview, hcall, Listener.call_infix_registration _ _ hne _ _ _, hcode⟩

/-- A class with two handlers for different callbacks of one listener, the first of which has another view too. -/
def selections : Text :=
  "import android.view.*;\nimport android.widget.*;\nimport butterknife.*;\nclass A \x7b\n" ++
    " @OnItemSelected(value = \x7bR.id.t, R.id.u\x7d, callback = X.NOTHING_SELECTED)\n void f() \x7b\x7d\n" ++
    " @OnItemSelected(R.id.t)\n void g() \x7b\x7d\n" ++
    " void onCreate(B b) \x7b\n  setContentView(R.layout.m);\n \x7d\n\x7d\n"

def selectionCode : Text :=
  "setContentView(R.layout.m);\n  ((AdapterView<?>) findViewById(R.id.u)).setOnItemSelectedListener(" ++
    "new AdapterView.OnItemSelectedListener() \x7b\n   @Override\n   public void onItemSelected(" ++
    "AdapterView<?> parent, View view, int position, long id) \x7b\n   \x7d\n\n   @Override\n" ++
    "   public void onNothingSelected(AdapterView<?> parent) \x7b\n    f();\n   \x7d\n  \x7d);\n" ++
    "  ((AdapterView<?>) findViewById(R.id.t)).setOnItemSelectedListener(" ++
    "new AdapterView.OnItemSelectedListener() \x7b\n   @Override\n   public void onItemSelected(" ++
    "AdapterView<?> parent, View view, int position, long id) \x7b\n    g();\n   \x7d\n\n   @Override\n" ++
    "   public void onNothingSelected(AdapterView<?> parent) \x7b\n   \x7d\n  \x7d);"

/-- The first handler is not called for the view that the second is bound to, though it is for another callback. -/
theorem convert_selections : ∃ out, convert toLookups [] selections = .ok out ∧ out.text =
    "import android.view.*;\nimport android.widget.*;\nclass A \x7b\n void f() \x7b\x7d\n void g() \x7b\x7d\n".toList ++
      " void onCreate(B b) \x7b\n  ".toList ++ selectionCode ++ "\n \x7d\n\x7d\n".toList := by
  apply exists_convert
  unfold selections selectionCode
  repeat rewrite [String.toList_ofList]
  decide +kernel

/-- The first annotated method of the class is called `name` and bound to `id`, and no later one is bound to it. -/
def Plan.FirstBinds (plan : Plan) (name id : Text) : Prop :=
  ∃ x ∈ (Binding.recognised plan.unit plan.type).head?, (∃ m ∈ x.1.getRight?, m.name = name) ∧
    ∃ b ∈ (Binding.added x).handlers, b.ids.contains id = true ∧ ((Binding.recognised plan.unit plan.type).tail.flatMap
      fun y => (Binding.added y).handlers.flatMap (·.ids)).contains id = false

instance (plan : Plan) (name id : Text) : Decidable (plan.FirstBinds name id) := by
  unfold Plan.FirstBinds
  infer_instance

theorem handlers_called_selections :
    ∃ (plan : Plan) (out : Outcome) (draft : Edit.Draft) (kept : List Edit) (b : Binding.HandlerBinding)
      (view code : Text), Applied plan.options [] selections out plan.unit draft kept ∧
        plan.Rewrites kept ⟨229, 256⟩ ∧ "u".toList ∈ b.ids ∧
        Edit.StandsFor ⟨229, 256, code⟩ (Edit.origins selections (draft.effective kept)) ∧
        "f(".toList <+: b.call ∧ b.call <:+: plan.registered b view ∧
        indent plan.pad (plan.registered b view) <:+: code := by
  obtain ⟨out, unit, draft, kept, -, happlied, hkept⟩ :=
    exists_applied toLookups [] selections (P := fun r => ∃ k ∈ r.kept, k.span = ⟨229, 256⟩ ∧ k.text ≠ []) <| by
      unfold selections
      repeat rewrite [String.toList_ofList]
      decide +kernel
  have hplan : ∃ plan ∈ firstPlan? toLookups selections, plan.bindings.isEmpty = false ∧
      (∃ cs ∈ plan.modeChanges.toOption, .content ⟨229, 256⟩ ∈ cs) ∧ plan.FirstBinds "f" "u" := by
    unfold selections
    repeat rewrite [String.toList_ofList]
    decide +kernel
  obtain ⟨plan, hplan, hbound, ⟨cs, hcs, hcontent⟩, ⟨x, a⟩, hx, ⟨m, hm, hname⟩, b, hb, hid, hlast⟩ := hplan
  obtain rfl : x = .inr m := Sum.getRight?_eq_some_iff.1 hm
  obtain ⟨hoptions, hread, htype, hbindings, hanchor⟩ := of_firstPlan? hplan
  obtain rfl : plan.unit = unit := Except.ok.inj (hread.symm.trans happlied.read)
  have hrewrites : Plan.Rewrites _ kept ⟨229, 256⟩ :=
    ⟨htype, hbindings, hbound, hanchor, ⟨cs, toOption_eq_some.1 hcs, hcontent⟩, hkept⟩
  rw [← hoptions] at happlied
  obtain ⟨code, hstands, hcalled⟩ := handlers_called happlied hrewrites
  have hsplit := (List.eq_cons_of_mem_head? hx).trans (List.nil_append _).symm
  rw [List.contains_iff_mem] at hid
  rcases hcalled [] _ m a hsplit b hb _ hid with ⟨y, hy, l, hl, -, hid'⟩ | ⟨view, -, hcall, hregistered, hcode⟩
  · rw [List.contains_iff_mem.2 (List.mem_flatMap.2 ⟨y, hy, List.mem_flatMap.2 ⟨l, hl, hid'⟩⟩)] at hlast
    cases hlast
  · rw [hname] at hcall
    exact ⟨_, out, draft, kept, b, view, code, happlied, hrewrites, hid, hstands, hcall, hregistered, hcode⟩

end Conversion

end Rebind
