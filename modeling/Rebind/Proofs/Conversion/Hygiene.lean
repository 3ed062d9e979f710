/-
Which names the code written by a conversion may be captured by.
 A use of a bound field is replaced where nothing of its own name hides it. The holder is hidden there by a parameter or
a local variable, if at all. Where views are looked up in a returned view, its variable hides a field of the same name
(`introduced_names_hygienic`). A bound field called like the holder goes (`convert_boundHolder`).
-/
import Rebind.Proofs.Conversion.References
import Rebind.Proofs.Conversion.Uses
import Rebind.Proofs.Conversion.Written
import Rebind.Proofs.Java.Scopes

namespace Rebind

namespace Java

open Text

/-- A parameter called `name` belongs to the method around the offset. -/
def Method.takes (m : Method) (name : Text) (i : Nat) : Prop :=
  (∃ p ∈ m.params, p.name = name) ∧ m.span.covers i = true

/-- A parameter, a local variable or a lambda parameter called `name` is in scope at the offset. -/
def InScope (masked : Text) (type : TypeDecl) (name : Text) (i : Nat) : Prop :=
  ∃ m ∈ type.methods, m.takes name i ∨ ∃ body, m.body = some body ∧
    ∃ scopes, shadowingScopes masked body.opening body.closing name = .ok scopes ∧ ∃ s ∈ scopes, s.covers i = true

/-- A parameter called `name` belongs to the method around the offset, or a body holds the name before it. -/
def Mentioned (masked : Text) (type : TypeDecl) (name : Text) (i : Nat) : Prop :=
  ∃ m ∈ type.methods, m.takes name i ∨ ∃ body, m.body = some body ∧
    ∃ o ∈ occurrences masked body.opening body.closing name, o.start ≤ i

theorem mentioned_of_inScope {masked type name i}
    (h : InScope masked type name i) : Mentioned masked type name i := by
  obtain ⟨m, hm, htakes | ⟨body, hbody, scopes, hscopes, s, hs, hcovers⟩⟩ := h
  · exact ⟨m, hm, .inl htakes⟩
  obtain ⟨o, ho, hscope⟩ := (mem_shadowingScopes hscopes).1 hs
  have hstart := startsAt_scopeAt? _ _ _ o s hscope
  exact ⟨m, hm, .inr ⟨body, hbody, o, ho, hstart ▸ (Span.covers_iff.1 hcovers).1⟩⟩

end Java

namespace Conversion

open Java (Span InScope Mentioned CompilationUnit TypeDecl)
open Text

theorem exists_hidingSpan {plan name hidden i}
    (hhidden : hidingSpans plan name = .ok hidden) (h : InScope plan.unit.masked plan.type name i) :
    ∃ s ∈ hidden, s.covers i = true := by
  obtain ⟨locals, hlocals, rfl⟩ := bind_pure_eq_ok.1 hhidden
  obtain ⟨m, hm, ⟨hparam, hcovers⟩ | ⟨body, hbody, scopes, hscopes, s, hs, hcovers⟩⟩ := h
  · refine ⟨m.span, ?_, hcovers⟩
    simp only [List.mem_append, List.mem_map, List.mem_filter, List.any_eq_true, beq_iff_eq]
    exact .inl (.inl ⟨m, ⟨hm, hparam⟩, rfl⟩)
  · obtain ⟨scopes', hmem, hscopes'⟩ := (Java.mem_of_mapM hlocals).2 body (List.mem_filterMap.2 ⟨m, hm, hbody⟩)
    obtain rfl : scopes = scopes' := Except.ok.inj (hscopes.symm.trans hscopes')
    refine ⟨s, ?_, hcovers⟩
    simp only [List.mem_append, List.mem_flatten]
    exact .inl (.inr ⟨scopes, hmem, hs⟩)

theorem Plan.not_inScope {plan : Plan} {name uses u}
    (huses : plan.visibleUses name = .ok uses) (hu : u ∈ uses) :
    ¬ InScope plan.unit.masked plan.type name u.start := by
  intro hscope
  obtain ⟨hidden, hhidden, rfl⟩ := bind_pure_eq_ok.1 huses
  obtain ⟨s, hs, hcovers⟩ := exists_hidingSpan hhidden hscope
  have hnot := (List.mem_filter.1 hu).2
  simp only [Bool.not_eq_true', List.any_eq_false] at hnot
  exact hnot s hs hcovers

/-! ## Assignments of look-ups -/

/-- What the names in a method stand for: the inflated view in its variable, and the fields. -/
structure Views (V : Type) where
  inflated : V
  fields : Text → V

namespace Views

variable {V : Type} {find : V → Text → V} {s : Views V} {f : Binding.FieldBinding} {fs : List Binding.FieldBinding}

/-- A name is assigned the view that is looked up for the field. The variable hides a field of its name. -/
def assign (find : V → Text → V) (s : Views V) (f : Binding.FieldBinding) : Views V :=
  let found := find s.inflated f.ref
  if f.name = inflatedVariable then { s with inflated := found }
  else { s with fields := fun name => if name = f.name then found else s.fields name }

/-- The assignments of the fields one after the other. -/
def run (find : V → Text → V) (s : Views V) (fs : List Binding.FieldBinding) : Views V := fs.foldl (assign find) s

theorem assign_eq (h : f.name ≠ inflatedVariable) : s.assign find f =
    { s with fields := fun name => if name = f.name then find s.inflated f.ref else s.fields name } := if_neg h

theorem run_inflated (h : ∀ f ∈ fs, f.name ≠ inflatedVariable) : (s.run find fs).inflated = s.inflated := by
  induction fs generalizing s with
  | nil => rfl
  | cons f fs ih =>
    have hf := h f (by simp)
    calc (s.run find (f :: fs)).inflated
        = ((s.assign find f).run find fs).inflated := rfl
      _ = (s.assign find f).inflated := ih (List.forall_mem_cons.1 h).2
      _ = s.inflated := by rw [assign_eq hf]

theorem run_fields_of_ne {name} (h : ∀ f ∈ fs, f.name ≠ name) : (s.run find fs).fields name = s.fields name := by
  induction fs generalizing s with
  | nil => rfl
  | cons f fs ih =>
    have hf : name ≠ f.name := fun heq => h f (by simp) heq.symm
    calc (s.run find (f :: fs)).fields name
        = ((s.assign find f).run find fs).fields name := rfl
      _ = (s.assign find f).fields name := ih (List.forall_mem_cons.1 h).2
      _ = s.fields name := by
        unfold assign
        split
        · rfl
        · exact if_neg hf

theorem run_inflated_count {s : Views Nat} :
    (s.run (fun v _ => v + 1) fs).inflated = s.inflated + fs.countP (·.name = inflatedVariable) := by
  induction fs generalizing s with
  | nil => rfl
  | cons f fs ih =>
    rw [run, List.foldl_cons, ← run, ih, List.countP_cons]
    unfold assign
    split
    · simp_all
      omega
    · simp_all

theorem run_inflated_iff : (∀ (V : Type) (find : V → Text → V) (s : Views V), (s.run find fs).inflated = s.inflated) ↔
    ∀ f ∈ fs, f.name ≠ inflatedVariable := by
  constructor
  · intro h f hf heq
    have hzero := h Nat (fun v _ => v + 1) ⟨0, fun _ => 0⟩
    rw [run_inflated_count] at hzero
    have hcount : fs.countP (·.name = inflatedVariable) = 0 := by omega
    rw [List.countP_eq_zero] at hcount
    exact hcount f hf (by simpa using heq)
  · intro h V find s
    exact run_inflated h

theorem run_fields_append {front back}
    (h : ∀ g ∈ front ++ f :: back, g.name ≠ inflatedVariable) (hlast : ∀ g ∈ back, g.name ≠ f.name) :
    (s.run find (front ++ f :: back)).fields f.name = find s.inflated f.ref := by
  have hfront : (s.run find front).inflated = s.inflated := run_inflated fun g hg => h g (by simp [hg])
  calc (s.run find (front ++ f :: back)).fields f.name
      = (((s.run find front).assign find f).run find back).fields f.name := by
        simp only [run, List.foldl_append, List.foldl_cons]
    _ = ((s.run find front).assign find f).fields f.name := run_fields_of_ne hlast
    _ = find (s.run find front).inflated f.ref := by
        rw [assign_eq (h f (by simp))]
        exact if_pos rfl
    _ = find s.inflated f.ref := by rw [hfront]

end Views

/-- Where the inflated view is returned, it is kept in a variable, each field is assigned a look-up in it, the
listeners are registered, and the variable is returned. -/
theorem convertToLookups_returned {plan : Plan} {init content}
    (hanchor : plan.anchor = .content .fragment init content) (hstored : storedVariable? content.text = none)
    (hreturns : startsWithReturn content.text = true) : convertToLookups plan = (do
      let listeners ← plan.registrations (lookupTarget plan (inflatedVariable ++ "."))
      plan.replaceContent content [] ("View " ++ inflatedVariable ++ " = " ++ strip (content.text.drop "return".length))
        (plan.bindings.fields.map (fun f => f.name ++ " = " ++ lookup (inflatedVariable ++ ".") f.ref ++ ";") ++
          listeners ++ ["return " ++ inflatedVariable ++ ";"])) := by
  simp only [convertToLookups, hanchor, lookupFrame?, hstored, hreturns, if_true, Option.isNone_some, Bool.and_false,
    Option.getD_some]
  rfl

/-- Where a conversion writes over a use of a bound field, no variable of the name of the field is in scope, and one of
the name of the holder is in scope only where it is mentioned before. The ways it writes start with the holder. Where it
looks views up in a returned view, that view is still returned exactly if no bound field is called like its variable,
and then the fields are set. -/
theorem introduced_names_hygienic {options : Options} {layouts : Keyed Text Bytes} {text : Text} {out : Outcome}
    {unit : CompilationUnit} {draft : Edit.Draft} {kept : List Edit}
    (happlied : Applied options layouts text out unit draft kept) :
    (∀ e ∈ draft.edits, e.start < e.stop → e.text ≠ [] → ∃ type ∈ classesOf unit,
      (∃ screen init content, Anchor.locate unit type = .ok (.content screen init content) ∧
        e.span = content.span) ∨
      ∃ f ∈ (Binding.bindingsOf unit type).fields,
        (pathsOf options layouts unit type).get? f.id = some e.text ∧
        ¬ InScope unit.masked type f.name e.start ∧
        ∀ i, InScope unit.masked type options.holder i → Mentioned unit.masked type options.holder i) ∧
    ∀ plan : Plan,
      (∀ id p path q, (accessPath plan id).run p = .ok (path, q) →
        p.paths.get? id = some path ∨ plan.options.holder <+: path) ∧
      ∀ init content, plan.anchor = .content .fragment init content → storedVariable? content.text = none →
        startsWithReturn content.text = true →
        convertToLookups plan = (do
          let listeners ← plan.registrations (lookupTarget plan (inflatedVariable ++ "."))
          plan.replaceContent content []
            ("View " ++ inflatedVariable ++ " = " ++ strip (content.text.drop "return".length))
            (plan.bindings.fields.map (fun f => f.name ++ " = " ++ lookup (inflatedVariable ++ ".") f.ref ++ ";") ++
              listeners ++ ["return " ++ inflatedVariable ++ ";"])) ∧
        ((∀ (V : Type) (find : V → Text → V) (s : Views V),
          (s.run find plan.bindings.fields).inflated = s.inflated) ↔
            ∀ f ∈ plan.bindings.fields, f.name ≠ inflatedVariable) ∧
        ((∀ f ∈ plan.bindings.fields, f.name ≠ inflatedVariable) →
          ∀ (V : Type) (find : V → Text → V) (s : Views V) front f back,
            plan.bindings.fields = front ++ f :: back → (∀ g ∈ back, g.name ≠ f.name) →
            (s.run find plan.bindings.fields).fields f.name = find s.inflated f.ref) := by
  refine ⟨fun e he hlt htext => ?_, fun plan =>
    ⟨fun id p path q hrun => ?_, fun init content hanchor hstored hreturns =>
    ⟨convertToLookups_returned hanchor hstored hreturns, Views.run_inflated_iff,
      fun hnames V find s front f back hsplit hlast => ?_⟩⟩⟩
  · obtain ⟨p, hrun, rfl⟩ := happlied.recorded
    obtain ⟨rfl, hunit, -, -, rs, imports, hrecord⟩ := record_of_run happlied.read hrun
    obtain ⟨r, hr, c, hc, hrewriting, rfl⟩ := hrecord.exists_rewriting hunit he hlt htext
    have hsound := hrecord.sound r hr
    have htype : r.type ∈ classesOf unit := hrecord.types ▸ List.mem_map_of_mem hr
    obtain ⟨-, plan, hplan, rfl, hplanType, hmakes⟩ :=
      exists_plan_of_mem_classChanges hunit hsound.type_mem hsound.changes_eq hc
    refine ⟨r.type, htype, ?_⟩
    rw [← hplanType]
    cases c with
    | removal s => simp [Change.isRewriting] at hrewriting
    | content s =>
      cases hmakes with
      | content hanchor => exact .inl ⟨_, _, _, hanchor ▸ hplan.anchor_eq, rfl⟩
      | bindCall _ hm hb hcall hcs hc' =>
        obtain ⟨s, heq, -⟩ := hplan.bindCall_within hm hb hcall hcs hc'
        cases heq
    | use u id =>
      obtain ⟨path, -, hpath⟩ := hsound.known u id hc
      have htext : (Change.edit plan.unit.text r.content r.paths (.use u id)).text = path := by
        simp [Change.edit, hpath]
      rw [htext, ← hpath, hrecord.paths r hr, ← hplanType]
      cases hmakes with
      | @use f us _ hf hus hu =>
        exact .inr ⟨f, hplan.bindings_eq ▸ hf, rfl, Plan.not_inScope hus hu, fun _ => Java.mentioned_of_inScope⟩
      | bindCall _ hm hb hcall hcs hc' =>
        obtain ⟨s, heq, -⟩ := hplan.bindCall_within hm hb hcall hcs hc'
        cases heq
  · obtain ⟨hwrites, hpath⟩ := ensures_accessPath [] id path q hrun
    exact hwrites.ways id path hpath
  · rw [hsplit] at hnames ⊢
    exact Views.run_fields_append hnames hlast

theorem introduced_names_hygienic_boundTitle :
    ∃ (out : Outcome) (unit : CompilationUnit) (draft : Edit.Draft) (kept : List Edit),
      Applied toBinding [] boundTitle out unit draft kept ∧ ⟨111, 112, "binding.t".toList⟩ ∈ draft.edits ∧
      ∃ type ∈ classesOf unit, ¬ InScope unit.masked type toBinding.holder 111 ∧
        ((∃ screen init content, Anchor.locate unit type = .ok (.content screen init content) ∧
          content.span = ⟨111, 112⟩) ∨
        ∃ f ∈ (Binding.bindingsOf unit type).fields, ¬ InScope unit.masked type f.name 111) ∧
      ∃ plan ∈ firstPlan? toLookups boundFragment, ∃ f, plan.bindings.fields = [f] ∧
        ∀ (V : Type) (find : V → Text → V) (s : Views V), (s.run find [f]).inflated = s.inflated ∧
          (s.run find [f]).fields f.name = find s.inflated f.ref := by
  obtain ⟨out, unit, draft, kept, -, happlied, hmem, hfree⟩ :=
    exists_applied toBinding [] boundTitle (P := fun r => ⟨111, 112, "binding.t".toList⟩ ∈ r.draft.edits ∧
      ∀ type ∈ classesOf r.unit, ∀ m ∈ type.methods, (∀ p ∈ m.params, p.name ≠ toBinding.holder) ∧
        ∀ body ∈ m.body.toList, Java.occurrences r.unit.masked body.opening body.closing toBinding.holder = []) <| by
      unfold boundTitle
      repeat rewrite [String.toList_ofList]
      decide +kernel
  have hnot : ∀ type ∈ classesOf unit, ¬ InScope unit.masked type toBinding.holder 111 := by
    intro type htype hscope
    obtain ⟨m, hm, ⟨⟨p, hp, hname⟩, -⟩ | ⟨body, hbody, o, ho, -⟩⟩ := Java.mentioned_of_inScope hscope
    · exact (hfree type htype m hm).1 p hp hname
    · rw [(hfree type htype m hm).2 body (by simp [hbody])] at ho
      cases ho
  obtain ⟨type, htype, hrewritten⟩ := (introduced_names_hygienic happlied).1 _ hmem (by decide) (by simp)
  obtain ⟨plan, hplan, anchored, hanchored, hstored, hreturns, hnames⟩ : ∃ plan ∈ firstPlan? toLookups boundFragment,
      ∃ a ∈ plan.anchor.fragment?, storedVariable? a.2.text = none ∧ startsWithReturn a.2.text = true ∧
        plan.bindings.fields.map (·.name) = ["t".toList] := by
    unfold boundFragment
    repeat rewrite [String.toList_ofList]
    decide +kernel
  obtain ⟨f, hfields, hname⟩ := List.map_eq_singleton_iff.1 hnames
  obtain ⟨-, hkept, hset⟩ := ((introduced_names_hygienic happlied).2 plan).2 _ _ (Anchor.eq_of_fragment? hanchored)
    hstored hreturns
  rw [hfields] at hkept hset
  have hfree : ∀ g ∈ [f], g.name ≠ inflatedVariable := by
    simp only [List.mem_singleton, forall_eq, hname]
    decide
  refine ⟨out, unit, draft, kept, happlied, hmem, type, htype, hnot type htype, hrewritten.imp ?_ ?_, plan, hplan, f,
    hfields, fun V find s => ⟨hkept.2 hfree V find s, hset hfree V find s [] f [] rfl (by simp)⟩⟩
  · rintro ⟨screen, init, content, hanchor, hspan⟩
    exact ⟨screen, init, content, hanchor, hspan.symm⟩
  · rintro ⟨f, hf, -, hfield, -⟩
    exact ⟨f, hf, hfield⟩

/-- A class with a method whose parameter is called like the holder. -/
def capturingParameter : Text :=
  "import butterknife.*;\nclass A \x7b\n @BindView(R.id.t)\n V t;\n void onCreate(B b) \x7b\n" ++
    "  setContentView(R.layout.m);\n \x7d\n void f(V binding) \x7b\n  t.g();\n \x7d\n\x7d\n"

/-- A class that binds a field called like the variable for a returned view. -/
def capturedField : Text :=
  "import butterknife.*;\nclass A \x7b\n @BindView(R.id.t)\n V view;\n View onCreateView(I i, V p, B b) \x7b\n" ++
    "  return i.inflate(R.layout.m, p, false);\n \x7d\n\x7d\n"

/-- The way to the view starts with the parameter, and the view that is looked up is returned. -/
theorem convert_capturing :
    (∃ out, convert toBinding [] capturingParameter = .ok out ∧ out.text =
      "class A \x7b\n private MBinding binding;\n void onCreate(B b) \x7b\n".toList ++
        "  binding = MBinding.inflate(getLayoutInflater());\n  setContentView(binding.getRoot());\n \x7d\n\n".toList ++
        " @Override\n protected void onDestroy() \x7b\n  super.onDestroy();\n  binding = null;\n \x7d\n".toList ++
        " void f(V binding) \x7b\n  binding.t.g();\n \x7d\n\x7d\n".toList) ∧
    ∃ out, convert toLookups [] capturedField = .ok out ∧ out.text =
      "class A \x7b\n V view;\n View onCreateView(I i, V p, B b) \x7b\n".toList ++
        "  View view = i.inflate(R.layout.m, p, false);\n  view = view.findViewById(R.id.t);\n".toList ++
        "  return view;\n \x7d\n\x7d\n".toList := by
  constructor
  · apply exists_convert
    unfold capturingParameter
    repeat rewrite [String.toList_ofList]
    decide +kernel
  · apply exists_convert
    unfold capturedField
    repeat rewrite [String.toList_ofList]
    decide +kernel

/-- A class that binds a field called like the holder. -/
def boundHolder : Text :=
  "import butterknife.*;\nclass A \x7b\n @BindView(R.id.t)\n V binding;\n" ++
    " void onCreate(B b) \x7b\n  setContentView(R.layout.m);\n \x7d\n\x7d\n"

/-- The field is taken for the holder and goes with its binding, so the class that is left declares none. -/
theorem convert_boundHolder : ∃ out, convert toBinding [] boundHolder = .ok out ∧
    ∃ unit ∈ (Java.readUnit out.text).toOption, (classesOf unit).map (fun type => type.fields.map (·.name)) = [[]] := by
  apply exists_convert
  unfold boundHolder
  repeat rewrite [String.toList_ofList]
  decide +kernel

end Conversion

end Rebind
