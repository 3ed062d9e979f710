/-
Which uses of bound fields become the ways to the views.
 The replacement of a use is dropped when it lies in a content statement that is rewritten (`Swallowed`). So a visible
use of a bound field that is not deleted becomes the way to its view exactly when no wider rewriting holds it
(`standsFor_path_iff`).
-/
import Rebind.Proofs.Conversion.Outcome

namespace Rebind.Conversion

open Binding Java Text Option Except List

/-- A wider change that writes something holds the use. -/
def Swallowed (changes : List Change) (u : Span) : Prop :=
  ∃ c ∈ changes, c.isRewriting = true ∧ u.Inside c.span ∧ c.span ≠ u

instance (changes : List Change) (u : Span) : Decidable (Swallowed changes u) :=
  inferInstanceAs (Decidable (∃ c ∈ changes, c.isRewriting = true ∧ u.Inside c.span ∧ c.span ≠ u))

variable {plan : Plan} {cs : List Change} {field : FieldBinding}

theorem Plan.mem_changes {ms c} (hms : plan.modeChanges = .ok ms) (hc : c ∈ ms)
    (hcs : plan.changes = .ok cs) : c ∈ cs := by
  obtain ⟨ms', hms', hcs⟩ := bind_eq_ok.1 hcs
  obtain ⟨bs, -, hcs⟩ := bind_eq_ok.1 hcs
  obtain rfl : ms = ms' := ok.inj (hms.symm.trans hms')
  rw [pure_eq_ok] at hcs
  simp [← hcs, hc]

theorem Plan.changes_of_classChanges (hbindings : plan.bindings = bindingsOf plan.unit plan.type)
    (hbound : plan.bindings.isEmpty = false) (hanchor : Anchor.locate plan.unit plan.type = .ok plan.anchor)
    (hcs : classChanges plan.options plan.unit plan.type = .ok cs) : plan.changes = .ok cs := by
  simp only [classChanges, ← hbindings, hbound] at hcs
  obtain ⟨anchor, hanchor', hcs⟩ := bind_eq_ok.1 hcs
  obtain rfl : plan.anchor = anchor := ok.inj (hanchor.symm.trans hanchor')
  rwa [plan.changes_layout] at hcs

theorem Plan.use_mem_modeChanges {s u uses} (hmode : plan.options.mode = .viewBinding)
    (hcs : plan.modeChanges = .ok cs) (hcontent : .content s ∈ cs) (hfield : field ∈ plan.bindings.fields)
    (huses : plan.visibleUses field.name = .ok uses) (hu : u ∈ uses) : .use u field.id ∈ cs := by
  simp only [Plan.modeChanges, hmode, Plan.holderChanges] at hcs
  split at hcs
  · obtain ⟨inflation, -, hcs⟩ := bind_eq_ok.1 hcs
    split at hcs
    · rw [pure_eq_ok] at hcs
      simp [← hcs] at hcontent
    · obtain ⟨us, hus, hcs⟩ := bind_eq_ok.1 hcs
      rw [pure_eq_ok] at hcs
      have hmem : .use u field.id ∈ us := by
        have hreplace : plan.useChanges field = .ok (uses.map (.use · field.id)) := by
          simp only [Plan.useChanges, huses]
          rfl
        exact mem_of_gather hus hfield hreplace (mem_map.2 ⟨u, hu, rfl⟩)
      simp [← hcs, hmem]
  · rw [pure_eq_ok] at hcs
    simp [← hcs] at hcontent

/-- The plan is for a class that is converted to a holder, with its content statement rewritten, and the use is
one of a bound field that nothing hides. -/
structure Plan.Sees (plan : Plan) (field : FieldBinding) (u : Span) : Prop where
  mode : plan.options.mode = .viewBinding
  type_mem : plan.type ∈ classesOf plan.unit
  bindings_eq : plan.bindings = bindingsOf plan.unit plan.type
  anchor_eq : Anchor.locate plan.unit plan.type = .ok plan.anchor
  rewritten : ∃ cs s, plan.modeChanges = .ok cs ∧ .content s ∈ cs
  bound : field ∈ plan.bindings.fields
  visible : ∃ uses, plan.visibleUses field.name = .ok uses ∧ u ∈ uses

theorem Plan.Sees.use_mem {u} (h : plan.Sees field u)
    (hcs : classChanges plan.options plan.unit plan.type = .ok cs) : .use u field.id ∈ cs := by
  have hbound : plan.bindings.isEmpty = false := by
    simp [BindingSet.isEmpty, ne_nil_of_mem h.bound]
  obtain ⟨ms, s, hms, hs⟩ := h.rewritten
  obtain ⟨uses, huses, hu⟩ := h.visible
  exact Plan.mem_changes hms (Plan.use_mem_modeChanges h.mode hms hs h.bound huses hu)
    (Plan.changes_of_classChanges h.bindings_eq hbound h.anchor_eq hcs)

section Kept

variable {options : Options} {layouts : Keyed Text Bytes} {unit : CompilationUnit} {draft : Edit.Draft}
  {kept : List Edit} {rs : List ClassRecord} {imports changes : List Change} {r : ClassRecord} {u : Span} {id : Text}

theorem FileRecord.mem_kept_of_not_swallowed (h : FileRecord options layouts unit draft rs imports)
    (hunit : unit.Placed) (hresolved : draft.Resolved kept) (hchanges : fileChanges options unit = .ok changes)
    (hr : r ∈ rs) (hu : .use u id ∈ r.changes) (hkept : ∀ k ∈ kept, k.text = [] → ¬ u.Inside k.span)
    (hnot : ¬ Swallowed changes u) : (Change.use u id).edit unit.text r.content r.paths ∈ kept := by
  obtain ⟨name, -, huse⟩ := h.placed hunit hr hu
  obtain ⟨path, hdot, hpath⟩ := (h.sound r hr).known u id hu
  have hmem := (h.mem_edits_iff huse.start_lt).2 (.inl ⟨r, hr, _, hu, rfl⟩)
  obtain ⟨k, hk, hin, hagree⟩ := hresolved.inside _ hmem huse.start_lt
  obtain ⟨hkmem, hklt⟩ := hresolved.recorded hk
  have hktext : k.text ≠ [] := fun hnil => hkept k hk hnil hin
  -- the edit that holds the use writes something, so it is no wider than the use
  have hspan : k.span = u := by
    apply Classical.byContradiction
    intro hne
    obtain ⟨r', hr', c, hc, hrewriting, rfl⟩ := h.exists_rewriting hunit hkmem hklt hktext
    have hc' := (h.mem_changes_iff hchanges).2 (.inl ⟨r', hr', hc⟩)
    have hspan : c.range unit.text = c.span := Change.range_eq_span hrewriting _
    exact hnot ⟨c, hc', hrewriting, hspan ▸ hin, fun heq => hne (hspan.trans heq)⟩
  obtain ⟨id', hu', rfl⟩ := h.exists_use hunit hr hu hkmem hspan
  rcases hagree rfl with htext | htext | htext
  · simp only [Change.edit, hpath, getD_some] at htext
    simp [htext] at hdot
  · exact absurd htext hktext
  · have heq : (Change.use u id).edit unit.text r.content r.paths =
        (Change.use u id').edit unit.text r.content r.paths := Edit.mk.injEq .. ▸ ⟨rfl, rfl, htext⟩
    rw [heq]
    exact hk

theorem FileRecord.not_swallowed_of_mem_kept (h : FileRecord options layouts unit draft rs imports)
    (hresolved : draft.Resolved kept) (hchanges : fileChanges options unit = .ok changes) {e} (he : e ∈ kept) :
    ¬ Swallowed changes e.span := by
  rintro ⟨c, hc, hrewriting, hin, hne⟩
  obtain ⟨-, hlt, houter⟩ := hresolved.outermost e he
  refine hne (houter c.span ((h.takes_iff hchanges).2 ⟨?_, c, hc, Change.range_eq_span hrewriting _⟩) hin)
  have := hin.1
  have := hin.2
  omega

end Kept

/-- A visible use of a bound field that is not deleted becomes the way to its view exactly when no wider
rewriting holds it. -/
theorem standsFor_path_iff {plan : Plan} {field : Binding.FieldBinding} {u : Span}
    {layouts : Keyed Text Bytes} {text : Text} {out : Outcome} {draft : Edit.Draft} {kept : List Edit}
    {changes : List Change} (happlied : Applied plan.options layouts text out plan.unit draft kept)
    (hsees : plan.Sees field u) (hkept : ∀ k ∈ kept, k.text = [] → ¬ u.Inside k.span)
    (hchanges : fileChanges plan.options plan.unit = .ok changes) :
    (∃ path, (pathsOf plan.options layouts plan.unit plan.type).get? field.id = some path ∧ '.' ∈ path ∧
      Edit.StandsFor ⟨u.start, u.stop, path⟩ (Edit.origins text (draft.effective kept))) ↔
      ¬ Swallowed changes u := by
  obtain ⟨p, hrun, rfl⟩ := happlied.recorded
  obtain ⟨htext, hunit, hp, -, rs, imports, hrecord⟩ := record_of_run happlied.read hrun
  have hresolved := Edit.Draft.resolved_of_resolve hp.orderly happlied.resolved
  obtain ⟨r, hr, htype⟩ := hrecord.exists_record hsees.type_mem
  have hsound := hrecord.sound r hr
  have hu := hsees.use_mem (htype ▸ hsound.changes_eq)
  obtain ⟨path, hdot, hpath⟩ := hsound.known u _ hu
  have hedit : (Change.use u field.id).edit plan.unit.text r.content r.paths = ⟨u.start, u.stop, path⟩ := by
    simp [Change.edit, Change.range, hpath]
  rw [← htext, ← htype, ← hrecord.paths r hr, hpath]
  constructor
  · rintro ⟨_, ⟨rfl⟩, -, hstands⟩
    obtain ⟨_, -, huse⟩ := hrecord.placed hunit hr hu
    rw [htext, ← hp.text_eq] at hstands
    have hmem := hstands.mem_kept (ne_nil_of_mem hdot) huse.start_lt
    exact hrecord.not_swallowed_of_mem_kept hresolved hchanges hmem
  · intro hnot
    have hmem := hrecord.mem_kept_of_not_swallowed hunit hresolved hchanges hr hu hkept hnot
    rw [hedit] at hmem
    have hstands := Edit.standsFor_of_mem hp.orderly hresolved hmem
    rw [hp.text_eq, ← htext] at hstands
    exact ⟨path, rfl, hdot, hstands⟩

def firstPlan? (options : Options) (text : Text) : Option Plan := do
  let unit ← (readUnit text).toOption
  let type ← (classesOf unit).head?
  let anchor ← (Anchor.locate unit type).toOption
  return { options, unit, type, bindings := bindingsOf unit type, anchor, layout := [] }

theorem of_firstPlan? {options text} (h : plan ∈ firstPlan? options text) :
    plan.options = options ∧ readUnit text = .ok plan.unit ∧ plan.type ∈ classesOf plan.unit ∧
      plan.bindings = bindingsOf plan.unit plan.type ∧ Anchor.locate plan.unit plan.type = .ok plan.anchor := by
  simp only [firstPlan?, Option.mem_def, Option.bind_eq_bind, Option.bind_eq_some_iff, Option.pure_def,
    Option.some.injEq] at h
  obtain ⟨unit, hunit, type, htype, anchor, hanchor, rfl⟩ := h
  exact ⟨rfl, toOption_eq_some.1 hunit, List.mem_of_mem_head? htype, rfl, toOption_eq_some.1 hanchor⟩

theorem exists_sees_of_firstPlan? {options text content u} (hmode : options.mode = .viewBinding)
    (h : ∃ plan ∈ firstPlan? options text, (∃ cs ∈ plan.modeChanges.toOption, .content content ∈ cs) ∧
      ∃ field ∈ plan.bindings.fields, ∃ uses ∈ (plan.visibleUses field.name).toOption, u ∈ uses) :
    ∃ (plan : Plan) (field : FieldBinding), plan.options = options ∧
      readUnit text = .ok plan.unit ∧ plan.Sees field u := by
  obtain ⟨plan, hplan, ⟨cs, hcs, hcontent⟩, field, hfield, uses, huses, hu⟩ := h
  obtain ⟨hoptions, hread, htype, hbindings, hanchor⟩ := of_firstPlan? hplan
  exact ⟨plan, field, hoptions, hread, hoptions ▸ hmode, htype, hbindings, hanchor,
    ⟨cs, content, toOption_eq_some.1 hcs, hcontent⟩, hfield, uses, toOption_eq_some.1 huses, hu⟩

theorem standsFor_path_boundTitle :
    ∃ (plan : Plan) (field : Binding.FieldBinding) (out : Outcome) (draft : Edit.Draft) (kept : List Edit)
      (path : Text), Applied plan.options [] boundTitle out plan.unit draft kept ∧ plan.Sees field ⟨111, 112⟩ ∧
        (pathsOf plan.options [] plan.unit plan.type).get? field.id = some path ∧
        Edit.StandsFor ⟨111, 112, path⟩ (Edit.origins boundTitle (draft.effective kept)) := by
  obtain ⟨out, unit, draft, kept, -, happlied, hkept, changes, hchanges, hnot⟩ :=
    exists_applied toBinding [] boundTitle (P := fun r =>
      (∀ k ∈ r.kept, k.text = [] → ¬ (⟨111, 112⟩ : Span).Inside k.span) ∧
      ∃ changes ∈ (fileChanges toBinding r.unit).toOption, ¬ Swallowed changes ⟨111, 112⟩) <| by
      unfold boundTitle
      repeat rewrite [String.toList_ofList]
      decide +kernel
  obtain ⟨plan, field, hoptions, hread, hsees⟩ :=
    @exists_sees_of_firstPlan? toBinding boundTitle ⟨81, 108⟩ ⟨111, 112⟩ rfl <| by
      unfold boundTitle
      repeat rewrite [String.toList_ofList]
      decide +kernel
  obtain rfl : plan.unit = unit := ok.inj (hread.symm.trans happlied.read)
  rw [← hoptions] at happlied hchanges
  obtain ⟨path, hpath, -, hstands⟩ :=
    (standsFor_path_iff happlied hsees hkept (toOption_eq_some.1 hchanges)).2 hnot
  exact ⟨plan, field, out, draft, kept, path, happlied, hsees, hpath, hstands⟩

/-- A class whose content statement holds a use of its bound field. -/
def guardedTitle : Text :=
  "import butterknife.*;\nclass A \x7b\n @BindView(R.id.t)\n V t;\n void onCreate(B b) \x7b\n" ++
    "  if (b == null) \x7b\n   setContentView(R.layout.m);\n   t.f();\n  \x7d\n \x7d\n\x7d\n"

/-- The declaration of the field is gone, and its bare use is still there. -/
theorem convert_guardedTitle :
    ∃ out, convert toBinding [] guardedTitle = .ok out ∧ out.text =
      "class A \x7b\n private MBinding binding;\n void onCreate(B b) \x7b\n".toList ++
        "  binding = MBinding.inflate(getLayoutInflater());\n  if (b == null) \x7b\n".toList ++
        "   setContentView(binding.getRoot());\n   t.f();\n  \x7d\n \x7d\n\n @Override\n".toList ++
        " protected void onDestroy() \x7b\n  super.onDestroy();\n  binding = null;\n \x7d\n\x7d\n".toList := by
  apply exists_convert
  unfold guardedTitle
  repeat rewrite [String.toList_ofList]
  decide +kernel

end Rebind.Conversion
