/-
What becomes of the uses of an unbinder that is taken out. The class holds on to it exactly if it has another use that
nothing else changes (`unbinder_unused`).
-/
import Rebind.Proofs.Conversion.Cuts
import Rebind.Proofs.Conversion.UnusedImports
import Rebind.Proofs.Conversion.Uses

namespace Rebind.Conversion

open Binding Edit Java Text List

variable {s : Span} {i : Nat}

/-- The conversion of the class takes out the unbinder. -/
structure Plan.Clears (plan : Plan) (f : Field) : Prop where
  type_mem : plan.type ∈ classesOf plan.unit
  bound : (bindingsOf plan.unit plan.type).isEmpty = false
  supported : (bindingsOf plan.unit plan.type).unsupported = []
  field_mem : f ∈ plan.type.fields
  unbinder : Naming.simpleTypeName f.type = unbinderType

/-- The declaration of a field, and the statements that unbind or reset one of its names. -/
def Plan.teardowns (plan : Plan) (f : Field) : List Span :=
  f.span :: f.names.flatMap fun name =>
    (plan.type.methods.filterMap Method.body).flatMap (unbinderStatements plan.unit.masked name)

/-- A class that is converted and has no annotation that stays loses every statement that is recognised as one that
unbinds or resets an unbinder. -/
theorem Plan.Clears.removal_mem {plan : Plan} {f} (h : plan.Clears f) (hs : s ∈ plan.teardowns f)
    {cs} (hcs : classChanges plan.options plan.unit plan.type = .ok cs) : .removal s ∈ cs := by
  simp only [classChanges, h.bound] at hcs
  obtain ⟨anchor, -, hcs⟩ := bind_eq_ok.1 hcs
  obtain ⟨ms, -, hcs⟩ := bind_eq_ok.1 hcs
  obtain ⟨bs, hbs, hcs⟩ := bind_eq_ok.1 hcs
  simp only [Plan.bindingChanges, h.supported, isEmpty_nil, if_true] at hbs
  obtain ⟨calls, -, hbs⟩ := bind_eq_ok.1 hbs
  rw [pure_eq_ok] at hcs hbs
  have hmem : Change.removal s ∈ plan.unbinderChanges f := by
    simp only [Plan.teardowns, mem_cons, mem_flatMap] at hs
    simp only [Plan.unbinderChanges, mem_cons, mem_flatMap, mem_map]
    rcases hs with rfl | ⟨name, hname, body, hbody, hs⟩
    · exact .inl rfl
    · exact .inr ⟨name, hname, body, hbody, s, hs, rfl⟩
  subst hcs hbs
  refine mem_append_right _ (mem_append_right _ (mem_flatMap.2 ⟨f, ?_, hmem⟩))
  exact mem_filter.2 ⟨h.field_mem, by simp [h.unbinder]⟩

section File

variable {options : Options} {unit : CompilationUnit} {layouts : Keyed Text Bytes} {draft : Draft}
  {kept : List Edit} {rs : List ClassRecord} {imports changes : List Change}

theorem FileRecord.copied_iff (h : FileRecord options layouts unit draft rs imports) (hresolved : draft.Resolved kept)
    (hchanges : fileChanges options unit = .ok changes) {c} (hc : unit.text[i]? = some c) :
    (c, .source i) ∈ origins unit.text (draft.effective kept) ↔
      ∀ ch ∈ changes, (ch.range unit.text).covers i = false := by
  constructor
  · intro hmem ch hch
    cases hcovers : (ch.range unit.text).covers i with
    | false => rfl
    | true =>
      obtain ⟨h1, h2⟩ := Span.covers_iff.1 hcovers
      have hlt : (ch.range unit.text).start < (ch.range unit.text).stop := by omega
      obtain ⟨-, e, he, hspan⟩ := (h.takes_iff hchanges).2 ⟨hlt, ch, hch, rfl⟩
      obtain ⟨k, hk, hin, -⟩ := hresolved.inside e he (by rw [← hspan] at hlt; exact hlt)
      rw [hspan] at hin
      exact absurd hmem (source_not_mem_of_kept hk (Nat.le_trans hin.1 h1) (Nat.lt_of_lt_of_le h2 hin.2) c)
  · intro hnone
    apply Classical.byContradiction
    intro hnot
    obtain ⟨k, hk, h1, h2⟩ := exists_kept_of_source_not_mem hc hnot
    obtain ⟨hmem, hlt⟩ := hresolved.recorded hk
    obtain ⟨-, ch, hch, hrange⟩ := (h.takes_iff hchanges).1 ⟨hlt, k, hmem, rfl⟩
    have := hnone ch hch
    rw [hrange] at this
    exact absurd (Span.covers_iff.2 ⟨h1, h2⟩) (by simpa using this)

end File

section Applied

variable {plan : Plan} {f : Field} {layouts : Keyed Text Bytes} {text : Text} {out : Outcome} {draft : Draft}
  {kept : List Edit}

theorem Applied.copied_iff (h : Applied plan.options layouts text out plan.unit draft kept) {changes : List Change}
    (hchanges : fileChanges plan.options plan.unit = .ok changes) (hi : i < text.length) :
    (∃ c, (c, .source i) ∈ origins text (draft.effective kept)) ↔ ∀ ch ∈ changes, (ch.range text).covers i = false := by
  obtain ⟨rfl, -, hresolved, rs, imports, hrecord⟩ := h.record
  rw [← hrecord.copied_iff hresolved hchanges (getElem?_eq_getElem hi)]
  refine ⟨?_, fun hmem => ⟨_, hmem⟩⟩
  rintro ⟨c, hmem⟩
  have hc := (source_mem_origins.1 hmem).1
  rw [getElem?_eq_getElem hi, Option.some.injEq] at hc
  exact hc ▸ hmem

theorem Applied.not_copied (h : Applied plan.options layouts text out plan.unit draft kept)
    (htype : plan.type ∈ classesOf plan.unit)
    (hs : ∀ cs, classChanges plan.options plan.unit plan.type = .ok cs → .removal s ∈ cs)
    (hi : s.covers i = true) (c : Char) : (c, .source i) ∉ origins text (draft.effective kept) := by
  obtain ⟨rfl, hunit, -, rs, imports, hrecord⟩ := h.record
  obtain ⟨r, hr, heq⟩ := hrecord.exists_record htype
  have hcs := (hrecord.sound r hr).changes_eq
  rw [heq] at hcs
  have hmem := hs _ hcs
  have hmarked : Marked plan.unit.masked s := classChanges_placed hunit (mem_classesOf htype) hcs hmem
  have hstop : s.stop ≤ plan.unit.text.length := by
    have := hmarked.1
    rwa [hunit.masked_eq, length_mask] at this
  obtain ⟨h1, h2⟩ := Span.covers_iff.1 hi
  obtain ⟨hstart, hend, -⟩ := @Edit.removalSpan_spec plan.unit.text s.start s.stop hstop
  have hcovers : ((Change.removal s).range plan.unit.text).covers i = true :=
    Span.covers_iff.2 ⟨Nat.le_trans hstart h1, Nat.lt_of_lt_of_le h2 hend⟩
  intro hcopied
  have hnone := (h.copied_iff hrecord.changes (by omega)).1 ⟨c, hcopied⟩ (.removal s)
    (mem_append_left _ (mem_flatMap.2 ⟨r, hr, hmem⟩))
  rw [hcovers] at hnone
  cases hnone

end Applied

/-- An unbinder that is taken out loses its declaration and its teardown. Of its other uses those are copied that no
change takes away. If there are none, its name occurs in the code of the converted text only where an edit wrote a part
of it, where it grew together over a deletion, or where it was copied from a place that is no use of the unbinder. -/
theorem unbinder_unused {plan : Plan} {f : Java.Field} {name : Text} {uses : List Span} {layouts : Keyed Text Bytes}
    {text : Text} {out : Outcome} {draft : Edit.Draft} {kept : List Edit} {changes : List Change}
    (happlied : Applied plan.options layouts text out plan.unit draft kept) (hclears : plan.Clears f)
    (hname : name ∈ f.names) (hchanges : fileChanges plan.options plan.unit = .ok changes)
    (huses : plan.visibleUses name = .ok uses) :
    (∀ s ∈ plan.teardowns f, ∀ i, s.covers i = true →
      ∀ c, (c, .source i) ∉ Edit.origins text (draft.effective kept)) ∧
    (∀ u ∈ uses, (∃ c, (c, .source (u.stop - 1)) ∈ Edit.origins text (draft.effective kept)) ↔
      ∀ ch ∈ changes, (ch.range text).covers (u.stop - 1) = false) ∧
    ((∀ u ∈ uses, ∃ ch ∈ changes, (ch.range text).covers (u.stop - 1) = true) →
      ∀ v ∈ Java.occurrences (Java.mask out.text) 0 out.text.length name,
        Edit.HoldsWritten (Edit.origins text (draft.effective kept)) v ∨
        Edit.Joined (Edit.origins text (draft.effective kept)) v ∨
        ∃ a, Edit.CopiedFrom (Edit.origins text (draft.effective kept)) v a ∧ ∀ u ∈ uses,
          u.stop ≠ a + name.length) := by
  have hread := happlied.read
  obtain ⟨p, hrun, rfl⟩ := happlied.recorded
  obtain ⟨rfl, hunit, -⟩ := record_of_run hread hrun
  have hplaced := hunit.types _ (mem_classesOf hclears.type_mem)
  have hne := (isWord_of_mem_names (hplaced.field hclears.field_mem).2.2.2.2 hname).1
  have hpos := length_pos_iff.2 hne
  have hlt : ∀ u ∈ uses, u.stop - 1 < plan.unit.text.length := by
    intro u hu
    simp only [Plan.visibleUses] at huses
    obtain ⟨hidden, -, huses⟩ := bind_eq_ok.1 huses
    rw [pure_eq_ok] at huses
    subst huses
    have hbody := partner_lt_length hplaced.braces
    have huse := Java.references_spec hbody.1 (Nat.le_of_lt hbody.2) hne (mem_filter.1 hu).1
    have hstop := huse.stop_le
    have hlength : plan.unit.masked.length = plan.unit.text.length := by rw [hunit.masked_eq, Java.length_mask]
    have := huse.start_lt
    omega
  have hcopied := fun u hu => happlied.copied_iff hchanges (hlt u hu)
  refine ⟨fun s hs i hi => happlied.not_copied hclears.type_mem (fun _ => hclears.removal_mem hs) hi, hcopied,
    fun hgone v hv => ?_⟩
  have hlength : out.text.length = (Edit.origins plan.unit.text (p.draft.effective kept)).length := by
    rw [happlied.text_eq, length_map]
  obtain ⟨-, hstop, hle, -⟩ := Java.mem_occurrences (Nat.zero_le _) (by rw [Java.length_mask]) hv
  have hother := @holdsWritten_or_joined_or_elsewhere _ v (fun a => ∃ u ∈ uses, u.stop = a + name.length)
    (name.length - 1) (by omega) (hlength ▸ hle) (by
      rintro a ⟨u, hu, hua⟩ c hmem
      obtain ⟨ch, hch, hcovers⟩ := hgone u hu
      rw [show a + (name.length - 1) = u.stop - 1 by omega] at hmem
      rw [(hcopied u hu).1 ⟨c, hmem⟩ ch hch] at hcovers
      cases hcovers)
  refine hother.imp_right (Or.imp_right ?_)
  rintro ⟨a, ha, hnot⟩
  exact ⟨a, ha, fun u hu heq => hnot ⟨u, hu, heq⟩⟩

/-- A class that unbinds its views if they are bound. -/
def guardedTeardown : Text :=
  "import butterknife.*;\nclass A \x7b\n @BindView(R.id.t)\n V t;\n Unbinder u;\n void onDestroy() \x7b\n" ++
    "  if (u != null) this.u.unbind();\n \x7d\n\x7d\n"

theorem exists_clears_guardedTeardown {P : Plan → Field → Prop}
    (h : ∃ plan ∈ firstPlan? toBinding guardedTeardown, ∃ f ∈ plan.type.fields,
      (bindingsOf plan.unit plan.type).isEmpty = false ∧
      (bindingsOf plan.unit plan.type).unsupported = [] ∧ Naming.simpleTypeName f.type = unbinderType ∧ P plan f) :
    ∃ (plan : Plan) (f : Field) (out : Outcome) (draft : Draft) (kept : List Edit),
      Applied plan.options [] guardedTeardown out plan.unit draft kept ∧ plan.Clears f ∧ P plan f := by
  obtain ⟨plan, hplan, f, hf, hbound, hsupported, hunbinder, hP⟩ := h
  obtain ⟨out, unit, draft, kept, -, happlied, -⟩ :=
    exists_applied toBinding [] guardedTeardown (P := fun r => r.kept ≠ []) <| by
      unfold guardedTeardown
      repeat rewrite [String.toList_ofList]
      decide +kernel
  obtain ⟨hoptions, hread, htype, -, -⟩ := of_firstPlan? hplan
  obtain rfl : unit = plan.unit := Except.ok.inj (happlied.read.symm.trans hread)
  exact ⟨plan, f, out, draft, kept, hoptions ▸ happlied, ⟨htype, hbound, hsupported, hf, hunbinder⟩, hP⟩

theorem unbinder_unused_guardedTeardown :
    ∃ (plan : Plan) (f : Java.Field) (out : Outcome) (draft : Edit.Draft) (kept : List Edit),
      Applied plan.options [] guardedTeardown out plan.unit draft kept ∧ plan.Clears f ∧ "u".toList ∈ f.names ∧
      plan.visibleUses "u" = .ok [⟨96, 97⟩, ⟨107, 113⟩] ∧ plan.teardowns f = [⟨58, 69⟩, ⟨92, 123⟩, ⟨107, 123⟩] ∧
      ∀ i, 92 ≤ i → i < 123 → ∀ c, (c, .source i) ∉ Edit.origins guardedTeardown (draft.effective kept) := by
  obtain ⟨plan, f, out, draft, kept, happlied, hclears, hname, hteardowns, huses, changes, hchanges, -⟩ :=
    exists_clears_guardedTeardown (P := fun plan f => "u".toList ∈ f.names ∧
      plan.teardowns f = [⟨58, 69⟩, ⟨92, 123⟩, ⟨107, 123⟩] ∧
      [⟨96, 97⟩, ⟨107, 113⟩] ∈ (plan.visibleUses "u").toOption ∧
      ∃ changes ∈ (fileChanges plan.options plan.unit).toOption, changes ≠ []) <| by
      unfold guardedTeardown
      repeat rewrite [String.toList_ofList]
      decide +kernel
  have hunused := unbinder_unused happlied hclears hname (toOption_eq_some.1 hchanges) (toOption_eq_some.1 huses)
  refine ⟨plan, f, out, draft, kept, happlied, hclears, hname, toOption_eq_some.1 huses, hteardowns, fun i h1 h2 => ?_⟩
  exact hunused.1 ⟨92, 123⟩ (by simp [hteardowns]) i (Span.covers_iff.2 ⟨h1, h2⟩)

/-- A class that resets its unbinder together with the call. -/
def resetInGuard : Text :=
  "import butterknife.*;\nclass A \x7b\n @BindView(R.id.t)\n V t;\n Unbinder u;\n void onDestroy() \x7b\n" ++
    "  if (u != null) \x7b\n   u.unbind();\n   u = null;\n  \x7d\n \x7d\n\x7d\n"

/-- It loses the unbinder, and still tests whether the views are bound. -/
theorem convert_resetInGuard : ∃ out, convert toBinding [] resetInGuard = .ok out ∧
    Java.references (Java.mask out.text) 0 out.text.length "u" = [⟨42, 43⟩] ∧
    Java.occurrences (Java.mask out.text) 0 out.text.length unbinderType = [] := by
  apply exists_convert
  unfold resetInGuard
  repeat rewrite [String.toList_ofList]
  decide +kernel

end Rebind.Conversion
