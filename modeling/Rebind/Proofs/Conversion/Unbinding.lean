/-
A call that binds views is deleted only when nothing needs it.
 A class takes code out of its methods only if all annotations that are recognised at the front of its members are
converted, and these are deleted as well (`deleted_call_leaves_no_annotation`). An annotation behind a modifier is at
the front of no member: `convert_behindModifier` loses the call it needs.
-/
import Rebind.Proofs.Conversion.Removals

namespace Rebind.Conversion

open Java Text

variable {options : Options} {unit : CompilationUnit}

/-! ## Deletions in methods -/

theorem deletion_in_body {layouts draft rs imports} (hread : readUnit unit.text = .ok unit)
    (hrecord : FileRecord options layouts unit draft rs imports) {r} (hr : r ∈ rs) {m b} (hm : m ∈ r.type.methods)
    (hb : m.body = some b) {e} (he : e ∈ draft.edits)
    (htext : e.text = []) {i} (hbody : b.opening ≤ i ∧ i ≤ b.closing) (hi : e.start ≤ i ∧ i < e.stop) {d}
    (hd : unit.text[i]? = some d) (hblank : isBlank d = false) :
    (Binding.bindingsOf unit r.type).isEmpty = false ∧ (Binding.bindingsOf unit r.type).unsupported = [] := by
  have hunit := (placed_of_readUnit hread).2
  have htype := (hrecord.sound r hr).type_mem
  have hplaced := hunit.types _ htype
  obtain ⟨-, hopening, -, hclosing⟩ := hplaced.methodBody hm hb
  rcases hrecord.exists_of_covers hunit he hi hd hblank with ⟨r', hr', c, hc, rfl, hcovers⟩ | ⟨-, im, him, -, hcovers⟩
  · have hsound := hrecord.sound r' hr'
    obtain ⟨s, rfl⟩ := hsound.eq_removal hc htext
    have hcovers : s.covers i = true := hcovers
    obtain ⟨hempty, hremoves⟩ := classChanges_removes hunit hsound.type_mem hsound.changes_eq hc
    have hwithin := hremoves.within (hunit.types _ hsound.type_mem)
    have hspan := Span.covers_iff.1 hcovers
    obtain rfl : r = r' := hrecord.eq_of_within hunit hr hr' (i := i) (by omega) (by omega)
    exact ⟨hempty, hremoves.of_covers_body hplaced hm hb hbody hcovers⟩
  · -- imports stand in front of all classes
    have := import_stop_le_start hread him htype
    have := hplaced.start_lt
    have := (Span.covers_iff.1 hcovers).2
    omega

/-- Where the brackets of a file nest, a class that loses a call that binds views keeps none of the annotations that
are recognised at the front of its members: each lies in a deletion that took effect, and none of its characters is
copied. -/
theorem deleted_call_leaves_no_annotation {layouts : Keyed Text Bytes} {text : Text} {out : Outcome}
    (hwell : WellBracketed (Java.mask text)) (h : convert options layouts text = .ok out) :
    ∃ unit draft kept, Applied options layouts text out unit draft kept ∧
      ∀ type ∈ classesOf unit, ∀ m ∈ type.methods, ∀ b, m.body = some b →
        ∀ call ∈ allMatches unit.masked b.opening b.closing Before.unqualified bindCall?,
          (∃ k ∈ kept, k.text = [] ∧ (⟨call.start, call.stop⟩ : Span).Inside k.span) →
          ∀ a, Heads type a → Binding.recognises unit.imports a = true →
            (∃ k ∈ kept, k.text = [] ∧ a.span.Inside k.span) ∧
            ∀ i c, a.span.covers i = true → (c, .source i) ∉ Edit.origins text (draft.effective kept) := by
  obtain ⟨unit, draft, kept, happlied⟩ := applied_of_convert h
  refine ⟨unit, draft, kept, happlied, ?_⟩
  rintro type htype m hm b hb call hcall ⟨k, hk, hnone, hin⟩ a ha hrecognised
  have hread := happlied.read
  obtain ⟨p, hrun, rfl⟩ := happlied.recorded
  obtain ⟨rfl, hunit, hp, -, rs, imports, hrecord⟩ := record_of_run hread hrun
  have hresolved := Edit.Draft.resolved_of_resolve hp.orderly happlied.resolved
  obtain ⟨r, hr, rfl⟩ := hrecord.exists_record htype
  obtain ⟨-, -, hlt, hclosing⟩ := (hunit.types _ (mem_classesOf htype)).methodBody hm hb
  have hlength := (Java.partner_lt_length (hunit.types _ (mem_classesOf htype)).braces).2
  -- the parenthesis of the call is code
  have hwithin := allMatches_spec hcall (by omega) (by omega)
  obtain ⟨i, hi, hi', hparen⟩ := hwithin.exists_of_passes fun h => (callTo_bindCall? h).passes
  have hparen : unit.text[i]? = some '(' := by
    rw [hunit.masked_eq] at hparen
    exact Java.getElem?_of_mask hparen (by decide)
  have hstart := hwithin.le_start
  have hstop := hwithin.stop_le
  have hin : k.start ≤ call.start ∧ call.stop ≤ k.stop := hin
  obtain ⟨hconverted, hsupported⟩ := deletion_in_body hread hrecord hr hm hb (hresolved.recorded hk).1 hnone
    (by omega) (by omega) hparen (by decide)
  obtain ⟨k', hk', hnone', -, hin'⟩ := exists_deletion hunit (hunit.masked_eq ▸ hwell) hrecord hresolved hr hconverted
    (Binding.noted_bindingsOf unit r.type ha hrecognised hsupported)
  refine ⟨⟨k', hk', hnone', hin'⟩, fun j c hj hmem => ?_⟩
  have hin' : k'.start ≤ a.span.start ∧ a.span.stop ≤ k'.stop := hin'
  rw [Span.covers_iff] at hj
  exact Edit.source_not_mem_of_kept hk' (by omega) (by omega) c hmem

/-- A class with an annotation behind a modifier that only the call that binds views serves. -/
def behindModifier : Text :=
  "import butterknife.*;\nclass A \x7b\n @BindView(R.id.t)\n V t;\n private @BindString(R.string.s) String s;\n" ++
    " void onCreate(B b) \x7b\n  setContentView(R.layout.m);\n  ButterKnife.bind(this);\n \x7d\n\x7d\n"

/-- The annotation behind the modifier is still there, and no call that binds views is. -/
theorem convert_behindModifier :
    ∃ out, convert toBinding [] behindModifier = .ok out ∧
      Java.occurrences (Java.mask out.text) 0 out.text.length "BindString" = [⟨69, 79⟩] ∧
      allMatches (Java.mask out.text) 0 out.text.length Before.unqualified bindCall? = [] := by
  apply exists_convert
  unfold behindModifier
  repeat rewrite [String.toList_ofList]
  decide +kernel

/-- Of the annotation at the front of its field nothing is left. -/
theorem deleted_call_leaves_no_annotation_behindModifier :
    ∃ out unit draft kept, Applied toBinding [] behindModifier out unit draft kept ∧
      (∃ k ∈ kept, k.text = [] ∧ (⟨154, 171⟩ : Span).Inside k.span) ∧
      (∃ k ∈ kept, k.text = [] ∧ (⟨33, 50⟩ : Span).Inside k.span) ∧
      ∀ i c, (⟨33, 50⟩ : Span).covers i = true →
        (c, .source i) ∉ Edit.origins behindModifier (draft.effective kept) := by
  have hreplay : ∃ r ∈ replay? toBinding [] behindModifier,
      (∃ k ∈ r.kept, k.text = [] ∧ (⟨154, 171⟩ : Span).Inside k.span) ∧
      ∃ type ∈ classesOf r.unit, ∃ m ∈ type.methods, ∃ b ∈ m.body,
        (∃ call ∈ allMatches r.unit.masked b.opening b.closing Before.unqualified bindCall?,
          call.start = 154 ∧ call.stop = 171) ∧
        ∃ f ∈ type.fields, ∃ a ∈ f.annotations, Binding.recognises r.unit.imports a = true ∧ a.span = ⟨33, 50⟩ := by
    unfold behindModifier
    repeat rewrite [String.toList_ofList]
    decide +kernel
  obtain ⟨out, -, -, -, hout, -⟩ := exists_applied _ _ _ hreplay
  obtain ⟨unit, draft, kept, happlied, h⟩ :=
    deleted_call_leaves_no_annotation (by decide +kernel : WellBracketed (Java.mask behindModifier)) hout
  obtain ⟨hdeleted, type, htype, m, hm, b, hb, ⟨call, hcall, hstart, hstop⟩, f, hf, a, ha, hrecognised, hspan⟩ :=
    happlied.of_replay? hreplay
  obtain ⟨hgone, hnot⟩ := h type htype m hm b hb call hcall (by rw [hstart, hstop]; exact hdeleted) a
    (.inl ⟨f, hf, ha⟩) hrecognised
  exact ⟨out, unit, draft, kept, happlied, hdeleted, hspan ▸ hgone, hspan ▸ hnot⟩

end Rebind.Conversion
