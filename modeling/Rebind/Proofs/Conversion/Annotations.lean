/-
The annotations of a converted class are gone.

The deletion of an annotation must not lie in an edit that writes something. It does not lie in a use, which holds no at
sign, nor in a content statement. So only another deletion can cover it (`convert_deletes_annotations`).
-/
import Rebind.Proofs.Conversion.Outcome

namespace Rebind.Conversion

open Binding Edit Java Text List

variable {options : Options} {unit : CompilationUnit}

variable {masked : Text} {type : TypeDecl} {s : Span} {a : Annotation}

theorem content_within (hwell : WellBracketed masked) (htype : type.Placed masked)
    (hc : (Change.content s).Placed masked type) :
    ∃ m ∈ type.methods, ∃ b, m.body = some b ∧ b.opening < s.start ∧ s.stop ≤ b.closing := by
  obtain ⟨m, hm, b, hb, statement, rfl, hplaced⟩ := hc
  obtain ⟨hpair, -⟩ := htype.methodBody hm hb
  have := hplaced.le_start
  have := hplaced.start_lt
  exact ⟨m, hm, b, hb, by omega, hplaced.reaches.within b.opening hwell hpair (by omega) (by omega)⟩

/-- The annotation stands at the front of a member of the type. -/
def Heads (type : TypeDecl) (a : Annotation) : Prop :=
  (∃ f ∈ type.fields, a ∈ f.annotations) ∨ ∃ m ∈ type.methods, a ∈ m.annotations

theorem Heads.within (htype : type.Placed masked) (ha : Heads type a) :
    ∃ m ∈ type.members, a.Within masked m.span.start m.span.stop ∧
      ∀ m' b, m = .method m' → m'.body = some b → a.span.stop ≤ b.opening := by
  rcases ha with ⟨f, hf, ha⟩ | ⟨m, hm, ha⟩
  · obtain ⟨-, -, -, -, hplaced⟩ := htype.field hf
    exact ⟨.field f, TypeDecl.mem_members_of_field hf,
      (hplaced.annotations a ha).widen (Nat.le_refl _) (Nat.sub_le _ _), by simp⟩
  · obtain ⟨-, -, -, hplaced⟩ := htype.method hm
    refine ⟨.method m, TypeDecl.mem_members_of_method hm, hplaced.annotations a ha, ?_⟩
    rintro m' b ⟨rfl⟩ hb
    exact (hplaced.body b hb).2.2.2 a ha

/-- Where brackets nest, a content statement stays in the body of its method. -/
theorem annotation_not_inside_content (hunit : unit.Placed) (hwell : WellBracketed unit.masked) {type'}
    (htype : type ∈ unit.types) (htype' : type' ∈ unit.types) (ha : Heads type a)
    (hs : (Change.content s).Placed unit.masked type') : ¬ a.span.Inside s := by
  intro hin
  have hplaced := hunit.types type htype
  have hplaced' := hunit.types type' htype'
  obtain ⟨m, hm, hwithin, hbody⟩ := ha.within hplaced
  obtain ⟨m', hm', b, hb, hstart, hstop⟩ := content_within hwell hplaced' hs
  obtain ⟨h1, h2, h3, -⟩ := hplaced.members m hm
  obtain ⟨h4, h5, h6, hplacedm'⟩ := hplaced'.method hm'
  obtain ⟨h7, h8, h9, -⟩ := hplacedm'.body b hb
  have := hwithin.le_start
  have := hwithin.start_lt
  have := hwithin.stop_le
  have := hin.1
  have := hin.2
  rcases eq_or_of_pairwise hunit.apart htype htype' with rfl | hlt | hlt
  · rcases eq_or_of_pairwise hplaced.apart hm (TypeDecl.mem_members_of_method hm') with rfl | hle | hle
    · have := hbody m' b rfl hb
      omega
    · have hle : m.span.stop ≤ m'.span.start := hle
      omega
    · have hle : m'.span.stop ≤ m.span.start := hle
      omega
  · omega
  · omega

theorem annotation_not_inside_use {lo hi} (ha : a.Within masked lo hi) {id}
    (hs : (Change.use s id).Placed masked type) : ¬ a.span.Inside s := by
  rintro ⟨h1, h2⟩
  obtain ⟨name, hname, huse⟩ := hs
  have := ha.start_lt
  exact huse.not_mark hname h1 (by omega) ha.at_sign (by decide)

theorem removal_mem_classChanges {cs} (hcs : classChanges options unit type = .ok cs)
    (hconverted : (bindingsOf unit type).isEmpty = false) (ha : a ∈ (bindingsOf unit type).annotations)
    : .removal a.span ∈ cs := by
  simp only [classChanges, hconverted] at hcs
  obtain ⟨anchor, -, hcs⟩ := bind_eq_ok.1 hcs
  obtain ⟨converted, -, hcs⟩ := bind_eq_ok.1 hcs
  obtain ⟨unbound, -, rfl⟩ := bind_pure_eq_ok.1 hcs
  simp only [mem_append, mem_map]
  exact .inl (.inl ⟨a, ha, rfl⟩)

theorem exists_deletion {layouts draft kept rs imports} (hunit : unit.Placed) (hwell : WellBracketed unit.masked)
    (hrecord : FileRecord options layouts unit draft rs imports) (hresolved : draft.Resolved kept) {r}
    (hr : r ∈ rs) (hconverted : (bindingsOf unit r.type).isEmpty = false)
    (ha : a ∈ (bindingsOf unit r.type).annotations) :
    ∃ k ∈ kept, k.text = [] ∧ a.span.start < a.span.stop ∧ a.span.Inside k.span := by
  have hsound := hrecord.sound r hr
  have hheads : Heads r.type a := (drawn_bindingsOf unit r.type).annotations a ha
  obtain ⟨m, -, hwithin, -⟩ := hheads.within (hunit.types _ hsound.type_mem)
  have hremoval := removal_mem_classChanges hsound.changes_eq hconverted ha
  have hmarked : Marked unit.masked a.span := hrecord.placed hunit hr hremoval
  have hlt := hwithin.start_lt
  have hinside := hmarked.inside_removed hunit
  have hrange : (removed unit.text a.span).start < (removed unit.text a.span).stop := by
    have := hinside.1
    have := hinside.2
    omega
  obtain ⟨k, hk, hkin, -⟩ := hresolved.inside ((Change.removal a.span).edit unit.text r.content r.paths)
    ((hrecord.mem_edits_iff hrange).2 (.inl ⟨r, hr, _, hremoval, rfl⟩)) hrange
  have hak : a.span.Inside k.span := hinside.trans hkin
  obtain ⟨hmem, hklt⟩ := hresolved.recorded hk
  refine ⟨k, hk, ?_, hlt, hak⟩
  apply Classical.byContradiction
  intro htext
  obtain ⟨r', hr', c, hc, hrewriting, rfl⟩ := hrecord.exists_rewriting hunit hmem hklt htext
  have hplaced := hrecord.placed hunit hr' hc
  have htype' := (hrecord.sound r' hr').type_mem
  cases c with
  | removal s => simp [Change.isRewriting] at hrewriting
  | content s => exact annotation_not_inside_content hunit hwell hsound.type_mem htype' hheads hplaced hak
  | use s id => exact annotation_not_inside_use hwithin hplaced hak

/-- Where the brackets of a file nest, every annotation of a converted class lies in a deletion that took
effect, apart from all replacements, and none of its characters is copied. -/
theorem convert_deletes_annotations {layouts : Keyed Text Bytes} {text : Text} {out : Outcome}
    (hwell : WellBracketed (Java.mask text)) (h : convert options layouts text = .ok out) :
    ∃ unit draft kept, Applied options layouts text out unit draft kept ∧
      ∀ type ∈ classesOf unit, (Binding.bindingsOf unit type).isEmpty = false →
        ∀ a ∈ (Binding.bindingsOf unit type).annotations,
          (∃ k ∈ kept, k.text = [] ∧ a.span.Inside k.span) ∧
          (∀ k ∈ kept, k.text ≠ [] → k.stop ≤ a.span.start ∨ a.span.stop ≤ k.start) ∧
          ∀ i c, a.span.covers i = true → (c, .source i) ∉ Edit.origins text (draft.effective kept) := by
  obtain ⟨unit, draft, kept, happlied⟩ := applied_of_convert h
  refine ⟨unit, draft, kept, happlied, fun type htype hconverted a ha => ?_⟩
  obtain ⟨p, hrun, rfl⟩ := happlied.recorded
  obtain ⟨rfl, hunit, hp, -, rs, imports, hrecord⟩ := record_of_run happlied.read hrun
  have hresolved := Edit.Draft.resolved_of_resolve hp.orderly happlied.resolved
  obtain ⟨r, hr, rfl⟩ := hrecord.exists_record htype
  obtain ⟨k, hk, htext, hlt, hin⟩ :=
    exists_deletion hunit (hunit.masked_eq ▸ hwell) hrecord hresolved hr hconverted ha
  have hin' : k.start ≤ a.span.start ∧ a.span.stop ≤ k.stop := hin
  refine ⟨⟨k, hk, htext, hin⟩, fun l hl hne => ?_, fun i c hi hmem => ?_⟩
  · rcases hresolved.eq_or_apart hk hl with rfl | hle | hle
    · exact absurd htext hne
    · exact .inr (by omega)
    · exact .inl (by omega)
  · rw [Span.covers_iff] at hi
    have hnot := (Edit.source_mem_origins.1 hmem).2
    rw [any_eq_false] at hnot
    exact hnot k (mem_append_right _ hk) (Edit.covers_iff.2 (by omega))

theorem convert_deletes_annotations_boundTitle :
    ∃ out unit draft kept, Applied toBinding [] boundTitle out unit draft kept ∧
      (∃ k ∈ kept, k.text = [] ∧ (⟨33, 50⟩ : Span).Inside k.span) ∧
      ∀ i c, (⟨33, 50⟩ : Span).covers i = true →
        (c, .source i) ∉ Edit.origins boundTitle (draft.effective kept) := by
  have hannotation : ∃ unit ∈ (Java.readUnit boundTitle).toOption, ∃ type ∈ classesOf unit,
      (Binding.bindingsOf unit type).isEmpty = false ∧
        ∃ a ∈ (Binding.bindingsOf unit type).annotations, a.span = ⟨33, 50⟩ := by decide +kernel
  obtain ⟨unit', hread, type, htype, hconverted, a, ha, hspan⟩ := hannotation
  obtain ⟨out, hout, -⟩ := exists_convert_boundTitle
  obtain ⟨unit, draft, kept, happlied, h⟩ :=
    convert_deletes_annotations (by decide +kernel : WellBracketed (Java.mask boundTitle)) hout
  obtain rfl : unit = unit' := Except.ok.inj (happlied.read.symm.trans (toOption_eq_some.1 hread))
  obtain ⟨hdeleted, -, hgone⟩ := h type htype hconverted a ha
  exact ⟨out, unit, draft, kept, happlied, hspan ▸ hdeleted, hspan ▸ hgone⟩

end Rebind.Conversion
