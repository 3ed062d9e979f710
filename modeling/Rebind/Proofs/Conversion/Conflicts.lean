/-
When the edits of a conversion conflict: an annotation may straddle the declaration it starts, and uses may clash. No
other conversion conflicts (`convert_conflict_iff_straddling`).
-/
import Rebind.Proofs.Conversion.Outcome

namespace Rebind.Conversion

open Edit Java Text List

variable {options : Options} {layouts : Keyed Text Bytes} {unit : CompilationUnit}

/-- The span is what one of the changes takes away. -/
def TakenAway (text : Text) (changes : List Change) (s : Span) : Prop := ∃ c ∈ changes, c.range text = s

/-- Two changes of a class turn one use, which no wider change takes away, into the ways to different views. -/
def ClashingUses (options : Options) (layouts : Keyed Text Bytes) (unit : CompilationUnit)
    (changes : List Change) : Prop :=
  ∃ type ∈ classesOf unit, ∃ cs, classChanges options unit type = .ok cs ∧ ∃ u id id',
    .use u id ∈ cs ∧ .use u id' ∈ cs ∧ Span.Outermost (TakenAway unit.text changes) u ∧
      (pathsOf options layouts unit type).get? id ≠ (pathsOf options layouts unit type).get? id'

namespace FileRecord

variable {draft : Draft} {rs : List ClassRecord} {imports changes : List Change}
  (h : FileRecord options layouts unit draft rs imports)

include h

theorem outermost_iff (hcs : fileChanges options unit = .ok changes) {s} :
    Span.Outermost draft.Takes s ↔ Span.Outermost (TakenAway unit.text changes) s :=
  Span.Outermost.congr fun _ hs => (h.takes_iff hcs).trans (and_iff_right hs)

variable (hunit : unit.Placed)

include hunit

theorem exists_use_of_texts {a b} (ha : a ∈ draft.edits) (hb : b ∈ draft.edits) (hspan : b.span = a.span)
    (hlt : a.start < a.stop) (ha' : a.text ≠ []) (hb' : b.text ≠ []) (hne : b.text ≠ a.text) :
    ∃ r ∈ rs, ∃ id, .use a.span id ∈ r.changes := by
  have written : ∀ {e : Edit}, e ∈ draft.edits → e.start < e.stop → e.text ≠ [] →
      ∃ r ∈ rs, (∃ id, .use e.span id ∈ r.changes) ∨ (.content e.span ∈ r.changes ∧ e.text = r.content) := by
    intro e he hlt hne
    obtain ⟨r, hr, c, hc, hrewriting, rfl⟩ := h.exists_rewriting hunit he hlt hne
    cases c with
    | removal s => simp [Change.isRewriting] at hrewriting
    | content s => exact ⟨r, hr, .inr ⟨hc, rfl⟩⟩
    | use s id => exact ⟨r, hr, .inl ⟨id, hc⟩⟩
  have hlt' : b.span.start < b.span.stop := hspan ▸ hlt
  obtain ⟨r, hr, ⟨id, hu⟩ | ⟨hcontent, htext⟩⟩ := written ha hlt ha'
  · exact ⟨r, hr, id, hu⟩
  obtain ⟨r', hr', ⟨id, hu⟩ | ⟨hcontent', htext'⟩⟩ := written hb hlt' hb'
  · exact ⟨r', hr', id, hspan ▸ hu⟩
  -- both rewrite a content statement; it starts in one class, for which one text is written
  have within : ∀ {r}, r ∈ rs → .content a.span ∈ r.changes →
      r.type.body.opening < a.start ∧ a.start < r.type.body.closing := by
    intro r hr hc
    obtain ⟨m, hm, b, hb, statement, hstatement, hplaced⟩ := h.placed hunit hr hc
    obtain ⟨-, h1, -, h2⟩ := (hunit.types _ (h.sound r hr).type_mem).methodBody hm hb
    have hstart : statement.span.start = a.start := congrArg Span.start hstatement
    have h3 := hplaced.le_start
    have h4 := hplaced.start_lt
    omega
  obtain rfl := h.eq_of_within hunit hr hr' (within hr hcontent) (within hr' (hspan ▸ hcontent'))
  exact absurd (htext'.trans htext.symm) hne

theorem clashingUses_of_differing (hcs : fileChanges options unit = .ok changes) (hdiffering : draft.Differing) :
    ClashingUses options layouts unit changes := by
  obtain ⟨s, hs, first, hfind, hfirst, e, he, rfl, htext, hne⟩ := hdiffering
  have hmem := mem_of_find?_eq_some hfind
  have hspan : first.span = e.span := by simpa using find?_some hfind
  have hlt : first.span.start < first.span.stop := hspan ▸ hs.2.1
  obtain ⟨r, hr, id, hu⟩ := h.exists_use_of_texts hunit hmem he hspan.symm hlt hfirst htext hne
  obtain ⟨id₁, hu₁, hfirst₁⟩ := h.exists_use hunit hr hu hmem rfl
  obtain ⟨id₂, hu₂, he₂⟩ := h.exists_use hunit hr hu he hspan.symm
  have hsound := h.sound r hr
  refine ⟨r.type, h.types ▸ mem_map_of_mem hr, r.changes, hsound.changes_eq, first.span, id₁, id₂, hu₁,
    hu₂, (h.outermost_iff hcs).1 (hspan ▸ hs), fun heq => hne ?_⟩
  rw [← h.paths r hr] at heq
  rw [hfirst₁, he₂]
  simp [Change.edit, heq]

theorem differing_of_clashingUses (hcs : fileChanges options unit = .ok changes)
    (hclash : ClashingUses options layouts unit changes) : draft.Differing := by
  obtain ⟨type, htype, cs, hclass, u, id, id', hu, hu', houter, hne⟩ := hclash
  obtain ⟨r, hr, rfl⟩ := h.exists_record htype
  have hsound := h.sound r hr
  obtain rfl : r.changes = cs := Except.ok.inj (hsound.changes_eq.symm.trans hclass)
  rw [← h.paths r hr] at hne
  have recorded : ∀ {id}, .use u id ∈ r.changes →
      (Change.use u id).edit unit.text r.content r.paths ∈ draft.edits := fun hu =>
    (h.mem_edits_iff houter.2.1).2 (.inl ⟨r, hr, _, hu, rfl⟩)
  have text_eq : ∀ {id}, .use u id ∈ r.changes → ∃ path, path ≠ [] ∧ r.paths.get? id = some path ∧
      ((Change.use u id).edit unit.text r.content r.paths).text = path := by
    intro id hu
    obtain ⟨path, hpath, hget⟩ := hsound.known u id hu
    exact ⟨path, ne_nil_of_mem hpath, hget, by simp [Change.edit, hget]⟩
  obtain ⟨first, hfind⟩ : ∃ first, draft.edits.find? (·.span = u) = some first :=
    Option.isSome_iff_exists.1 (find?_isSome.2 ⟨_, recorded hu, decide_eq_true rfl⟩)
  obtain ⟨id₀, hu₀, rfl⟩ := h.exists_use hunit hr hu (mem_of_find?_eq_some hfind)
    (by simpa using find?_some hfind)
  obtain ⟨path₀, hpath₀, hget₀, htext₀⟩ := text_eq hu₀
  obtain ⟨path, hpath, hget, htext⟩ := text_eq hu
  obtain ⟨path', hpath', hget', htext'⟩ := text_eq hu'
  refine ⟨u, (h.outermost_iff hcs).2 houter, _, hfind, htext₀ ▸ hpath₀, ?_⟩
  -- the text recorded first is not that of both uses
  by_cases heq : path = path₀
  · have hne' : path' ≠ path₀ := by
      rintro rfl
      exact hne (by rw [hget, hget', heq])
    exact ⟨_, recorded hu', rfl, htext' ▸ hpath', htext' ▸ htext₀ ▸ hne'⟩
  · exact ⟨_, recorded hu, rfl, htext ▸ hpath, htext ▸ htext₀ ▸ heq⟩

end FileRecord

/-- The removal of an annotation straddles that of the field it starts, or lies inside it. -/
theorem annotation_sticks_out_or_inside (hunit : unit.Placed) {type} (htype : type ∈ unit.types)
    {f} (hf : f ∈ type.fields) {a} (ha : a ∈ f.annotations) :
    (SticksOut unit.text a.span f.span → (removed unit.text a.span).Straddles (removed unit.text f.span)) ∧
    (¬ SticksOut unit.text a.span f.span → (removed unit.text a.span).Inside (removed unit.text f.span)) := by
  obtain ⟨-, -, hstop, ⟨c, hc, hblank⟩, hplaced⟩ := (hunit.types type htype).field hf
  have hwithin := hplaced.annotations a ha
  have h1 := hwithin.le_start
  have h2 := hwithin.start_lt
  have h3 := hwithin.stop_le
  have hlen : f.span.stop ≤ unit.text.length := by
    have hclosing := (partner_lt_length (hunit.types type htype).braces).2
    rw [hunit.masked_eq, length_mask] at hclosing
    omega
  have htext : ∀ {i d}, unit.masked[i]? = some d → isBlank d = false → unit.text[i]? = some d := fun hd hb =>
    getElem?_of_mask (hunit.masked_eq ▸ hd) hb
  have hfirst := htext hc hblank
  have hlast := htext hplaced.semicolon (by decide)
  exact ⟨straddles_removed h2 (by omega) hlen hlast (by decide),
    inside_removed h1 (by omega) hlen hfirst hblank hlast (by decide)⟩

/-- A conversion fails because of its edits exactly when it comes so far that all are recorded, and two
outermost changes straddle or two uses clash. The removals of an annotation and of the declaration it belongs to
straddle exactly when the annotation sticks out. -/
theorem convert_conflict_iff_straddling (options : Options) (layouts : Keyed Text Bytes) (text : Text) :
    ((∃ why, convert options layouts text = .error (.conflict why)) ↔
      ∃ unit changes result, Java.readUnit text = .ok unit ∧ fileChanges options unit = .ok changes ∧
        (convertUnit options unit).run (start layouts text) = .ok result ∧
        (Span.Straddling (TakenAway text changes) ∨ ClashingUses options layouts unit changes)) ∧
    ∀ unit, Java.readUnit text = .ok unit → ∀ type ∈ unit.types, ∀ f ∈ type.fields, ∀ a ∈ f.annotations,
      (Edit.SticksOut text a.span f.span →
        (Edit.removed text a.span).Straddles (Edit.removed text f.span)) ∧
      (¬ Edit.SticksOut text a.span f.span →
        (Edit.removed text a.span).Inside (Edit.removed text f.span)) := by
  refine ⟨?_, fun unit hread type htype f hf a ha => ?_⟩
  · rw [convert_conflict_iff]
    constructor
    · rintro ⟨unit, os, p, hread, hrun, hresolve⟩
      obtain ⟨rfl, hunit, hp, -, rs, imports, hrecord⟩ := record_of_run hread hrun
      refine ⟨unit, _, _, hread, hrecord.changes, hrun, ?_⟩
      exact ((Edit.Draft.resolve_isError_iff hp.orderly).1 hresolve).imp
        (Span.Straddling.congr fun _ hs => (hrecord.takes_iff hrecord.changes).trans (and_iff_right hs)).1
        (hrecord.clashingUses_of_differing hunit hrecord.changes)
    · rintro ⟨unit, changes, ⟨os, p⟩, hread, hchanges, hrun, hconflict⟩
      obtain ⟨rfl, hunit, hp, -, rs, imports, hrecord⟩ := record_of_run hread hrun
      refine ⟨unit, os, p, hread, hrun, (Edit.Draft.resolve_isError_iff hp.orderly).2 ?_⟩
      exact hconflict.imp
        (Span.Straddling.congr fun _ hs => (hrecord.takes_iff hchanges).trans (and_iff_right hs)).2
        (hrecord.differing_of_clashingUses hunit hchanges)
  · obtain ⟨rfl, hunit⟩ := Java.placed_of_readUnit hread
    exact annotation_sticks_out_or_inside hunit htype hf ha

/-- A class with an annotation on a line of its own above a declaration with a comment. -/
def commentedField : Text :=
  "import butterknife.*;\nclass A \x7b\n @BindView(R.id.t)\n V t; // title\n" ++
    " void onCreate(B b) \x7b\n  setContentView(R.layout.m);\n \x7d\n\x7d\n"

/-- The removal of the annotation, blanks before it included, straddles that of the declaration. -/
theorem convert_commentedField :
    (convert toBinding [] commentedField).map Outcome.text =
      .error (.conflict (.overlapping 33 57 32 51)) := by
  rw [convert_eq_evaluated]
  unfold commentedField
  repeat rewrite [String.toList_ofList]
  decide +kernel

end Rebind.Conversion
