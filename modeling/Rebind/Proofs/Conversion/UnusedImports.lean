/-
An import goes only when nothing of what it gives is copied.

Where a name that a lost import gives is still there in the code of the converted text, no use was copied
(`lost_import_is_unused`). But a content statement is written anew with the uses in it (`convert_guardedCall`),
and an import behind one that does not end its line is not found again (`convert_crowdedLine`).
-/
import Rebind.Proofs.Conversion.Removals

namespace Rebind.Conversion

open Edit Java Text List

variable {draft : Draft} {i : Import} {os : List (Char × Origin)} {v : Span}

variable {options : Options} {unit : CompilationUnit} {name : Text}

/-- The names that an import gives, those of the package for an import on demand. -/
def givenNames (i : Import) : List Text :=
  if afterLast '.' i.name == "*" then packageNames else [afterLast '.' i.name]

/-- The name is used at the span, outside of imports. -/
structure UsedAt (unit : CompilationUnit) (name : Text) (u : Span) : Prop where
  occurs : u ∈ occurrences unit.masked 0 unit.masked.length name
  outside : ∀ i ∈ unit.imports, i.span.covers u.start = false

theorem UsedAt.covers {u} (h : UsedAt unit name u) (hused : isUsed unit draft name = false) :
    draft.covers u.start = true := by
  have hnot := any_eq_false.1 hused u h.occurs
  simpa [any_eq_false.2 fun i hi => Bool.eq_false_iff.1 (h.outside i hi)] using hnot

theorem isObsolete_iff : isObsolete unit draft i = true ↔
    i.isStatic = false ∧ startsWith i.name (Binding.annotationPackage ++ ".") = true ∧
      ∀ name ∈ givenNames i, isUsed unit draft name = false := by
  simp only [isObsolete, givenNames, Bool.and_eq_true, Bool.not_eq_true', and_assoc]
  refine and_congr_right fun _ => and_congr_right fun _ => ?_
  split
  · simp only [any_eq_false, Bool.not_eq_true]
  · simp only [mem_singleton, forall_eq]

section File

variable {layouts : Keyed Text Bytes} {draft : Draft} {kept : List Edit} {rs : List ClassRecord}
  {imports : List Change}

/-- An import that loses code is obsolete: a change of a class takes away every use of its names outside of imports. -/
theorem FileRecord.obsolete_of_lost (h : FileRecord options layouts unit draft rs imports)
    (hread : readUnit unit.text = .ok unit) (hresolved : draft.Resolved kept)
    (hi : i ∈ unit.imports) (hlost : Lost unit.text (origins unit.text (draft.effective kept)) i.span) :
    isObsolete unit (takenBy unit.text (rs.flatMap (·.changes))) i = true := by
  obtain ⟨pos, c, hpos, hc, hblank, hnot⟩ := hlost
  have hunit := (placed_of_readUnit hread).2
  obtain ⟨k, hk, hin⟩ := exists_kept_of_source_not_mem hc hnot
  rcases h.exists_of_covers hunit (hresolved.recorded hk).1 hin hc hblank with
    ⟨r, hr, c, hc, -, hcovers⟩ | ⟨-, j, hj, hobsolete, hcovers⟩
  · -- the classes stand behind all imports
    have hsound := h.sound r hr
    have := opening_lt_of_covers hunit hsound.type_mem hsound.changes_eq hc hcovers
    have := (hunit.types _ hsound.type_mem).start_lt
    have := import_stop_le_start hread hi hsound.type_mem
    have := (Span.covers_iff.1 hpos).2
    omega
  · exact import_eq_of_covers hread hi hj hpos hcovers ▸ hobsolete

theorem FileRecord.exists_kept_of_taken (h : FileRecord options layouts unit draft rs imports) (hunit : unit.Placed)
    (hresolved : draft.Resolved kept) {pos}
    (hpos : (takenBy unit.text (rs.flatMap (·.changes))).covers pos = true) :
    ∃ k ∈ kept, k.span.covers pos = true ∧
      (k.text = [] ∨ ∃ c ∈ rs.flatMap (·.changes), c.isRewriting = true ∧ c.span = k.span) := by
  rw [takenBy_covers] at hpos
  obtain ⟨c, hc, hcovers⟩ := any_eq_true.1 hpos
  obtain ⟨r, hr, hc⟩ := mem_flatMap.1 hc
  rw [Span.covers_iff] at hcovers
  have hlt : (c.range unit.text).start < (c.range unit.text).stop := by omega
  obtain ⟨k, hk, hin, -⟩ := hresolved.inside (c.edit unit.text r.content r.paths)
    ((h.mem_edits_iff hlt).2 (.inl ⟨r, hr, c, hc, rfl⟩)) hlt
  have hin : k.start ≤ (c.range unit.text).start ∧ (c.range unit.text).stop ≤ k.stop := hin
  refine ⟨k, hk, Span.covers_iff.2 ⟨Nat.le_trans hin.1 hcovers.1, Nat.lt_of_lt_of_le hcovers.2 hin.2⟩, ?_⟩
  by_cases htext : k.text = []
  · exact .inl htext
  · obtain ⟨hmem, hklt⟩ := hresolved.recorded hk
    obtain ⟨r', hr', c', hc', hrewriting, rfl⟩ := h.exists_rewriting hunit hmem hklt htext
    exact .inr ⟨c', mem_flatMap.2 ⟨r', hr', hc'⟩, hrewriting, (Change.range_eq_span hrewriting unit.text).symm⟩

end File

/-- What does not hold a copy of certain places, or not of their `n`th character, came about in another way. -/
theorem holdsWritten_or_joined_or_elsewhere {p : Nat → Prop} {n}
    (hn : v.start + n < v.stop) (hle : v.stop ≤ os.length) (hnot : ∀ a, p a → ∀ c, (c, .source (a + n)) ∉ os) :
    HoldsWritten os v ∨ Joined os v ∨ ∃ a, CopiedFrom os v a ∧ ¬ p a := by
  rcases holdsWritten_or_joined_or_copiedFrom (by omega) hle with h | h | ⟨a, ha⟩
  · exact .inl h
  · exact .inr (.inl h)
  · refine .inr (.inr ⟨a, ha, fun hp => ?_⟩)
    obtain ⟨c, hc⟩ := ha n hn
    exact hnot a hp c (mem_of_getElem? hc)

theorem holdsWritten_or_joined_or_unused {edited}
    (hlength : edited.length = os.length)
    (hnot : ∀ u, UsedAt unit name u → ∀ c, (c, .source u.start) ∉ os)
    (hv : v ∈ occurrences (mask edited) 0 edited.length name) :
    HoldsWritten os v ∨ Joined os v ∨ ∃ a, CopiedFrom os v a ∧ ¬ UsedAt unit name ⟨a, a + name.length⟩ := by
  obtain ⟨-, hstop, hle, -⟩ := mem_occurrences (Nat.zero_le _) (by rw [length_mask]) hv
  by_cases hlt : v.start < v.stop
  · exact holdsWritten_or_joined_or_elsewhere (n := 0) hlt (hlength ▸ hle) fun a hused => hnot _ hused
  · -- a name without characters is nowhere behind the end of the source
    refine .inr (.inr ⟨unit.masked.length + 1, fun k hk => by omega, fun hused => ?_⟩)
    have := (mem_occurrences (Nat.zero_le _) (Nat.le_refl _) hused.occurs).2.2.1
    simp only at this
    omega

/-- An import that loses code is one of the package. Of the names it gives, each use outside of imports is deleted or
stands in code that is written anew, and is not copied; where such a name occurs in the code of the converted text, an
edit wrote a part of it, it grew together over a deletion, or it was copied from where the name was not used. -/
theorem lost_import_is_unused {layouts : Keyed Text Bytes} {text : Text} {out : Outcome}
    (h : convert options layouts text = .ok out) :
    ∃ unit draft kept changes, Applied options layouts text out unit draft kept ∧
      fileChanges options unit = .ok changes ∧
      ∀ i ∈ unit.imports, Edit.Lost text (Edit.origins text (draft.effective kept)) i.span →
        i.isStatic = false ∧ startsWith i.name (Binding.annotationPackage ++ ".") = true ∧
        ∀ name ∈ givenNames i,
          (∀ u, UsedAt unit name u →
            (∃ k ∈ kept, k.span.covers u.start = true ∧
              (k.text = [] ∨ ∃ c ∈ changes, c.isRewriting = true ∧ c.span = k.span)) ∧
            ∀ c, (c, .source u.start) ∉ Edit.origins text (draft.effective kept)) ∧
          ∀ v ∈ Java.occurrences (Java.mask out.text) 0 out.text.length name,
            Edit.HoldsWritten (Edit.origins text (draft.effective kept)) v ∨
            Edit.Joined (Edit.origins text (draft.effective kept)) v ∨
            ∃ a, Edit.CopiedFrom (Edit.origins text (draft.effective kept)) v a ∧
              ¬ UsedAt unit name ⟨a, a + name.length⟩ := by
  obtain ⟨unit, draft, kept, happlied⟩ := applied_of_convert h
  have hread := happlied.read
  obtain ⟨p, hrun, rfl⟩ := happlied.recorded
  obtain ⟨rfl, hunit, hp, -, rs, imports, hrecord⟩ := record_of_run hread hrun
  have hresolved := Edit.Draft.resolved_of_resolve hp.orderly happlied.resolved
  refine ⟨unit, p.draft, kept, _, happlied, hrecord.changes, fun i hi hlost => ?_⟩
  obtain ⟨hstatic, hpackage, hunused⟩ := isObsolete_iff.1 (hrecord.obsolete_of_lost hread hresolved hi hlost)
  refine ⟨hstatic, hpackage, fun name hname => ?_⟩
  have huses : ∀ u, UsedAt unit name u → ∃ k ∈ kept, k.span.covers u.start = true ∧
      (k.text = [] ∨ ∃ c ∈ rs.flatMap (·.changes) ++ imports, c.isRewriting = true ∧ c.span = k.span) := by
    intro u hu
    obtain ⟨k, hk, hcovers, hhow⟩ := hrecord.exists_kept_of_taken hunit hresolved (hu.covers (hunused name hname))
    refine ⟨k, hk, hcovers, hhow.imp_right ?_⟩
    rintro ⟨c, hc, hrest⟩
    exact ⟨c, mem_append_left _ hc, hrest⟩
  have hnot : ∀ u, UsedAt unit name u → ∀ c,
      (c, .source u.start) ∉ Edit.origins unit.text (p.draft.effective kept) := by
    intro u hu c
    obtain ⟨k, hk, hcovers, -⟩ := huses u hu
    obtain ⟨h1, h2⟩ := Span.covers_iff.1 hcovers
    exact Edit.source_not_mem_of_kept hk h1 h2 c
  have hlength : out.text.length = (Edit.origins unit.text (p.draft.effective kept)).length := by
    rw [happlied.text_eq, length_map]
  exact ⟨fun u hu => ⟨huses u hu, hnot u hu⟩, fun v hv => holdsWritten_or_joined_or_unused hlength hnot hv⟩

/-- The import of the package is lost, and its annotation at offset 34 is not copied. -/
theorem lost_import_is_unused_boundTitle :
    ∃ out unit draft kept, Applied toBinding [] boundTitle out unit draft kept ∧
      (∃ i ∈ unit.imports, i.span = ⟨0, 22⟩ ∧
        Edit.Lost boundTitle (Edit.origins boundTitle (draft.effective kept)) i.span ∧
        "BindView".toList ∈ givenNames i) ∧
      UsedAt unit "BindView" ⟨34, 42⟩ ∧
      ∀ c, (c, .source 34) ∉ Edit.origins boundTitle (draft.effective kept) := by
  have hfile : ∃ unit ∈ (Java.readUnit boundTitle).toOption,
      (∃ i ∈ unit.imports, i.span = ⟨0, 22⟩ ∧ "BindView".toList ∈ givenNames i) ∧
      ⟨34, 42⟩ ∈ Java.occurrences unit.masked 0 unit.masked.length "BindView" ∧
      ∀ i ∈ unit.imports, i.span.covers 34 = false := by
    unfold boundTitle
    repeat rewrite [String.toList_ofList]
    decide +kernel
  obtain ⟨unit', hread, ⟨i, hi, hspan, hname⟩, hoccurs, houtside⟩ := hfile
  obtain ⟨out, hout, -⟩ := exists_convert_boundTitle
  obtain ⟨unit, draft, kept, changes, happlied, -, h⟩ := lost_import_is_unused hout
  obtain rfl : unit = unit' := Except.ok.inj (happlied.read.symm.trans (toOption_eq_some.1 hread))
  have hlost : Edit.Lost boundTitle (Edit.origins boundTitle (draft.effective kept)) i.span := by
    have hkept := happlied.of_replay? (P := fun r => ∃ k ∈ r.kept, k.span = ⟨0, 22⟩) <| by
      unfold boundTitle
      repeat rewrite [String.toList_ofList]
      decide +kernel
    obtain ⟨k, hk, hin⟩ := hkept
    obtain ⟨h1, h2⟩ := Span.mk.inj hin
    rw [hspan]
    exact ⟨0, 'i', by decide, by decide, by decide, Edit.source_not_mem_of_kept hk h1.le (by omega) 'i'⟩
  have hused : UsedAt unit "BindView" ⟨34, 42⟩ := ⟨hoccurs, houtside⟩
  obtain ⟨-, -, hnames⟩ := h i hi hlost
  exact ⟨out, unit, draft, kept, happlied, ⟨i, hi, hspan, hlost, hname⟩, hused,
    ((hnames _ hname).1 _ hused).2⟩

/-- A class whose content statement holds a use of a name that only an import gives. -/
def guardedCall : Text :=
  "import butterknife.BindView;\nimport butterknife.ButterKnife;\nclass A \x7b\n @BindView(R.id.t)\n V t;\n" ++
    " void onCreate(B b) \x7b\n  if (ButterKnife.ok()) setContentView(R.layout.m);\n \x7d\n\x7d\n"

/-- The import is gone, and the use is still there. -/
theorem convert_guardedCall :
    ∃ out, convert toBinding [] guardedCall = .ok out ∧ out.text =
      "class A \x7b\n private MBinding binding;\n void onCreate(B b) \x7b\n".toList ++
        "  binding = MBinding.inflate(getLayoutInflater());\n".toList ++
        "  if (ButterKnife.ok()) setContentView(binding.getRoot());\n \x7d\n".toList ++
        "\n @Override\n protected void onDestroy() \x7b\n  super.onDestroy();\n  binding = null;\n \x7d\n\x7d\n".toList := by
  apply exists_convert
  unfold guardedCall
  repeat rewrite [String.toList_ofList]
  decide +kernel

/-- An import with the class on its line, which needs another import. -/
def crowdedLine : Text :=
  "import butterknife.*;\nimport android.text.TextWatcher; class A \x7b\n @OnTextChanged(R.id.t)\n" ++
    " void f() \x7b\x7d\n void onCreate(B b) \x7b\n  setContentView(R.layout.m);\n \x7d\n\x7d\n"

/-- The import that is added stands on the same line, where it is not found. -/
theorem convert_crowdedLine : ∃ out, convert toBinding [] crowdedLine = .ok out ∧
    (out.classes.flatMap (·.imports)).contains "android.text.Editable".toList = true ∧
    ∃ unit ∈ (Java.readUnit out.text).toOption, unit.hasImport "android.text.Editable".toList = false := by
  apply exists_convert
  unfold crowdedLine
  repeat rewrite [String.toList_ofList]
  decide +kernel

end Rebind.Conversion
