/-
How a conversion ends.
-/
import Mathlib.Data.List.Permutation
import Rebind.Proofs.Conversion.File
import Rebind.Proofs.Edit.Evaluation

namespace Rebind.Conversion

open Edit Java Text Option Except

variable {options : Options} {unit : CompilationUnit}

/-- A conversion that succeeded: what was read, what was recorded, and the ranges that took effect. -/
structure Applied (options : Options) (layouts : Keyed Text Bytes) (text : Text) (out : Outcome)
    (unit : CompilationUnit) (draft : Draft) (kept : List Edit) : Prop where
  read : readUnit text = .ok unit
  recorded : ∃ p, (convertUnit options unit).run (start layouts text) = .ok (out.classes, p) ∧ p.draft = draft
  resolved : draft.resolve = .ok kept
  text_eq : out.text = (origins text (draft.effective kept)).map Prod.fst

variable {text edited : Text} {layouts : Keyed Text Bytes} {out : Outcome} {draft : Draft} {kept edits : List Edit}

theorem record_of_run {os p} (hread : readUnit text = .ok unit)
    (hrun : (convertUnit options unit).run (start layouts text) = .ok (os, p)) :
    unit.text = text ∧ unit.Placed ∧ p.Sound (Inserts options unit) text ∧
      (os.any (·.converted) = false → p.draft = Draft.ofText text) ∧
      ∃ rs imports, FileRecord options layouts unit p.draft rs imports := by
  obtain ⟨rfl, hunit⟩ := placed_of_readUnit hread
  obtain ⟨hp, h1, h2⟩ := (yields_convertUnit hunit layouts).of_ok (sound_start _ _ _) os p hrun
  exact ⟨rfl, hunit, hp, h1, h2⟩

theorem Applied.record (h : Applied options layouts text out unit draft kept) :
    unit.text = text ∧ unit.Placed ∧ draft.Resolved kept ∧
      ∃ rs imports, FileRecord options layouts unit draft rs imports := by
  obtain ⟨p, hrun, rfl⟩ := h.recorded
  obtain ⟨htext, hunit, hp, -, hrecord⟩ := record_of_run h.read hrun
  exact ⟨htext, hunit, Draft.resolved_of_resolve hp.orderly h.resolved, hrecord⟩

theorem resolve_ofText (text : Text) : (Draft.ofText text).resolve = .ok [] := by
  simp [Draft.resolve, Draft.ranges, Draft.ofText, Draft.keepOuter]

theorem apply_ofText (text : Text) : (Draft.ofText text).apply = .ok text := by
  rw [Draft.apply, resolve_ofText]
  simp [Draft.ofText, Draft.insertionsOutside, Draft.assemble, bind, Except.bind, pure, Except.pure]

theorem convert_eq (options : Options) (layouts : Keyed Text Bytes) (text : Text) : convert options layouts text =
      match readUnit text with
      | .error why => .error (.unreadable why)
      | .ok unit =>
        match (convertUnit options unit).run (start layouts text) with
        | .error e => .error e
        | .ok (classes, p) =>
          if classes.any (·.converted) then
            match p.draft.apply with
            | .error why => .error (.conflict why)
            | .ok edited => .ok ⟨edited, edited != text, p.report, classes, p.layouts.changed⟩
          else .ok ⟨text, false, p.report, classes, []⟩ := by
  simp only [convert]
  cases hread : readUnit text with
  | error why => rfl
  | ok unit =>
    simp only [pure_bind]
    cases hrun : (convertUnit options unit).run (start layouts text) with
    | error e =>
      rw [start] at hrun
      rw [hrun]
      rfl
    | ok result =>
      rw [start] at hrun
      rw [hrun]
      obtain ⟨classes, p⟩ := result
      cases hany : classes.any (·.converted) with
      | false =>
        show (if (!classes.any (·.converted)) = true then _ else _) = _
        simp only [hany]
        rfl
      | true =>
        show (if (!classes.any (·.converted)) = true then _ else _) = _
        simp only [hany]
        cases p.draft.apply <;> rfl

/-- A conversion that succeeds has read the file, recorded its edits, and written the text that the ranges which took
effect make of the source. -/
theorem applied_of_convert (h : convert options layouts text = .ok out) :
    ∃ unit draft kept, Applied options layouts text out unit draft kept := by
  rw [convert_eq] at h
  split at h
  · simp at h
  · next unit hread =>
    split at h
    · simp at h
    · next classes p hrun =>
      obtain ⟨-, -, hp, hsame, -⟩ := record_of_run hread hrun
      -- unless a class was converted no edit was recorded, and the text stays as it is
      split at h
      · cases hresolve : p.draft.resolve with
        | error why =>
          rw [Draft.apply_eq_error_iff.2 hresolve] at h
          simp at h
        | ok kept =>
          rw [Draft.apply_eq_origins hp.orderly hresolve, hp.text_eq] at h
          simp only [ok.injEq] at h
          subst h
          exact ⟨unit, p.draft, kept, hread, ⟨p, hrun, rfl⟩, hresolve, rfl⟩
      · next hnone =>
        simp only [ok.injEq] at h
        subst h
        have hdraft := hsame (by simpa using hnone)
        refine ⟨unit, Draft.ofText text, [], hread, ⟨p, hrun, hdraft⟩, resolve_ofText text, ?_⟩
        have happly := Draft.apply_eq_origins (hdraft ▸ hp.orderly) (resolve_ofText text)
        rw [apply_ofText] at happly
        exact ok.inj happly

/-- A conversion that fails because of its edits has recorded all of them: only then can two of them be found to
conflict. -/
theorem convert_conflict_iff : (∃ why, convert options layouts text = .error (.conflict why)) ↔
      ∃ unit os p, readUnit text = .ok unit ∧
        (convertUnit options unit).run (start layouts text) = .ok (os, p) ∧ ∃ why, p.draft.resolve = .error why := by
  rw [convert_eq]
  constructor
  · rintro ⟨why, h⟩
    split at h
    · simp at h
    · next unit hread =>
      obtain ⟨rfl, hunit⟩ := placed_of_readUnit hread
      split at h
      · next e hrun =>
        obtain rfl : e = .conflict why := by simpa using h
        exact absurd hrun ((yields_convertUnit hunit layouts).ne_conflict (sound_start _ _ _) why)
      · next os p hrun =>
        split at h
        · split at h
          · next why' happly => exact ⟨unit, os, p, hread, hrun, why', Draft.apply_eq_error_iff.1 happly⟩
          · simp at h
        · simp at h
  · rintro ⟨unit, os, p, hread, hrun, why, hresolve⟩
    obtain ⟨-, -, -, hsame, -⟩ := record_of_run hread hrun
    have hconverted : os.any (·.converted) = true := by
      apply Classical.byContradiction
      intro hnone
      rw [hsame (by simpa using hnone), resolve_ofText] at hresolve
      simp at hresolve
    refine ⟨why, ?_⟩
    simp only [hread, hrun, hconverted, if_true, Draft.apply_eq_error_iff.2 hresolve]

/-! ## Evaluation -/

/-- The conversion, with the edits applied by `applied`. -/
def evaluated (options : Options) (layouts : Keyed Text Bytes) (text : Text) : Except ConversionError Outcome :=
  match readUnit text with
  | .error why => .error (.unreadable why)
  | .ok unit =>
    match (convertUnit options unit).run (start layouts text) with
    | .error e => .error e
    | .ok (classes, p) =>
      if classes.any (·.converted) then
        match p.draft.applied with
        | .error why => .error (.conflict why)
        | .ok edited => .ok ⟨edited, edited != text, p.report, classes, p.layouts.changed⟩
      else .ok ⟨text, false, p.report, classes, []⟩

theorem convert_eq_evaluated (options : Options) (layouts : Keyed Text Bytes) (text : Text) :
    convert options layouts text = evaluated options layouts text := by
  simp only [convert_eq, Draft.apply_eq_applied, evaluated]

theorem exists_convert {P : Outcome → Prop} (h : ∃ out ∈ (evaluated options layouts text).toOption, P out) :
    ∃ out, convert options layouts text = .ok out ∧ P out := by
  obtain ⟨out, hout, hP⟩ := h
  exact ⟨out, (convert_eq_evaluated options layouts text).trans (toOption_eq_some.1 hout), hP⟩

/-- What a conversion that succeeds has read, recorded and kept. -/
structure Replay where
  unit : CompilationUnit
  draft : Draft
  kept : List Edit

def replay? (options : Options) (layouts : Keyed Text Bytes) (text : Text) : Option Replay := do
  let unit ← (readUnit text).toOption
  let (_, p) ← ((convertUnit options unit).run (start layouts text)).toOption
  let kept ← p.draft.keptRanges.toOption
  return ⟨unit, p.draft, kept⟩

theorem Applied.of_replay? {P : Replay → Prop} (happlied : Applied options layouts text out unit draft kept)
    (h : ∃ r ∈ replay? options layouts text, P r) : P ⟨unit, draft, kept⟩ := by
  obtain ⟨p, hrun, rfl⟩ := happlied.recorded
  have hresolved := happlied.resolved
  rw [Draft.resolve_eq_keptRanges] at hresolved
  have hreplay : replay? options layouts text = some ⟨unit, p.draft, kept⟩ := by
    simp only [replay?, happlied.read, hrun, hresolved, Except.toOption, Option.bind_eq_bind, Option.bind_some]
    rfl
  obtain ⟨r, hr, hP⟩ := h
  obtain rfl := Option.some.inj (hreplay.symm.trans hr)
  exact hP

theorem exists_applied (options : Options) (layouts : Keyed Text Bytes) (text : Text) {P : Replay → Prop}
    (h : ∃ r ∈ replay? options layouts text, P r) :
    ∃ out unit draft kept, convert options layouts text = .ok out ∧
      Applied options layouts text out unit draft kept ∧ P ⟨unit, draft, kept⟩ := by
  obtain ⟨out, hout⟩ : ∃ out, convert options layouts text = .ok out := by
    obtain ⟨r, hr, -⟩ := h
    simp only [replay?, mem_def, bind_eq_bind, bind_eq_some_iff] at hr
    obtain ⟨unit, hread, ⟨classes, p⟩, hrun, kept, hkept, -⟩ := hr
    rw [convert_eq]
    simp only [toOption_eq_some.1 hread, toOption_eq_some.1 hrun]
    split
    · cases happly : p.draft.apply with
      | error why =>
        rw [Draft.apply_eq_error_iff, Draft.resolve_eq_keptRanges, toOption_eq_some.1 hkept] at happly
        cases happly
      | ok edited => exact ⟨_, rfl⟩
    · exact ⟨_, rfl⟩
  obtain ⟨unit, draft, kept, happlied⟩ := applied_of_convert hout
  exact ⟨out, unit, draft, kept, hout, happlied, happlied.of_replay? h⟩

def toBinding : Options := ⟨.viewBinding, "binding", true⟩

def toLookups : Options := { toBinding with mode := .findViewById }

def boundTitle : Text :=
  "import butterknife.*;\nclass A \x7b\n @BindView(R.id.t)\n V t;\n" ++
    " void onCreate(B b) \x7b\n  setContentView(R.layout.m);\n  t.f();\n \x7d\n\x7d\n"

def convertedTitle : Text :=
  "class A \x7b\n private MBinding binding;\n void onCreate(B b) \x7b\n" ++
    "  binding = MBinding.inflate(getLayoutInflater());\n  setContentView(binding.getRoot());\n" ++
    "  binding.t.f();\n \x7d\n\n @Override\n protected void onDestroy() \x7b\n" ++
    "  super.onDestroy();\n  binding = null;\n \x7d\n\x7d\n"

/-- A fragment that returns its inflated layout. -/
def boundFragment : Text :=
  "import butterknife.*;\nclass A \x7b\n @BindView(R.id.t)\n V t;\n View onCreateView(I i, V p, B b) \x7b\n" ++
    "  return i.inflate(R.layout.m, p, false);\n \x7d\n\x7d\n"

/-- The method and the content statement of a fragment. -/
def Anchor.fragment? : Anchor → Option (Method × Statement)
  | .content .fragment init statement => some (init, statement)
  | _ => none

theorem Anchor.eq_of_fragment? {anchor : Anchor} {f : Method × Statement} (h : f ∈ anchor.fragment?) :
    anchor = .content .fragment f.1 f.2 := by
  unfold fragment? at h
  split at h
  · cases h
    rfl
  · cases h

theorem exists_convert_boundTitle :
    ∃ out, convert toBinding [] boundTitle = .ok out ∧ out.text = convertedTitle := by
  apply exists_convert
  unfold boundTitle convertedTitle
  repeat rewrite [String.toList_ofList]
  decide +kernel

end Rebind.Conversion
