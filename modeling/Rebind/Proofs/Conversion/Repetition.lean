/-
Converting what was converted.

An annotation that a second conversion would take away was written by an edit, grew together over a deletion, or is a
copy of one that the first had not noted (`convert_again`). The converted text may no longer be readable:
`convert_again_remarkedInflate`.
-/
import Rebind.Proofs.Conversion.Removals

namespace Rebind.Conversion

open Binding Edit Java Text List

variable {text : Text} {layouts : Keyed Text Bytes} {os : List ClassOutcome} {p : Progress} {a : Annotation}

variable {options : Options} {unit : CompilationUnit}

/-! ## Nothing to convert -/

def Bare (unit : CompilationUnit) : Prop :=
  ∀ type ∈ classesOf unit, (bindingsOf unit type).isEmpty = true

theorem run_convertClasses_of_bare (p : Progress) : ∀ {ts : List TypeDecl},
    (∀ type ∈ ts, (bindingsOf unit type).isEmpty = true) →
    (ts.mapM (convertClass options unit)).run p = .ok (ts.map fun type => ⟨type.name, false, []⟩, p)
  | [], _ => rfl
  | type :: ts, h => by
    have hclass : (convertClass options unit type).run p = .ok (⟨type.name, false, []⟩, p) := by
      simp only [convertClass, h type (by simp), if_true]
      rfl
    rw [mapM_cons, run_bind_of_ok hclass,
      run_bind_of_ok (run_convertClasses_of_bare p (forall_mem_cons.1 h).2)]
    rfl

theorem run_convertUnit_of_bare (h : Bare unit) (p : Progress) :
    (convertUnit options unit).run p = .ok ((classesOf unit).map fun type => ⟨type.name, false, []⟩, p) := by
  refine (run_bind_of_ok (run_convertClasses_of_bare p h)).trans ?_
  simp

theorem convert_of_bare (hread : readUnit text = .ok unit) (h : Bare unit)
    (layouts : Keyed Text Bytes) : convert options layouts text =
      .ok ⟨text, false, [], (classesOf unit).map fun type => ⟨type.name, false, []⟩, []⟩ := by
  rw [convert_eq, hread]
  simp only [run_convertUnit_of_bare h]
  simp [start]

theorem converted_of_run (hunit : unit.Placed)
    (hrun : (convertUnit options unit).run (start layouts unit.text) = .ok (os, p)) :
    os.map (·.converted) = (classesOf unit).map fun type => !(bindingsOf unit type).isEmpty := by
  simp only [convertUnit, StateT.run_bind] at hrun
  obtain ⟨⟨classes, q⟩, hclasses, hrest⟩ := bind_eq_ok.1 hrun
  have hos : classes = os := by
    split at hrest
    · rw [StateT.run_bind] at hrest
      obtain ⟨r, -, hreturn⟩ := bind_eq_ok.1 hrest
      exact congrArg Prod.fst (Except.ok.inj hreturn)
    · exact congrArg Prod.fst (Except.ok.inj hrest)
  subst hos
  exact ((yields_convertClasses hunit rfl fun type h => mem_classesOf h).of_ok (sound_start _ layouts _) _ _
    hclasses).2.1

theorem bare_of_run (hunit : unit.Placed)
    (hrun : (convertUnit options unit).run (start layouts unit.text) = .ok (os, p))
    (hnone : ∀ o ∈ os, o.converted = false) : Bare unit := by
  intro type htype
  have hmem : (!(bindingsOf unit type).isEmpty) ∈ os.map (·.converted) := by
    rw [converted_of_run hunit hrun]
    exact mem_map_of_mem htype
  obtain ⟨o, ho, hconverted⟩ := mem_map.1 hmem
  rw [hnone o ho] at hconverted
  simpa using hconverted.symm

/-- The outcome is that of a conversion which changes nothing. -/
structure Outcome.Unchanged (out : Outcome) (text : Text) : Prop where
  text_eq : out.text = text
  changed : out.changed = false
  classes : ∀ o ∈ out.classes, o.converted = false
  layouts : out.layouts = []

/-- A conversion changes nothing exactly when the text can be read and none of its classes has bindings. -/
theorem convert_unchanged_iff : (∃ out, convert options layouts text = .ok out ∧ out.Unchanged text) ↔
      ∃ unit, readUnit text = .ok unit ∧ Bare unit := by
  constructor
  · rintro ⟨out, hout, hunchanged⟩
    obtain ⟨unit, draft, kept, happlied⟩ := applied_of_convert hout
    obtain ⟨p, hrun, -⟩ := happlied.recorded
    obtain ⟨rfl, hunit⟩ := placed_of_readUnit happlied.read
    exact ⟨unit, happlied.read, bare_of_run hunit hrun hunchanged.classes⟩
  · rintro ⟨unit, hread, hbare⟩
    exact ⟨_, convert_of_bare hread hbare layouts, rfl, rfl, by simp, rfl⟩

/-! ## What is left to convert -/

/-- A conversion of the file takes the annotation away. -/
def NotedIn (unit : CompilationUnit) (a : Annotation) : Prop :=
  ∃ type ∈ classesOf unit, (bindingsOf unit type).isEmpty = false ∧
    a ∈ (bindingsOf unit type).annotations

theorem NotedIn.within (hunit : unit.Placed) (h : NotedIn unit a) :
    a.span.start < a.span.stop ∧ a.span.stop ≤ unit.masked.length := by
  obtain ⟨type, htype, -, ha⟩ := h
  have hplaced := hunit.types type (mem_classesOf htype)
  have hheads : Heads type a := (drawn_bindingsOf unit type).annotations a ha
  obtain ⟨m, hm, hwithin, -⟩ := hheads.within hplaced
  have hstop := hwithin.stop_le
  have hmember := (hplaced.members m hm).2.2.1
  have hclosing := (partner_lt_length hplaced.braces).2
  exact ⟨hwithin.start_lt, by omega⟩

section Applied

variable {layouts : Keyed Text Bytes} {text : Text} {out : Outcome} {draft : Draft} {kept : List Edit}

theorem NotedIn.not_copied (happlied : Applied options layouts text out unit draft kept)
    (ha : NotedIn unit a) {pos} (hpos : a.span.covers pos = true) (c : Char) :
    (c, .source pos) ∉ origins text (draft.effective kept) := by
  obtain ⟨rfl, hunit, hresolved, rs, imports, hrecord⟩ := happlied.record
  have hlt := (ha.within hunit).1
  obtain ⟨type, htype, hconverted, ha⟩ := ha
  obtain ⟨r, hr, rfl⟩ := hrecord.exists_record htype
  have hremoval := removal_mem_classChanges (hrecord.sound r hr).changes_eq hconverted ha
  have hmarked : Marked unit.masked a.span := hrecord.placed hunit hr hremoval
  obtain ⟨hstart, hstop⟩ := hmarked.inside_removed hunit
  have hrange : (removed unit.text a.span).start < (removed unit.text a.span).stop := by omega
  obtain ⟨k, hk, hin, -⟩ := hresolved.inside ((Change.removal a.span).edit unit.text r.content r.paths)
    ((hrecord.mem_edits_iff hrange).2 (.inl ⟨r, hr, _, hremoval, rfl⟩)) hrange
  have hin : k.start ≤ (removed unit.text a.span).start ∧ (removed unit.text a.span).stop ≤ k.stop := hin
  rw [Span.covers_iff] at hpos
  exact source_not_mem_of_kept hk (by omega) (by omega) c

/-- An annotation of the converted text that would be taken away is no copy of one that was: an edit wrote a part of
it, it grew together over a deletion, or it is a copy of code that no noted annotation shares a character with. -/
theorem NotedIn.origin (happlied : Applied options layouts text out unit draft kept) {unit'}
    (hread' : readUnit out.text = .ok unit') (ha : NotedIn unit' a) :
    HoldsWritten (origins text (draft.effective kept)) a.span ∨
    Joined (origins text (draft.effective kept)) a.span ∨
    ∃ i, CopiedFrom (origins text (draft.effective kept)) a.span i ∧
      ∀ b, NotedIn unit b → ∀ k, a.span.start + k < a.span.stop → b.span.covers (i + k) = false := by
  obtain ⟨htext, hunit'⟩ := placed_of_readUnit hread'
  obtain ⟨hlt, hstop⟩ := ha.within hunit'
  have hlength : unit'.masked.length = (origins text (draft.effective kept)).length := by
    rw [hunit'.masked_eq, length_mask, htext, happlied.text_eq, length_map]
  rcases holdsWritten_or_joined_or_copiedFrom hlt (hlength ▸ hstop) with h | h | ⟨i, hcopied⟩
  · exact .inl h
  · exact .inr (.inl h)
  · refine .inr (.inr ⟨i, hcopied, fun b hb k hk => ?_⟩)
    obtain ⟨c, hc⟩ := hcopied k hk
    cases hcovers : b.span.covers (i + k) with
    | false => rfl
    | true => exact absurd (mem_of_getElem? hc) (hb.not_copied happlied hcovers c)

end Applied

/-- A second conversion, with whatever layouts, changes nothing exactly when the converted text can be read and none of
its classes has bindings. It takes no annotation away that is a copy of one which the first conversion took away. -/
theorem convert_again {layouts : Keyed Text Bytes} {text : Text} {out : Outcome}
    (h : convert options layouts text = .ok out) :
    ∃ unit draft kept, Applied options layouts text out unit draft kept ∧
      (∀ written : Keyed Text Bytes,
        (∃ again, convert options written out.text = .ok again ∧ again.Unchanged out.text) ↔
        ∃ unit', Java.readUnit out.text = .ok unit' ∧ Bare unit') ∧
      ∀ unit', Java.readUnit out.text = .ok unit' → ∀ a, NotedIn unit' a →
        Edit.HoldsWritten (Edit.origins text (draft.effective kept)) a.span ∨
        Edit.Joined (Edit.origins text (draft.effective kept)) a.span ∨
        ∃ i, Edit.CopiedFrom (Edit.origins text (draft.effective kept)) a.span i ∧
          ∀ b, NotedIn unit b → ∀ k, a.span.start + k < a.span.stop → b.span.covers (i + k) = false := by
  obtain ⟨unit, draft, kept, happlied⟩ := applied_of_convert h
  exact ⟨unit, draft, kept, happlied, fun written => convert_unchanged_iff,
    fun unit' hread' a ha => ha.origin happlied hread'⟩

/-- What becomes of the class with one bound field can be read, and has no bindings. -/
theorem convert_again_boundTitle : ∃ out, convert toBinding [] boundTitle = .ok out ∧
    ∀ written, ∃ again, convert toBinding written out.text = .ok again ∧ again.Unchanged out.text := by
  obtain ⟨out, hout, htext⟩ := exists_convert_boundTitle
  obtain ⟨unit, draft, kept, -, hunchanged, -⟩ := convert_again hout
  refine ⟨out, hout, fun written => (hunchanged written).2 ?_⟩
  have hbare : ∃ unit ∈ (Java.readUnit out.text).toOption, ∀ type ∈ classesOf unit,
      (Binding.bindingsOf unit type).isEmpty = true := by
    rw [htext]
    decide +kernel
  obtain ⟨unit', hread', hbare⟩ := hbare
  exact ⟨unit', toOption_eq_some.1 hread', hbare⟩

/-- A fragment whose content statement holds a comment with a comma in it. -/
def remarkedInflate : Text :=
  "import butterknife.*;\nclass F \x7b\n @BindView(R.id.t)\n V t;\n View onCreateView(I i, G g, B b) \x7b\n" ++
    "  View v = i.inflate(R.layout.m, g, false /* not yet, later */);\n  return v;\n \x7d\n\x7d\n"

/-- The converted text cannot be read, so that a second conversion fails. -/
theorem convert_again_remarkedInflate : ∃ out, convert toBinding [] remarkedInflate = .ok out ∧
    ∀ written, ∃ why, convert toBinding written out.text = .error (.unreadable why) := by
  have hunread : ∃ out, convert toBinding [] remarkedInflate = .ok out ∧ (Java.readUnit out.text).isOk = false := by
    apply exists_convert
    unfold remarkedInflate
    repeat rewrite [String.toList_ofList]
    decide +kernel
  obtain ⟨out, hout, hfails⟩ := hunread
  refine ⟨out, hout, fun written => ?_⟩
  cases hread : Java.readUnit out.text with
  | ok unit =>
    rw [hread] at hfails
    cases hfails
  | error why => exact ⟨why, by rw [convert_eq, hread]⟩

end Rebind.Conversion
