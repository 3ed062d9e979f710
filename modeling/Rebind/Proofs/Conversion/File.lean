/-
What the conversion of a whole file records.

The conversion of each class leaves a record: its changes, what was written for its content statement, and the ways to
its views.
-/
import Rebind.Proofs.Conversion.Recording

namespace Rebind.Conversion

open Java (Span ReadError CompilationUnit TypeDecl)
open Binding Edit Text List Bool Except Conversion

variable {t : Text} {options : Options} {unit : CompilationUnit}

structure ClassRecord where
  type : TypeDecl
  changes : List Change
  content : Text
  paths : Keyed Text Text

def ClassRecord.edits (t : Text) (r : ClassRecord) : List Edit :=
  (r.changes.map (Change.edit t r.content r.paths)).filter isRange

/-- The record is one of a conversion of the class. -/
structure ClassRecord.Sound (options : Options) (unit : CompilationUnit) (r : ClassRecord) : Prop where
  type_mem : r.type ∈ unit.types
  changes_eq : classChanges options unit r.type = .ok r.changes
  known : ∀ s id, .use s id ∈ r.changes → ∃ path, '.' ∈ path ∧ r.paths.get? id = some path
  written : ∀ s, .content s ∈ r.changes → r.content ≠ []
  sets : ∀ anchor, Anchor.locate unit r.type = .ok anchor → ∀ layout ms,
    Plan.modeChanges ⟨options, unit, r.type, bindingsOf unit r.type, anchor, layout⟩ = .ok ms →
    Plan.Sets ⟨options, unit, r.type, bindingsOf unit r.type, anchor, layout⟩ r.paths ms r.content

/-- The classes get holders of their own where their content statements are rewritten. -/
def DeclaresHolders (options : Options) (unit : CompilationUnit) (types : List TypeDecl) (draft : Draft) : Prop :=
  ∀ plan : Plan, plan.options = options → plan.unit = unit → plan.type ∈ types → plan.Placed unit.text →
    plan.bindings.isEmpty = false → options.mode = .viewBinding → ∀ ms, plan.modeChanges = .ok ms → ms ≠ [] →
    plan.Declares draft

variable {type : TypeDecl} {p q : Progress} {pre : List TypeDecl} {os : List ClassOutcome}

theorem yields_convertClass (hunit : unit.Placed) (htext : unit.text = t) (htype : type ∈ unit.types) :
    Yields (Inserts options unit) t (convertClass options unit type) p fun outcome q =>
      outcome.converted = !(bindingsOf unit type).isEmpty ∧
      (outcome.converted = false → q.draft = p.draft) ∧ ∃ r : ClassRecord, r.Sound options unit ∧
        r.type = type ∧ r.paths = q.paths ∧
        q.draft.edits.filter isRange = p.draft.edits.filter isRange ++ r.edits t ∧
        p.draft.edits ⊆ q.draft.edits ∧ DeclaresHolders options unit [type] q.draft := by
  simp only [convertClass]
  split
  · next hempty =>
    have hchanges : classChanges options unit type = .ok [] := by
      simp only [classChanges, hempty, if_true]
      rfl
    refine .pure ⟨by simp [hempty], fun _ => rfl, ⟨type, [], [], p.paths⟩,
      ⟨htype, hchanges, by simp, by simp, fun anchor _ layout ms _ _ => ⟨[], ?_, nil_infix⟩⟩, rfl, rfl, ?_,
      fun _ h => h, ?_⟩
    · have hnone : (bindingsOf unit type).handlers = [] := by
        simp only [BindingSet.isEmpty, and_eq_true, List.isEmpty_iff] at hempty
        exact hempty.2
      simp only [Plan.AreRegistered, BindingSet.registrations, hnone]
      exact .nil
    · simp [ClassRecord.edits]
    · rintro plan - rfl hplan hplaced hbound
      rw [← mem_singleton.1 hplan, ← hplaced.bindings_eq, hbound] at hempty
      cases hempty
  · next hempty =>
    -- the ways of the class before are forgotten
    let p₀ : Progress := { p with paths := [], imports := [] }
    have hmodify :
        Yields (Inserts options unit) t (modify fun p => { p with paths := [], imports := [] } : Conversion Unit) p
        fun _ q => q = p₀ :=
      .of_run rfl (fun hp => ⟨hp.text_eq, hp.orderly, hp.inserted, by simp [Keyed.get?]⟩) rfl
    refine hmodify.bind fun _ q hqp => ?_
    subst hqp
    refine (Yields.forM fun id _ p => .report _).bind fun _ q₁ hquiet₁ => ?_
    refine Yields.read.bind ?_
    rintro anchor q₂ ⟨hanchor, heq₂⟩
    subst heq₂
    refine Yields.get.bind ?_
    rintro _ q₃ ⟨_, heq₃⟩
    subst heq₃
    have hcomplaint : Yields (Inserts options unit) t (anchor.complaint?.forM fun message =>
        report (type.name ++ ": " ++ message)) q₃ fun _ q => Quiet q₃ q := by
      cases anchor.complaint? with
      | none => exact .pure (.refl q₃)
      | some message => exact .report _
    refine hcomplaint.bind fun _ q₄ hquiet₄ => ?_
    refine (Yields.ask _).bind fun _ q₅ hquiet₅ => ?_
    refine (Yields.report _).bind fun _ q₆ hquiet₆ => ?_
    have hplan : ∀ layout, Plan.Placed t
        { options, unit, type, bindings := bindingsOf unit type, anchor, layout } :=
      fun _ => ⟨htext, hunit, htype, rfl, hanchor⟩
    refine (yields_convertPlanned (hplan _)).bind ?_
    rintro _ q₇ ⟨content, cs, ms, hcs, hrec, hms, hsets, hdeclares⟩
    refine Yields.get.bind ?_
    rintro _ q₈ ⟨_, heq₈⟩
    subst heq₈
    have hchanges : classChanges options unit type = .ok cs := by
      simp only [classChanges, hempty]
      refine bind_eq_ok.2 ⟨anchor, hanchor, ?_⟩
      rw [← hcs, ← Plan.changes_layout]
    have hrec := Records.quiet_trans (((hquiet₁.trans hquiet₄).trans hquiet₅).trans hquiet₆) hrec
    refine .of_sound fun hq₈ => .pure ⟨by simp [hempty], by simp, ⟨type, cs, content, q₈.paths⟩,
      ⟨htype, hchanges, fun s id hs => ?_, hrec.written, fun anchor' hanchor' layout ms' hms' => ?_⟩, rfl, rfl,
      hrec.edits, hrec.kept, ?_⟩
    · obtain ⟨path, hpath⟩ := hrec.known s id hs
      exact ⟨path, hq₈.dotted id path hpath, hpath⟩
    · obtain rfl : anchor = anchor' := ok.inj (hanchor.symm.trans hanchor')
      rw [← Plan.modeChanges_layout] at hms
      obtain rfl : ms = ms' := ok.inj (hms.symm.trans hms')
      exact hsets
    · intro plan hoptions hunit' hplan hplaced _ hmode ms' hms' hne
      obtain rfl := mem_singleton.1 hplan
      subst hoptions hunit'
      obtain rfl : plan.anchor = anchor := ok.inj (hplaced.anchor_eq.symm.trans hanchor)
      rw [← hplaced.bindings_eq, ← Plan.modeChanges_layout _ plan.layout] at hms
      obtain rfl : ms = ms' := ok.inj (hms.symm.trans hms')
      exact hdeclares hmode hne

/-! ## The classes of a file -/

/-- The run over the first classes of a file, the last of them given. -/
def runUpTo (options : Options) (unit : CompilationUnit) (pre : List TypeDecl) (type : TypeDecl) :
    Conversion (List ClassOutcome) := (pre ++ [type]).mapM (convertClass options unit)

theorem runUpTo_cons {first q' o}
    (hfirst : (convertClass options unit first).run p = .ok (o, q))
    (h : (runUpTo options unit pre type).run q = .ok (os, q')) :
    (runUpTo options unit (first :: pre) type).run p = .ok (o :: os, q') := by
  simp only [runUpTo, cons_append, mapM_cons] at h ⊢
  rw [run_bind_of_ok hfirst, run_bind_of_ok h]
  rfl

theorem yields_convertClasses (hunit : unit.Placed) (htext : unit.text = t) : ∀ {ts p},
    (∀ type ∈ ts, type ∈ unit.types) →
    Yields (Inserts options unit) t (ts.mapM (convertClass options unit)) p fun os q =>
      os.map (·.converted) = ts.map (fun type => !(bindingsOf unit type).isEmpty) ∧
      (os.any (·.converted) = false → q.draft = p.draft) ∧
      ∃ rs : List ClassRecord, rs.map (·.type) = ts ∧ (∀ r ∈ rs, r.Sound options unit) ∧
        (∀ r ∈ rs, ∃ pre post os q', ts = pre ++ r.type :: post ∧
          (runUpTo options unit pre r.type).run p = .ok (os, q') ∧ r.paths = q'.paths) ∧
        q.draft.edits.filter isRange = p.draft.edits.filter isRange ++ rs.flatMap (·.edits t) ∧
        p.draft.edits ⊆ q.draft.edits ∧ DeclaresHolders options unit ts q.draft
  | [], p, _ => .pure ⟨rfl, fun _ => rfl, [], by simp [DeclaresHolders]⟩
  | type :: ts, p, hts => by
    rw [mapM_cons]
    refine (yields_convertClass hunit htext (hts type (by simp))).with_run.bind ?_
    rintro o q ⟨hrun, ho, hsame, r, hr, htype, hpaths, hedits, hkept, hdeclares⟩
    refine (yields_convertClasses hunit htext (forall_mem_cons.1 hts).2).bind ?_
    rintro os q' ⟨hos, hsame', rs, htypes, hrs, hruns, hedits', hkept', hdeclares'⟩
    refine .pure ⟨by simp [ho, hos], fun hnone => ?_, r :: rs, by simp [htype, htypes], ?_, ?_, ?_,
      List.Subset.trans hkept hkept', fun plan hoptions hunit' htype' => ?_⟩
    · simp only [any_cons, or_eq_false_iff] at hnone
      rw [hsame' hnone.2, hsame hnone.1]
    · exact fun s hs => (mem_cons.1 hs).elim (fun h => h ▸ hr) (hrs s)
    · intro s hs
      rcases mem_cons.1 hs with rfl | hs
      · refine ⟨[], ts, [o], q, by rw [htype]; rfl, ?_, hpaths⟩
        rw [htype, runUpTo, nil_append, mapM_cons, run_bind_of_ok hrun]
        rfl
      · obtain ⟨pre, post, os, q'', hsplit, hrun', hpaths'⟩ := hruns s hs
        exact ⟨type :: pre, post, o :: os, q'', by rw [hsplit]; rfl, runUpTo_cons hrun hrun', hpaths'⟩
    · rw [hedits', hedits, flatMap_cons, append_assoc]
    · rcases mem_cons.1 htype' with heq | htype'
      · intro hplan hbound hmode ms hms hne
        exact (hdeclares plan hoptions hunit' (by simp [heq]) hplan hbound hmode ms hms hne).mono hkept'
      · exact hdeclares' plan hoptions hunit' htype'

/-! ## Imports -/

theorem any_covers_edits (t content : Text) (paths : Keyed Text Text) (cs : List Change) (pos : Nat) :
    ((cs.map (Change.edit t content paths)).filter isRange).any (·.covers pos) =
      cs.any fun c => (c.range t).covers pos := by
  induction cs with
  | nil => rfl
  | cons c cs ih =>
    simp only [map_cons, filter_cons, any_cons]
    rw [← ih]
    split
    · rfl
    · next hrange =>
      have hnot : (c.range t).covers pos = false := by
        have : ¬ (c.range t).start < (c.range t).stop := fun hlt => hrange (decide_eq_true hlt)
        simp only [Span.covers, and_eq_false_iff, decide_eq_false_iff_not]
        omega
      rw [hnot, Bool.false_or]

theorem any_covers_records (t : Text) (rs : List ClassRecord) (pos : Nat) :
    (rs.flatMap (·.edits t)).any (·.covers pos) = (rs.flatMap (·.changes)).any fun c => (c.range t).covers pos := by
  simp only [any_flatMap, ClassRecord.edits, any_covers_edits]

theorem covers_eq_any_ranges (d : Draft) (pos : Nat) : d.covers pos = (d.edits.filter isRange).any (·.covers pos) := by
  simp only [Draft.covers, any_filter]
  congr 1
  funext e
  rw [Bool.eq_iff_iff]
  simp only [isRange, covers, Bool.and_eq_true, decide_eq_true_eq]
  omega

theorem takenBy_covers (t : Text) (cs : List Change) (pos : Nat) :
    (takenBy t cs).covers pos = cs.any fun c => (c.range t).covers pos := by
  simp only [takenBy, Draft.covers, any_map]
  rfl

theorem isObsolete_congr {d d'} (h : ∀ pos, d.covers pos = d'.covers pos) :
    isObsolete unit d = isObsolete unit d' := by
  have hused : isUsed unit d = isUsed unit d' := by
    funext name
    simp only [isUsed, h]
  funext i
  simp only [isObsolete, hused]

theorem importAnchor_le {obsolete n} (hobsolete : ∀ s ∈ obsolete, s.start ≤ n)
    (himports : ∀ i ∈ unit.imports, i.span.stop ≤ n) (hend : unit.importsEnd ≤ n) :
    (importAnchor unit obsolete).1 ≤ n := by
  have hkept : ∀ (l : List Span) k, (∀ s ∈ l, s.stop ≤ n) → k ≤ n → l.foldl (fun k s => max k s.stop) k ≤ n :=
    fun l k hl hk => List.foldlRecOn (motive := (· ≤ n)) _ _ hk fun k hk s hs => Nat.max_le.2 ⟨hk, hl s hs⟩
  simp only [importAnchor]
  split
  · refine hkept _ 0 (fun s hs => ?_) (Nat.zero_le _)
    simp only [mem_filter, mem_map] at hs
    obtain ⟨⟨i, hi, rfl⟩, -⟩ := hs
    exact himports i hi
  · next s rest _ => exact hobsolete s (by simp)
  · exact hend

theorem yields_updateImports (hunit : unit.Placed) (htext : unit.text = t) {cs}
    (hcs : ∀ pos, p.draft.covers pos = cs.any fun c => (c.range t).covers pos) (needed : List Text) :
    Yields (Inserts options unit) t (updateImports unit needed) p fun _ q =>
      Records t [] p q (importChanges unit cs) := by
  have hlength : unit.masked.length = t.length := by rw [hunit.masked_eq, Java.length_mask, htext]
  have hobsolete : isObsolete unit p.draft = isObsolete unit (takenBy unit.text cs) :=
    isObsolete_congr fun pos => by rw [hcs, takenBy_covers, htext]
  simp only [updateImports]
  refine Yields.get.bind ?_
  rintro draft q ⟨hdraft, hqp⟩
  subst hdraft hqp
  rw [hobsolete]
  have hmarked : ∀ s ∈ (unit.imports.filter (isObsolete unit (takenBy unit.text cs))).map (·.span),
      Marked unit.masked s := by
    intro s hs
    simp only [mem_map, mem_filter] at hs
    obtain ⟨i, ⟨hi, -⟩, rfl⟩ := hs
    exact marked_import (hunit.imports i hi)
  have hremove : removeImports unit.text = fun s => edit fun d =>
      d.remove (importsSpan unit.text s).start (importsSpan unit.text s).stop := rfl
  rw [hremove]
  refine (Yields.forM_remove [] fun s hs => ?_).bind fun _ r hrec => ?_
  · have := marked_joinSpans hmarked s hs
    rw [hunit.masked_eq] at this
    have := (marked_importsSpan this).1
    rwa [← hunit.masked_eq, hlength] at this
  · split
    · have hanchor := importAnchor_le (fun s hs => Nat.le_trans (Nat.le_of_lt (hmarked s hs).start_lt) (hmarked s hs).1)
        (fun i hi => (hunit.imports i hi).stop_le) hunit.importsEnd_le
      refine (Yields.insert (hlength ▸ hanchor) (.imports fun s hs => ?_)).mono fun _ u hquiet =>
        hrec.trans_quiet hquiet
      obtain ⟨i, hi, rfl⟩ := mem_map.1 hs
      exact ⟨i, (mem_filter.1 hi).1, rfl⟩
    · exact .pure hrec

/-! ## The record of a file -/

def start (layouts : Keyed Text Bytes) (text : Text) : Progress where
  draft := Draft.ofText text
  layouts := { files := layouts }

theorem sound_start (W : Edit → Prop) (layouts : Keyed Text Bytes) (text : Text) : (start layouts text).Sound W text :=
  ⟨rfl, by simp [start, Draft.ofText, Draft.Orderly], by simp [start, Draft.ofText], by simp [start, Keyed.get?]⟩

/-- The ways to the views of a class, by id, that the conversion of its file finds. -/
def pathsOf (options : Options) (layouts : Keyed Text Bytes) (unit : CompilationUnit) (type : TypeDecl) :
    Keyed Text Text :=
  match (runUpTo options unit ((classesOf unit).takeWhile (· ≠ type)) type).run (start layouts unit.text) with
  | .ok (_, p) => p.paths
  | .error _ => []

/-- The ranges of a draft are those of the records of the classes, and then those of the imports. -/
structure FileRecord (options : Options) (layouts : Keyed Text Bytes) (unit : CompilationUnit)
    (draft : Draft) (rs : List ClassRecord) (imports : List Change) : Prop where
  types : rs.map (·.type) = classesOf unit
  sound : ∀ r ∈ rs, r.Sound options unit
  paths : ∀ r ∈ rs, r.paths = pathsOf options layouts unit r.type
  obsolete : ∀ c ∈ imports, c ∈ importChanges unit (rs.flatMap (·.changes))
  changes : fileChanges options unit = .ok (rs.flatMap (·.changes) ++ imports)
  edits : draft.edits.filter isRange =
    rs.flatMap (·.edits unit.text) ++ (imports.map (Change.edit unit.text [] [])).filter isRange
  declares : DeclaresHolders options unit (classesOf unit) draft

theorem mem_classesOf (h : type ∈ classesOf unit) : type ∈ unit.types := (mem_filter.1 h).1

theorem pairwise_classesOf (hunit : unit.Placed) :
    (classesOf unit).Pairwise fun a b => a.body.closing < b.body.opening :=
  hunit.apart.filter _

theorem pathsOf_eq (hunit : unit.Placed) {layouts post}
    (hsplit : classesOf unit = pre ++ type :: post)
    (hrun : (runUpTo options unit pre type).run (start layouts unit.text) = .ok (os, q)) :
    pathsOf options layouts unit type = q.paths := by
  have hne : ∀ a ∈ pre, decide (a ≠ type) = true := by
    intro a ha
    have hpair := pairwise_classesOf hunit
    rw [hsplit, pairwise_append] at hpair
    have hlt := hpair.2.2 a ha type (by simp)
    have hbraces := Java.partner_lt_length
      (hunit.types type (mem_classesOf (by rw [hsplit]; simp))).braces
    simp only [decide_eq_true_eq]
    rintro rfl
    omega
  have htake : (classesOf unit).takeWhile (· ≠ type) = pre := by
    rw [hsplit, takeWhile_append_of_pos hne]
    simp
  simp only [pathsOf, htake, hrun]

theorem gather_classChanges : ∀ {rs : List ClassRecord}, (∀ r ∈ rs, r.Sound options unit) →
    gather (classChanges options unit) (rs.map (·.type)) = .ok (rs.flatMap (·.changes))
  | [], _ => rfl
  | r :: rs, h => by
    exact bind_eq_ok.2 ⟨r.changes, (h r (by simp)).changes_eq, bind_eq_ok.2
      ⟨rs.flatMap (·.changes), gather_classChanges (forall_mem_cons.1 h).2, rfl⟩⟩

theorem map_edit_importChanges (cs : List Change) (paths : Keyed Text Text) :
    (importChanges unit cs).map (Change.edit t [] paths) = (importChanges unit cs).map (Change.edit t [] []) := by
  refine map_congr_left fun c hc => ?_
  simp only [importChanges, mem_map] at hc
  obtain ⟨s, -, rfl⟩ := hc
  rfl

/-- The ranges recorded for a file are the edits of the records of its classes in order, and then the imports that go.
-/
theorem yields_convertUnit (hunit : unit.Placed) (layouts : Keyed Text Bytes) :
    Yields (Inserts options unit) unit.text (convertUnit options unit) (start layouts unit.text) fun os q =>
      (os.any (·.converted) = false → q.draft = Draft.ofText unit.text) ∧
      ∃ rs imports, FileRecord options layouts unit q.draft rs imports := by
  refine (yields_convertClasses hunit rfl fun type h => mem_classesOf h).bind ?_
  rintro os q ⟨hos, hsame, rs, htypes, hrs, hruns, hedits, -, hdeclares⟩
  have hany : os.any (·.converted) = (classesOf unit).any fun t => !(bindingsOf unit t).isEmpty := by
    have := congrArg (·.any id) hos
    simpa only [any_map, Function.comp_def, id_eq] using this
  have hpaths : ∀ r ∈ rs, r.paths = pathsOf options layouts unit r.type := by
    intro r hr
    obtain ⟨pre, post, os, q', hsplit, hrun, hpaths⟩ := hruns r hr
    rw [hpaths, pathsOf_eq hunit hsplit hrun]
  have hgather := gather_classChanges hrs
  rw [htypes] at hgather
  have hedits : q.draft.edits.filter isRange = rs.flatMap (·.edits unit.text) := by
    simpa [start, Draft.ofText] using hedits
  split
  · next hconverted =>
    have hcovers : ∀ pos, q.draft.covers pos =
        (rs.flatMap (·.changes)).any fun c => (c.range unit.text).covers pos := by
      intro pos
      rw [covers_eq_any_ranges, hedits, any_covers_records]
    refine (yields_updateImports hunit rfl hcovers _).bind fun _ r hrec => ?_
    have hchanges : fileChanges options unit =
        .ok (rs.flatMap (·.changes) ++ importChanges unit (rs.flatMap (·.changes))) := by
      simp only [fileChanges, hgather]
      exact if_pos (hany ▸ hconverted)
    have hrecord : FileRecord options layouts unit r.draft rs (importChanges unit (rs.flatMap (·.changes))) :=
      ⟨htypes, hrs, hpaths, fun _ h => h, hchanges, by rw [hrec.edits, hedits, map_edit_importChanges],
        fun plan hoptions hplan htype hplaced hbound hmode ms hms hne =>
          (hdeclares plan hoptions hplan htype hplaced hbound hmode ms hms hne).mono hrec.kept⟩
    exact .pure ⟨by simp [hconverted], rs, _, hrecord⟩
  · next hconverted =>
    have hchanges : fileChanges options unit = .ok (rs.flatMap (·.changes) ++ []) := by
      simp only [fileChanges, hgather, append_nil]
      exact if_neg (hany ▸ hconverted)
    have hrecord : FileRecord options layouts unit q.draft rs [] :=
      ⟨htypes, hrs, hpaths, by simp, hchanges, by simp [hedits], hdeclares⟩
    exact .pure ⟨hsame, rs, _, hrecord⟩

namespace FileRecord

variable {layouts : Keyed Text Bytes} {draft : Draft} {rs : List ClassRecord} {imports cs : List Change} {e : Edit}
  {c : Change} {r : ClassRecord} (h : FileRecord options layouts unit draft rs imports)

include h

theorem mem_edits_iff (he : e.start < e.stop) :
    e ∈ draft.edits ↔ (∃ r ∈ rs, ∃ c ∈ r.changes, c.edit unit.text r.content r.paths = e) ∨
      ∃ c ∈ imports, c.edit unit.text [] [] = e := by
  have hmem : e ∈ draft.edits ↔ e ∈ draft.edits.filter isRange := by
    simp [mem_filter, isRange, he]
  rw [hmem, h.edits]
  simp [ClassRecord.edits, mem_filter, isRange, he]

theorem mem_changes_iff (hcs : fileChanges options unit = .ok cs) :
    c ∈ cs ↔ (∃ r ∈ rs, c ∈ r.changes) ∨ c ∈ imports := by
  have := h.changes
  rw [hcs, ok.injEq] at this
  simp [this]

theorem takes_iff (hcs : fileChanges options unit = .ok cs) {s} :
    draft.Takes s ↔ s.start < s.stop ∧ ∃ c ∈ cs, c.range unit.text = s := by
  refine and_congr_right fun hs => ⟨?_, ?_⟩
  · rintro ⟨e, he, rfl⟩
    rcases (h.mem_edits_iff hs).1 he with ⟨r, hr, c, hc, rfl⟩ | ⟨c, hc, rfl⟩
    · exact ⟨c, (h.mem_changes_iff hcs).2 (.inl ⟨r, hr, hc⟩), rfl⟩
    · exact ⟨c, (h.mem_changes_iff hcs).2 (.inr hc), rfl⟩
  · rintro ⟨c, hc, rfl⟩
    rcases (h.mem_changes_iff hcs).1 hc with ⟨r, hr, hc⟩ | hc
    · exact ⟨c.edit unit.text r.content r.paths, (h.mem_edits_iff hs).2 (.inl ⟨r, hr, c, hc, rfl⟩), rfl⟩
    · exact ⟨c.edit unit.text [] [], (h.mem_edits_iff hs).2 (.inr ⟨c, hc, rfl⟩), rfl⟩

theorem exists_record {type} (htype : type ∈ classesOf unit) : ∃ r ∈ rs, r.type = type := by
  rw [← h.types] at htype
  exact mem_map.1 htype

variable (hunit : unit.Placed)

include hunit

theorem placed (hr : r ∈ rs) (hc : c ∈ r.changes) : c.Placed unit.masked r.type :=
  classChanges_placed hunit (h.sound r hr).type_mem (h.sound r hr).changes_eq hc

theorem exists_rewriting (he : e ∈ draft.edits) (hlt : e.start < e.stop) (htext : e.text ≠ []) :
    ∃ r ∈ rs, ∃ c ∈ r.changes, c.isRewriting = true ∧ c.edit unit.text r.content r.paths = e := by
  rcases (h.mem_edits_iff hlt).1 he with ⟨r, hr, c, hc, rfl⟩ | ⟨c, hc, rfl⟩
  · cases c with
    | removal s => exact absurd rfl htext
    | content s | use s id => exact ⟨r, hr, _, hc, rfl, rfl⟩
  · obtain ⟨s, rfl, -⟩ := marked_importChanges hunit (h.obsolete c hc)
    exact absurd rfl htext

theorem eq_of_within {r'} (hr : r ∈ rs) (hr' : r' ∈ rs) {i}
    (hi : r.type.body.opening < i ∧ i < r.type.body.closing)
    (hi' : r'.type.body.opening < i ∧ i < r'.type.body.closing) : r = r' := by
  have hapart := pairwise_classesOf hunit
  rw [← h.types, pairwise_map] at hapart
  rcases eq_or_of_pairwise hapart hr hr' with heq | hlt | hlt
  · exact heq
  · omega
  · omega

theorem exists_use (hr : r ∈ rs) {u id} (hu : .use u id ∈ r.changes) (he : e ∈ draft.edits)
    (hspan : e.span = u) :
    ∃ id', .use u id' ∈ r.changes ∧ e = (Change.use u id').edit unit.text r.content r.paths := by
  obtain ⟨name, hname, huse⟩ := h.placed hunit hr hu
  have hlt := huse.start_lt
  rw [← hspan] at hlt
  rcases (h.mem_edits_iff hlt).1 he with ⟨r', hr', c, hc, rfl⟩ | ⟨c, hc, rfl⟩
  · obtain rfl : c.range unit.text = u := hspan
    have hplaced := h.placed hunit hr' hc
    obtain ⟨id', hid'⟩ := hplaced.eq_use hunit hname huse
    obtain ⟨name', -, huse'⟩ : (Change.use (c.range unit.text) id').Placed unit.masked r'.type := hid' ▸ hplaced
    have h1 := huse.lt_stop
    have h2 := huse.stop_le
    have h3 := huse'.lt_stop
    have h4 := huse'.stop_le
    obtain rfl := h.eq_of_within hunit hr hr' (i := (c.range unit.text).stop - 1) (by omega) (by omega)
    exact ⟨id', hid' ▸ hc, by rw [← hid']⟩
  · obtain ⟨s, rfl, hmarked⟩ := marked_importChanges hunit (h.obsolete c hc)
    obtain rfl : (Change.removal s).range unit.text = u := hspan
    have hplaced : (Change.removal s).Placed unit.masked r.type := hmarked
    obtain ⟨id', hid'⟩ := hplaced.eq_use hunit hname huse
    simp at hid'

end FileRecord

end Rebind.Conversion
