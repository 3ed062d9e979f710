/-
Runs that write nothing.

A dry run converts every file with the layouts as they were before the run. So it foretells what becomes of every file
whose layouts still hold what they did (`convertPath_dryRun`); where an earlier file has added to a layout, the two may
differ (`convertPath_dryRun_sharedLayout`).
-/
import Rebind.Proofs.Conversion.Agreement
import Rebind.Proofs.Project.Independence

namespace Rebind.Project

open List Option Except Conversion

variable {t t' : Tree} {settings : Settings} {id : Text}

/-! ## What earlier files leave alone -/

theorem ChangeSet.get?_writeAll {l : Location} : ∀ {c : ChangeSet} {t : Tree},
    (∀ p bytes, (p, bytes) ∈ c → t.LeadsPast p l) → (writeAll t c).2.files.get? l = t.files.get? l
  | [], t, _ => rfl
  | (p, bytes) :: c, t, hpast => by
    simp only [writeAll]
    cases hwrite : t.write p bytes with
    | error why => rfl
    | ok t₁ =>
      obtain ⟨k, hk, rfl⟩ := Tree.write_eq_ok hwrite
      obtain ⟨-, k', hk', hfile, hne⟩ := hpast p bytes (by simp)
      obtain rfl : k = k' := ok.inj (hk.symm.trans hk')
      have hsame := Tree.sameFiles_putFile hfile bytes
      refine (get?_writeAll fun q b hq => (hpast q b (by simp [hq])).of_sameFiles hsame).trans ?_
      rw [Tree.putFile, Keyed.get?_insert, if_neg (Ne.symm hne)]

section Batch

variable {settings : Settings} {t₀ : Tree} {root p q : Path} {index : Keyed Text Path}
  (hindex : layoutIndex t₀ root = .ok index)

include hindex

theorem get?_convertFile (hsame : t₀.SameFiles t) (h : t.WellFormed) (hq : IsSourceOf t p q) {q' : Path}
    (hq' : IsSourceOf t p q') (hne : q ≠ q') :
    (convertFile settings index t q').2.files.get? (t.resolve q) = t.files.get? (t.resolve q) := by
  rcases convertFile_cases settings index t q' with ⟨htree, -⟩ | ⟨text, o, hread, hconvert, -, htree, -⟩
  · rw [htree]
  · rw [htree]
    refine ChangeSet.get?_writeAll (leadsPast_of_convert hindex hsame h (hq.isFile_resolve h).2 hq' ?_ hread hconvert)
    intro heq
    exact hne (resolve_inj h hq hq' heq.symm)

theorem get?_convertFiles : ∀ {t : Tree} {qs : List Path}, t₀.SameFiles t → t.WellFormed → IsSourceOf t p q →
    (∀ q' ∈ qs, IsSourceOf t p q') → q ∉ qs →
    (convertFiles settings index t qs).2.files.get? (t.resolve q) = t.files.get? (t.resolve q)
  | t, [], _, _, _, _, _ => rfl
  | t, q' :: qs, hsame, h, hq, hqs, hnot => by
    have hq' := hqs q' (by simp)
    have hstep : t.SameFiles (convertFile settings index t q').2 := sameFiles_convertFile hindex hq'
    have hqs' : ∀ r ∈ qs, IsSourceOf (convertFile settings index t q').2 p r := fun r hr =>
      (hqs r (by simp [hr])).of_sameFiles hstep
    have hnot' : q ∉ qs := fun hin => hnot (by simp [hin])
    have ih := get?_convertFiles (hsame.trans hstep) (h.of_sameFiles hstep) (hq.of_sameFiles hstep) hqs' hnot'
    rw [hstep.resolve] at ih
    refine ih.trans (get?_convertFile hindex hsame h hq hq' ?_)
    rintro rfl
    exact hnot (by simp)

theorem readSource_convertFiles {qs : List Path} (hsame : t₀.SameFiles t) (h : t.WellFormed)
    (hq : IsSourceOf t p q) (hqs : ∀ q' ∈ qs, IsSourceOf t p q') (hnot : q ∉ qs) :
    readSource (convertFiles settings index t qs).2 q = readSource t q := by
  have hkept : (convertFiles settings index t qs).2.files.get? (t.resolve q) = t.files.get? (t.resolve q) :=
    get?_convertFiles hindex hsame h hq hqs hnot
  have hsame' : t.SameFiles (convertFiles settings index t qs).2 := sameFiles_convertFiles hindex hqs
  have hread : (convertFiles settings index t qs).2.read q = t.read q := by
    unfold Tree.read
    rw [hsame'.locate]
    rcases hq.locate h with hlocate | hlocate | hlocate
    · rw [hlocate]
      simp only [bind, Except.bind, hkept, hsame'.isFolder]
    · rw [hlocate]
      rfl
    · rw [hlocate]
      rfl
  unfold readSource
  rw [hread]

end Batch

theorem map_fst_layoutFiles (h : t.SameFiles t') (index : Keyed Text Path) :
    (layoutFiles t' index).map (·.1) = (layoutFiles t index).map (·.1) := by
  have hread : ∀ path, (t'.read path).toOption.isSome = (t.read path).toOption.isSome := by
    intro path
    unfold Tree.read
    rw [h.locate]
    cases t.locate path with
    | error why => rfl
    | ok l =>
      have hfile : (t'.files.get? l).isSome = (t.files.get? l).isSome := h.isFile l
      simp only [bind, Except.bind]
      cases hget : t.files.get? l with
      | none =>
        rw [hget, Option.isSome_none, Option.isSome_eq_false_iff, Option.isNone_iff_eq_none] at hfile
        rw [hfile]
        simp only
        split <;> split <;> rfl
      | some bytes =>
        rw [hget] at hfile
        obtain ⟨bytes', hbytes'⟩ := Option.isSome_iff_exists.1 hfile
        rw [hbytes']
        rfl
  unfold layoutFiles
  induction index with
  | nil => rfl
  | cons e index ih =>
    obtain ⟨name, path⟩ := e
    have hsome := hread path
    cases ht : (t.read path).toOption with
    | none =>
      rw [ht, Option.isSome_none, Option.isSome_eq_false_iff, Option.isNone_iff_eq_none] at hsome
      rw [filterMap_cons_none (by simp [hsome]), filterMap_cons_none (by simp [ht]), ih]
    | some bytes =>
      rw [ht] at hsome
      obtain ⟨bytes', hbytes'⟩ := Option.isSome_iff_exists.1 hsome
      rw [filterMap_cons_some (by simp [hbytes']; rfl), filterMap_cons_some (by simp [ht]; rfl), map_cons, map_cons, ih]

/-! ## One file -/

def dryMessage : Text := "dry run"

/-- What a dry run says about a file, and what became of it: the same, but for the message that nothing was written and
unless a write failed. -/
inductive Foretells (failed : Prop) (dry real : FileOutcome) : Prop where
  | same (unwritten : real.status ≠ .converted) (eq : dry = real)
  | written (converted : real.status = .converted) (eq : dry = { real with message := dryMessage })
  | unwritable (fails : failed) (status : real.status = .failed)
      (eq : dry = { real with status := .converted, message := dryMessage })

/-- The layouts that the file uses hold in the second tree what they do in the first. -/
def SeesOriginal (index : Keyed Text Path) (t t' : Tree) (q : Path) : Prop :=
  ∀ text name, readSource t q = .ok text → Conversion.UsesLayout (layoutFiles t index) text name →
    (layoutFiles t' index).get? name = (layoutFiles t index).get? name

theorem foretells_convertFile {index : Keyed Text Path} {q : Path}
    (hsame : t.SameFiles t') (hread : readSource t' q = readSource t q) (hsees : SeesOriginal index t t' q) :
    Foretells (¬WritesSucceed { settings with dryRun := false } index t' q)
      (convertFile { settings with dryRun := true } index t q).1
      (convertFile { settings with dryRun := false } index t' q).1 := by
  unfold convertFile
  rw [hread]
  cases htext : readSource t q with
  | error message => exact .same (by simp) rfl
  | ok text =>
    have hconvert : convert settings.options (layoutFiles t' index) text =
        convert settings.options (layoutFiles t index) text :=
      convert_congr (map_fst_layoutFiles hsame index) fun name => hsees text name htext
    have hoptions : ∀ dryRun, ({ settings with dryRun } : Settings).options = settings.options := fun _ => rfl
    simp only [hoptions, hconvert]
    cases hout : convert settings.options (layoutFiles t index) text with
    | error why => exact .same (by simp) rfl
    | ok o =>
      simp only
      split
      · refine .same ?_ rfl
        split <;> simp
      · next hany =>
        split
        · exact .same (by simp) rfl
        · next hchanged =>
          simp only [writeOutcome, if_true, Bool.false_eq_true, if_false]
          split
          · exact .written rfl rfl
          · next why _ _ hcommit =>
            refine .unwritable (fun hwrites => ?_) rfl rfl
            obtain ⟨paths, hpaths⟩ := hwrites text o (hread.trans htext) (hconvert.trans hout)
              (.of_not hany hchanged rfl)
            rw [hcommit] at hpaths
            cases hpaths

theorem convertFile_dryRun (settings : Settings) (index : Keyed Text Path) (t : Tree) (q : Path) :
    (convertFile { settings with dryRun := true } index t q).2 = t := by
  rcases convertFile_cases { settings with dryRun := true } index t q with ⟨htree, -⟩ | ⟨_, _, -, -, ⟨-, -, hdry⟩, -⟩
  · exact htree
  · cases hdry

/-! ## A batch -/

theorem convertFiles_dryRun (settings : Settings) (index : Keyed Text Path) (t : Tree) : ∀ qs : List Path,
    (convertFiles { settings with dryRun := true } index t qs).2 = t
  | [] => rfl
  | q :: qs => by
    simp only [convertFiles, convertFile_dryRun]
    exact convertFiles_dryRun settings index t qs

theorem getElem?_convertFiles (settings : Settings) (index : Keyed Text Path) : ∀ (t : Tree) (qs : List Path) (i : Nat),
    (convertFiles settings index t qs).1[i]? =
      qs[i]?.map fun q => (convertFile settings index (convertFiles settings index t (qs.take i)).2 q).1
  | t, [], i | t, q :: qs, 0 => rfl
  | t, q :: qs, i + 1 => by
    exact getElem?_convertFiles settings index _ qs i

def filesFor (t : Tree) (p : Path) (alone : Bool) (settings : Settings) : Except FileError (List Path) :=
  (if alone then pure true else t.hasFile p) >>= fun isFile =>
    if isFile then pure [p] else sourceFiles t p settings

theorem convertPath_eq (settings : Settings) (t : Tree) (p : Path) (alone : Bool) (project : Option Path) :
    convertPath settings t p alone project = layoutsFor t p project >>= fun index =>
      filesFor t p alone settings >>= fun files => .ok (convertFiles settings index t files) := by
  unfold convertPath filesFor
  cases layoutsFor t p project with
  | error why => rfl
  | ok index =>
    cases alone with
    | true => rfl
    | false =>
      cases t.hasFile p with
      | error why => rfl
      | ok isFile =>
        cases isFile with
        | true | false => rfl

theorem filesFor_cases (h : t.WellFormed) {p : Path} {alone : Bool} {files : List Path}
    (hfiles : filesFor t p alone settings = .ok files) :
    files = [p] ∨ files.Nodup ∧ ∀ q ∈ files, IsSourceOf t p q := by
  unfold filesFor at hfiles
  obtain ⟨isFile, -, hfiles⟩ := bind_eq_ok.1 hfiles
  split at hfiles
  · exact .inl (ok.inj hfiles).symm
  · refine .inr ?_
    have hsources := hfiles
    obtain ⟨found, hfound, hfiles⟩ := bind_eq_ok.1 hfiles
    cases hfolder : found.filter t.isFolder with
    | none =>
      rw [hfolder] at hfiles
      obtain rfl := ok.inj hfiles
      exact ⟨nodup_nil, by simp⟩
    | some folder =>
      obtain ⟨rfl, hisFolder⟩ := filter_eq_some_iff.1 hfolder
      have hp := Tree.find?_eq_some hfound
      exact ⟨nodup_sourceFiles h hp hisFolder hsources, fun q hq => isSourceOf_of_mem hp hisFolder hsources hq⟩

/-- A dry run fails as a run does, or leaves the tree as it is and tells of the same files in the same order. What it
says about a file is what becomes of it, unless its writes fail, if the layouts that it uses still hold what they did
when the run comes to it. -/
theorem convertPath_dryRun {t : Tree} (h : t.WellFormed) (settings : Settings) (p : Path) (alone : Bool)
    (project : Option Path) :
    (∃ why, convertPath { settings with dryRun := false } t p alone project = .error why ∧
      convertPath { settings with dryRun := true } t p alone project = .error why) ∨
    ∃ index files real predicted t₁, layoutsFor t p project = .ok index ∧ filesFor t p alone settings = .ok files ∧
      convertPath { settings with dryRun := false } t p alone project = .ok (real, t₁) ∧
      convertPath { settings with dryRun := true } t p alone project = .ok (predicted, t) ∧
      real.map (·.path) = files ∧ predicted.map (·.path) = files ∧
      ∀ (i : Nat) (q : Path) (before : Tree), files[i]? = some q →
        before = (convertFiles { settings with dryRun := false } index t (files.take i)).2 →
        SeesOriginal index t before q → ∃ o o', real[i]? = some o ∧ predicted[i]? = some o' ∧
          Foretells (¬WritesSucceed { settings with dryRun := false } index before q) o' o := by
  have hfilesFor : ∀ dryRun, filesFor t p alone { settings with dryRun } = filesFor t p alone settings := fun _ => rfl
  simp only [convertPath_eq, hfilesFor]
  cases hindex : layoutsFor t p project with
  | error why => exact .inl ⟨why, rfl, rfl⟩
  | ok index =>
    cases hfiles : filesFor t p alone settings with
    | error why => exact .inl ⟨why, rfl, rfl⟩
    | ok files =>
      refine .inr ⟨index, files, _, _, _, rfl, rfl, rfl, congrArg ok (Prod.ext rfl (convertFiles_dryRun ..)),
        map_path_convertFiles .., map_path_convertFiles .., fun i q before hq hbefore hsees => ?_⟩
      obtain ⟨root, hroot⟩ := layoutIndex_of_layoutsFor hindex
      -- the file is the only one, or the others before it are source files
      have hsame : t.SameFiles before ∧ readSource before q = readSource t q := by
        subst hbefore
        rcases filesFor_cases h hfiles with rfl | ⟨hnodup, hsources⟩
        · cases i with
          | zero => exact ⟨.refl t, rfl⟩
          | succ i => simp at hq
        · have hbefore : ∀ q' ∈ files.take i, IsSourceOf t p q' := fun q' hq' => hsources q' (mem_of_mem_take hq')
          have hmem := mem_of_getElem? hq
          refine ⟨sameFiles_convertFiles hroot hbefore, ?_⟩
          refine readSource_convertFiles hroot (.refl t) h (hsources q hmem) hbefore fun hin => ?_
          obtain ⟨j, hj, hget⟩ := mem_take_iff_getElem.1 hin
          obtain ⟨hi, hget'⟩ := List.getElem?_eq_some_iff.1 hq
          have := (List.Nodup.getElem_inj_iff hnodup).1 (hget.trans hget'.symm)
          omega
      refine ⟨_, _, ?_, ?_, foretells_convertFile hsame.1 hsame.2 hsees⟩
      · rw [getElem?_convertFiles, hq, hbefore]
        rfl
      · rw [getElem?_convertFiles, hq, convertFiles_dryRun]
        rfl

/-! ## Two files with one layout -/

def twoSources (a b layout : Bytes) : Tree :=
  { files := [(["A.java"], a), (["B.java"], b), (outerPath.parts, layout)] }

def sharedProject (id : Text) : Tree :=
  twoSources (Text.utf8 boundTitle) (Text.utf8 boundTitle) (oneView id)

def secondSource : Path := ⟨[], ["B.java"]⟩

def convertAll (dryRun : Bool) : Settings := { allFiles with dryRun }

theorem layoutsFor_sharedProject (id : Text) :
    layoutsFor (sharedProject id) hereFolder (some hereFolder) = .ok sharedIndex := by
  have hentries : ((sharedProject id).below []).filterMap (LayoutEntry.of? hereFolder) =
      [⟨["res", "layout"], "layout", "m.xml"⟩] := by rfl
  rw [layoutsFor_hereFolder rfl hentries (by simp)]
  rfl

theorem filesFor_sharedProject (id : Text) :
    filesFor (sharedProject id) hereFolder false allFiles = .ok [brokenSource, secondSource] := by
  have hnames : sourceNames (sharedProject id) [] allFiles = [["A.java".toList], ["B.java"]] := by rfl
  unfold filesFor
  rw [sourceFiles_hereFolder rfl hnames (by decide)]
  rfl

theorem wellFormed_sharedProject (id : Text) : (sharedProject id).WellFormed := by
  have hsame : (twoSources [] [] []).SameFiles (sharedProject id) := ⟨rfl, rfl, rfl⟩
  refine Tree.WellFormed.of_sameFiles ?_ hsame
  refine ⟨by decide, by decide, ?_, ?_⟩ <;> simp only [Tree.isFile, Keyed.has_iff] <;> decide

theorem convertPath_sharedProject (dryRun : Bool) (id : Text) :
    convertPath (convertAll dryRun) (sharedProject id) hereFolder false (some hereFolder) =
      .ok (convertFiles (convertAll dryRun) sharedIndex (sharedProject id) [brokenSource, secondSource]) := by
  have hfiles : filesFor (sharedProject id) hereFolder false (convertAll dryRun) = .ok [brokenSource, secondSource] :=
    filesFor_sharedProject id
  rw [convertPath_eq, layoutsFor_sharedProject, hfiles]
  rfl

theorem convertFiles_first (h : id = [] ∨ id = boundId) :
    (convertFiles (convertAll false) sharedIndex (sharedProject id) [brokenSource]).2 =
      twoSources (Text.utf8 convertedTitle) (Text.utf8 boundTitle) (oneView boundId) := by
  have hone : ∀ t : Tree, (convertFiles (convertAll false) sharedIndex t [brokenSource]).2 =
    (convertFile (convertAll false) sharedIndex t brokenSource).2 := fun _ => rfl
  rw [hone]
  rcases h with rfl | rfl
  · rw [convertFile]
    simp only [convert_eq_evaluated]
    decide +kernel
  · rw [convertFile]
    simp only [convert_eq_evaluated]
    decide +kernel

theorem convertFiles_second (h : id = [] ∨ id = boundId) :
    (convertFiles (convertAll false) sharedIndex (sharedProject id) [brokenSource, secondSource]).1[1]? =
      some { path := secondSource, status := .converted, report := titleReport "ID exists" } := by
  rw [getElem?_convertFiles]
  simp only [getElem?_cons_succ, getElem?_cons_zero, map_some, take_succ_cons, take_zero, convertFiles_first h]
  rw [convertFile]
  simp only [convert_eq_evaluated]
  decide +kernel

/-- Files that share a layout which has the ids already: what is said about the second one comes true. -/
theorem convertPath_dryRun_namedLayout : ∃ real predicted t₁ o o',
    (sharedProject boundId).WellFormed ∧
      convertPath (convertAll false) (sharedProject boundId) hereFolder false (some hereFolder) = .ok (real, t₁) ∧
      convertPath (convertAll true) (sharedProject boundId) hereFolder false (some hereFolder) =
        .ok (predicted, sharedProject boundId) ∧
      real[1]? = some o ∧ predicted[1]? = some o' ∧ o.status = .converted ∧ o' = { o with message := dryMessage } := by
  have hwell := wellFormed_sharedProject boundId
  rcases convertPath_dryRun hwell allFiles hereFolder false (some hereFolder) with
    ⟨why, herror, -⟩ | ⟨index, files, real, predicted, t₁, hindex, hfiles, hreal, hdry, -, -, hforetells⟩
  · cases (convertPath_sharedProject false boundId).symm.trans herror
  · obtain rfl := ok.inj ((layoutsFor_sharedProject boundId).symm.trans hindex)
    obtain rfl := ok.inj ((filesFor_sharedProject boundId).symm.trans hfiles)
    have hlayouts : ∀ a a' b layout, layoutFiles (twoSources a b layout) sharedIndex =
      layoutFiles (twoSources a' b layout) sharedIndex := fun _ _ _ _ => rfl
    obtain ⟨o, o', ho, ho', hforetells⟩ :=
      hforetells 1 secondSource _ rfl (convertFiles_first (.inr rfl)).symm
        fun _ name _ _ => congrArg (·.get? name) (hlayouts ..)
    have hconverted : o.status = .converted := by
      have hrun := congrArg Prod.fst (ok.inj ((convertPath_sharedProject false boundId).symm.trans hreal))
      have hsecond := convertFiles_second (.inr rfl : boundId = [] ∨ boundId = boundId)
      rw [hrun, ho] at hsecond
      rw [some.inj hsecond]
    refine ⟨real, predicted, t₁, o, o', hwell, hreal, hdry, ho, ho', hconverted, ?_⟩
    cases hforetells with
    | same hunwritten _ => exact absurd hconverted hunwritten
    | written _ heq => exact heq
    | unwritable _ hfailed _ =>
      rw [hconverted] at hfailed
      cases hfailed

/-- Files that share a layout which lacks an id: the dry run says of both that the id is created, but the second one
finds it. -/
theorem convertPath_dryRun_sharedLayout : ∃ real predicted t₁ o o',
    (sharedProject []).WellFormed ∧
      convertPath (convertAll false) (sharedProject []) hereFolder false (some hereFolder) = .ok (real, t₁) ∧
      convertPath (convertAll true) (sharedProject []) hereFolder false (some hereFolder) =
        .ok (predicted, sharedProject []) ∧
      real[1]? = some o ∧ predicted[1]? = some o' ∧
      o.report = titleReport "ID exists" ∧ o'.report = titleReport "ID created on V in m" := by
  have hdry : (convertFile (convertAll true) sharedIndex (sharedProject []) secondSource).1 =
      ⟨secondSource, .converted, dryMessage, titleReport "ID created on V in m"⟩ := by
    rw [convertFile]
    simp only [convert_eq_evaluated]
    decide +kernel
  have htree : ∀ qs, (convertFiles (convertAll true) sharedIndex (sharedProject []) qs).2 = sharedProject [] :=
    convertFiles_dryRun allFiles sharedIndex _
  have hpredicted : (convertFiles (convertAll true) sharedIndex (sharedProject []) [brokenSource, secondSource]).1[1]? =
      some ⟨secondSource, .converted, dryMessage, titleReport "ID created on V in m"⟩ := by
    rw [getElem?_convertFiles]
    simp only [getElem?_cons_succ, getElem?_cons_zero, map_some, htree, hdry]
  have hsecond := convertFiles_second (.inl rfl : ([] : Text) = [] ∨ [] = boundId)
  have hreal := convertPath_sharedProject false []
  have hdry := convertPath_sharedProject true []
  have hhere := htree [brokenSource, secondSource]
  generalize convertFiles (convertAll false) sharedIndex (sharedProject []) _ = run at hreal hsecond
  generalize convertFiles (convertAll true) sharedIndex (sharedProject []) _ = run' at hdry hhere hpredicted
  obtain ⟨real, t₁⟩ := run
  obtain ⟨predicted, t⟩ := run'
  obtain rfl : t = sharedProject [] := hhere
  exact ⟨real, predicted, t₁, _, _, wellFormed_sharedProject [], hreal, hdry, hsecond, hpredicted, rfl, rfl⟩

end Rebind.Project
