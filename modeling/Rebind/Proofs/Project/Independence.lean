/-
What a file means for the rest of a batch.

A file that is not converted can be told from one that is not there only when its writes fail half way: then layouts may
have changed (`convertPath_without`).
-/
import Rebind.Proofs.Project.Atomicity

namespace Rebind.Project

open List Except Conversion

variable {settings : Settings} {index : Keyed Text Path} {t : Tree} {p q : Path} {qs before after : List Path}
    {o : FileOutcome} {project : Option Path}

/-! ## One file -/

theorem path_convertFile (settings : Settings) (index : Keyed Text Path) (t : Tree) (p : Path) :
    (convertFile settings index t p).1.path = p := by
  unfold convertFile
  split
  · rfl
  · split
    · rfl
    · split
      · rfl
      · split
        · rfl
        · unfold writeOutcome
          split
          · rfl
          · split
            · rfl
            · rfl

theorem get?_convertFile_of_not_converted
    {l₀ : Location} (hstatus : (convertFile settings index t p).1.status ≠ .converted)
    (hkeeps : (convertFile settings index t p).1.status = .failed →
      ∀ l, l ≠ l₀ → (convertFile settings index t p).2.files.get? l = t.files.get? l) :
    ∀ l, l ≠ l₀ → (convertFile settings index t p).2.files.get? l = t.files.get? l := by
  rcases convertFile_cases settings index t p with ⟨htree, -⟩ | ⟨-, -, -, -, -, -, ⟨hconverted, -⟩ | ⟨hfailed, -⟩⟩
  · rw [htree]
    exact fun _ _ => rfl
  · exact absurd hconverted hstatus
  · exact hkeeps hfailed

def IsSourceOf (t : Tree) (p q : Path) : Prop :=
  ∃ folder names, t.locate p = .ok folder ∧ names ∈ t.below folder ∧ IsSource names ∧ q = Tree.pathBelow p names

namespace IsSourceOf

variable {t t' : Tree} {p q : Path} (h : IsSourceOf t p q)

include h

theorem of_sameFiles (hsame : t.SameFiles t') : IsSourceOf t' p q := by
  obtain ⟨folder, names, hp, hnames, hsource, hq⟩ := h
  refine ⟨folder, names, by rw [hsame.locate, hp], ?_, hsource, hq⟩
  rw [Tree.mem_below, hsame.isFile]
  exact Tree.mem_below.1 hnames

theorem endsWith_name : Text.endsWith q.name sourceEnding = true := by
  obtain ⟨-, names, -, -, ⟨file, hlast, hends⟩, rfl⟩ := h
  have hname : (Tree.pathBelow p names).name = file := by
    rw [Path.name, Tree.pathBelow, getLast?_append, hlast]
    rfl
  rw [hname, hends]

variable (hwell : t.WellFormed)

include hwell

theorem isFile_resolve : t.isFile (t.resolve q) = true ∧ IsSource (t.resolve q) := by
  obtain ⟨folder, names, hp, hnames, hsource, rfl⟩ := h
  rw [Tree.resolve_pathBelow hwell hp hnames]
  exact ⟨(Tree.mem_below.1 hnames).2, hsource.append folder⟩

theorem locate : t.locate q = .ok (t.resolve q) ∨ t.locate q = .error .tooLong ∨ t.locate q = .error .nul := by
  obtain ⟨folder, names, hp, hnames, hsource, rfl⟩ := h
  rw [Tree.resolve_pathBelow hwell hp hnames]
  exact Tree.locate_pathBelow hwell hp hnames

end IsSourceOf

section Step

variable {settings : Settings} {t₀ t : Tree} {root : Path} {index : Keyed Text Path}
  (hindex : layoutIndex t₀ root = .ok index) (hsame : t₀.SameFiles t) (h : t.WellFormed)
  {l : Location} (hl : t.isFile l = true) (hsource : IsSource l)

include hindex hsame h hl hsource

omit hl in
theorem locate_layout {name : Text} {path : Path} (hmem : (name, path) ∈ index) :
    t.locate path ≠ .error .notAFolder ∧ t.locate path ≠ .ok l := by
  obtain ⟨folder, names, hroot, -, hnames, rfl, hlast⟩ := mem_layoutIndex hindex hmem
  have hroot : t.locate root = .ok folder := by rw [hsame.locate, hroot]
  have hnames : names ∈ t.below folder := by
    rw [Tree.mem_below, hsame.isFile]
    exact Tree.mem_below.1 hnames
  change t.locate (Tree.pathBelow root names) ≠ _ ∧ t.locate (Tree.pathBelow root names) ≠ _
  rcases Tree.locate_pathBelow h hroot hnames with heq | heq | heq <;> rw [heq]
  · refine ⟨by simp, fun hl => ?_⟩
    obtain rfl := ok.inj hl
    exact absurd (by rw [getLast?_append, hlast]; rfl) (@IsSource.not_layout _ hsource name)
  · simp
  · simp

theorem layoutFiles_delete : layoutFiles (t.delete l) index = layoutFiles t index := by
  refine filterMap_congr ?_
  rintro ⟨name, path⟩ hmem
  simp only
  rw [Tree.read_delete h hl (locate_layout hindex hsame h hsource hmem)]

variable {p q : Path} (hq : IsSourceOf t p q) (hne : t.resolve q ≠ l)

include hq hne

omit hindex hsame hsource in
theorem readSource_delete : readSource (t.delete l) q = readSource t q := by
  have hread : (t.delete l).read q = t.read q := by
    refine Tree.read_delete h hl ?_
    rcases hq.locate h with heq | heq | heq <;> rw [heq]
    · exact ⟨by simp, fun hok => hne (ok.inj hok)⟩
    · simp
    · simp
  unfold readSource
  rw [hread]

omit hl in
theorem leadsPast_of_convert {text : Text} {o : Conversion.Outcome} (hread : readSource t q = .ok text)
    (hconvert : convert settings.options (layoutFiles t index) text = .ok o) :
    ∀ path bytes, (path, bytes) ∈ changesOf index q o → t.LeadsPast path l := by
  obtain ⟨hchanges, hfiles, -⟩ := writes_of_convert hindex hq.endsWith_name hread hconvert
  intro path bytes hmem
  obtain ⟨k, hk, hfile⟩ := hfiles path bytes hmem
  rw [hchanges] at hmem
  rcases mem_cons.1 hmem with heq | hmem
  · cases heq
    refine ⟨source_named hq.endsWith_name, k, hk, hfile, ?_⟩
    rintro rfl
    exact hne (Tree.resolve_of_locate hk)
  · obtain ⟨f, -, hf⟩ := mem_filterMap.1 hmem
    have hget := (layoutWrite?_eq_some hindex hf).1
    refine ⟨layout_named hindex hget, k, hk, hfile, ?_⟩
    rintro rfl
    exact (locate_layout hindex hsame h hsource (Keyed.mem_of_get? hget)).2 hk

/-- A file is converted as well without another source file. -/
theorem convertFile_delete : convertFile settings index (t.delete l) q =
    ((convertFile settings index t q).1, (convertFile settings index t q).2.delete l) := by
  unfold convertFile
  rw [readSource_delete h hl hq hne, layoutFiles_delete hindex hsame h hl hsource]
  cases hread : readSource t q with
  | error message => rfl
  | ok text =>
    cases hconvert : convert settings.options (layoutFiles t index) text with
    | error why => simp only [hconvert]
    | ok o =>
      have hpast := leadsPast_of_convert hindex hsame h hsource hq hne hread hconvert
      simp only [hconvert, writeOutcome, ChangeSet.commit, ChangeSet.writeAll_delete h hl hpast]
      split
      · rfl
      · split
        · rfl
        · split
          · rfl
          · rcases ChangeSet.writeAll t (changesOf index q o) with ⟨why | done, t'⟩
            · rfl
            · rfl

omit hsame h hl hsource hne in
theorem sameFiles_convertFile : t.SameFiles (convertFile settings index t q).2 := by
  rcases convertFile_cases settings index t q with ⟨htree, -⟩ | ⟨text, o, hread, hconvert, -, htree, -⟩
  · rw [htree]
    exact .refl t
  · rw [htree]
    exact ChangeSet.sameFiles_writeAll (writes_of_convert hindex hq.endsWith_name hread hconvert).2.1

end Step

/-! ## A batch -/

theorem convertFiles_append (settings : Settings) (index : Keyed Text Path) : ∀ (t : Tree) (ps qs : List Path),
    convertFiles settings index t (ps ++ qs) =
      ((convertFiles settings index t ps).1 ++ (convertFiles settings index (convertFiles settings index t ps).2 qs).1,
        (convertFiles settings index (convertFiles settings index t ps).2 qs).2)
  | t, [], qs => rfl
  | t, p :: ps, qs => by
    simp only [cons_append, convertFiles, convertFiles_append settings index _ ps qs]

theorem map_path_convertFiles (settings : Settings) (index : Keyed Text Path) : ∀ (t : Tree) (ps : List Path),
    (convertFiles settings index t ps).1.map (·.path) = ps
  | t, [] => rfl
  | t, p :: ps => by
    simp only [convertFiles, map_cons, path_convertFile, map_path_convertFiles settings index _ ps]

theorem head_mem_convertFiles (settings : Settings) (index : Keyed Text Path) (t : Tree) (q : Path) (qs : List Path) :
    (convertFile settings index t q).1 ∈ (convertFiles settings index t (q :: qs)).1 := by
  simp only [convertFiles, mem_cons, true_or]

theorem path_mem_of_mem (h : o ∈ (convertFiles settings index t qs).1) : o.path ∈ qs := by
  rw [← map_path_convertFiles settings index t qs]
  exact mem_map_of_mem h

theorem filter_path_convertFiles
    (h : q ∉ qs) : (convertFiles settings index t qs).1.filter (·.path ≠ q) = (convertFiles settings index t qs).1 := by
  refine filter_eq_self.2 fun o ho => ?_
  rw [decide_eq_true_eq]
  rintro rfl
  exact h (path_mem_of_mem ho)

theorem eq_convertFile_of_mem (h : o ∈ (convertFiles settings index t (before ++ o.path :: after)).1)
    (hbefore : o.path ∉ before) (hafter : o.path ∉ after) :
    o = (convertFile settings index (convertFiles settings index t before).2 o.path).1 := by
  rw [convertFiles_append] at h
  rcases mem_append.1 h with h | h
  · exact absurd (path_mem_of_mem h) hbefore
  · rcases mem_cons.1 h with h | h
    · exact h
    · exact absurd (path_mem_of_mem h) hafter

section Run

variable {settings : Settings} {t₀ : Tree} {root p : Path} {index : Keyed Text Path}
  (hindex : layoutIndex t₀ root = .ok index)

include hindex

theorem sameFiles_convertFiles : ∀ {t : Tree} {qs : List Path}, (∀ q ∈ qs, IsSourceOf t p q) →
    t.SameFiles (convertFiles settings index t qs).2
  | t, [], _ => .refl t
  | t, q :: qs, hqs => by
    have hstep : t.SameFiles (convertFile settings index t q).2 := sameFiles_convertFile hindex (hqs q (by simp))
    exact hstep.trans (sameFiles_convertFiles fun q' hq' => (hqs q' (by simp [hq'])).of_sameFiles hstep)

/-- A batch of files gives the same outcomes and the same tree without another source file. -/
theorem convertFiles_delete {l : Location} (hsource : IsSource l) : ∀ {t : Tree} {qs : List Path}, t₀.SameFiles t →
    t.WellFormed → t.isFile l = true → (∀ q ∈ qs, IsSourceOf t p q ∧ t.resolve q ≠ l) →
    convertFiles settings index (t.delete l) qs =
      ((convertFiles settings index t qs).1, (convertFiles settings index t qs).2.delete l)
  | t, [], _, _, _, _ => rfl
  | t, q :: qs, hsame, h, hl, hqs => by
    obtain ⟨hq, hne⟩ := hqs q (by simp)
    have hstep : t.SameFiles (convertFile settings index t q).2 := sameFiles_convertFile hindex hq
    have hrest : ∀ q' ∈ qs, IsSourceOf (convertFile settings index t q).2 p q' ∧
        (convertFile settings index t q).2.resolve q' ≠ l := fun q' hq' => by
      obtain ⟨hsource', hne'⟩ := hqs q' (by simp [hq'])
      exact ⟨hsource'.of_sameFiles hstep, by rwa [hstep.resolve]⟩
    have ih := convertFiles_delete hsource (hsame.trans hstep) (h.of_sameFiles hstep) ((hstep.isFile l).trans hl) hrest
    simp only [convertFiles, convertFile_delete hindex hsame h hl hsource hq hne, ih]

end Run

/-! ## A folder -/

/-- When the batch comes to the file, converting it changes no other file. -/
def KeepsOthers (settings : Settings) (t : Tree) (p : Path) (project : Option Path) (q : Path) : Prop :=
  ∀ index files before, layoutsFor t p project = .ok index → sourceFiles t p settings = .ok files →
    before = (convertFiles settings index t (files.takeWhile (· ≠ q))).2 →
    ∀ l, l ≠ t.resolve q → (convertFile settings index before q).2.files.get? l = before.files.get? l

theorem layoutIndex_of_layoutsFor
    (h : layoutsFor t p project = .ok index) : ∃ root, layoutIndex t root = .ok index := by
  cases project with
  | some root => exact ⟨root, h⟩
  | none =>
    obtain ⟨root, -, h⟩ := bind_eq_ok.1 h
    exact ⟨_, h⟩

theorem convertPath_folder {folder : Location}
    (hp : t.locate p = .ok folder) (hfolder : t.isFolder folder = true) (hfile : t.isFile folder = false) :
    convertPath settings t p false project =
      layoutsFor t p project >>= fun index => sourceFiles t p settings >>= fun files =>
        .ok (convertFiles settings index t files) := by
  have hfile : t.hasFile p = .ok false := by
    simp [Tree.hasFile, Tree.find?, hp, Tree.found?, hfolder, hfile, bind, Except.bind, pure, Except.pure]
  unfold convertPath
  rw [hfile]
  rfl

theorem convertFiles_singleton {t' : Tree} (h : convertFile settings index t p = (o, t')) :
    convertFiles settings index t [p] = ([o], t') := by
  simp only [convertFiles, h]

theorem exists_takeWhile_append {α : Type} [DecidableEq α] {a : α} : ∀ {l : List α}, a ∈ l → l.Nodup →
    ∃ after, l = l.takeWhile (· ≠ a) ++ a :: after ∧ a ∉ after ∧ l.filter (· ≠ a) = l.takeWhile (· ≠ a) ++ after
  | b :: l, hmem, hnodup => by
    rw [nodup_cons] at hnodup
    by_cases hb : b = a
    · subst hb
      have hrest : l.filter (· ≠ b) = l := filter_eq_self.2 fun c hc => by
        rw [decide_eq_true_eq]
        rintro rfl
        exact hnodup.1 hc
      exact ⟨l, by simp, hnodup.1, by simpa using hrest⟩
    · obtain ⟨after, hl, hafter, hfilter⟩ :=
        exists_takeWhile_append ((mem_cons.1 hmem).resolve_left (Ne.symm hb)) hnodup.2
      refine ⟨after, ?_, hafter, ?_⟩ <;> rw [takeWhile_cons_of_pos (by simpa using hb), cons_append]
      · rw [← hl]
      · rw [filter_cons_of_pos (by simpa using hb), hfilter]

section Folder

variable {settings : Settings} {t t₁ : Tree} {p : Path} {folder : Location} {project : Option Path}

theorem isSourceOf_of_mem (hp : t.locate p = .ok folder) (hfolder : t.isFolder folder = true) {files : List Path}
    (hfiles : sourceFiles t p settings = .ok files) (hq : q ∈ files) : IsSourceOf t p q := by
  rw [sourceFiles_eq hp hfolder] at hfiles
  obtain rfl := ok.inj hfiles
  obtain ⟨names, hnames, rfl⟩ := mem_map.1 hq
  obtain ⟨hbelow, hsource⟩ := mem_sourceNames (mem_mergeSort.1 hnames)
  exact ⟨folder, names, hp, hbelow, hsource, rfl⟩

theorem resolve_inj (h : t.WellFormed) {q' : Path} (hq : IsSourceOf t p q) (hq' : IsSourceOf t p q')
    (heq : t.resolve q = t.resolve q') : q = q' := by
  obtain ⟨k, names, hk, hnames, -, rfl⟩ := hq
  obtain ⟨k', names', hk', hnames', -, rfl⟩ := hq'
  obtain rfl := ok.inj (hk.symm.trans hk')
  rw [Tree.resolve_pathBelow h hk hnames, Tree.resolve_pathBelow h hk hnames'] at heq
  rw [append_cancel_left heq]

/-- A batch without a file whose step changes no other file: the other files have the same outcomes, and the trees
differ in that file alone. -/
theorem convertFiles_without (h : t.WellFormed) {root : Path} (hindex : layoutIndex t root = .ok index)
    (hsources : ∀ q' ∈ before ++ q :: after, IsSourceOf t p q') (hbefore : q ∉ before) (hafter : q ∉ after)
    (hkeeps : ∀ l, l ≠ t.resolve q →
      (convertFile settings index (convertFiles settings index t before).2 q).2.files.get? l =
        (convertFiles settings index t before).2.files.get? l) :
    convertFiles settings index (t.delete (t.resolve q)) (before ++ after) =
      ((convertFiles settings index t (before ++ q :: after)).1.filter (·.path ≠ q),
        (convertFiles settings index t (before ++ q :: after)).2.delete (t.resolve q)) := by
  have hq : IsSourceOf t p q := hsources q (by simp)
  obtain ⟨hl, hsource⟩ := hq.isFile_resolve h
  have hpast : ∀ {t' : Tree}, t.SameFiles t' → ∀ {qs : List Path}, (∀ q' ∈ qs, q' ∈ before ++ q :: after) → q ∉ qs →
      ∀ q' ∈ qs, IsSourceOf t' p q' ∧ t'.resolve q' ≠ t.resolve q := fun {t'} hsame {qs} hqs hnot q' hq' => by
    have hq'' := hsources q' (hqs q' hq')
    refine ⟨hq''.of_sameFiles hsame, fun heq => hnot ?_⟩
    rw [hsame.resolve] at heq
    exact resolve_inj h hq'' hq heq ▸ hq'
  have hreach : t.SameFiles (convertFiles settings index t before).2 :=
    sameFiles_convertFiles hindex fun q' hq' => hsources q' (by simp [hq'])
  have hstep : (convertFiles settings index t before).2.SameFiles
      (convertFile settings index (convertFiles settings index t before).2 q).2 :=
    sameFiles_convertFile hindex (hq.of_sameFiles hreach)
  -- without the file nothing tells its step from none
  have htrace := Tree.delete_eq_of_sameFiles (h.of_sameFiles hreach) hstep hkeeps
  have hsame := hreach.trans hstep
  rw [convertFiles_append, convertFiles_append, convertFiles_delete hindex hsource (.refl t) h hl
    (hpast (.refl t) (fun q' hq' => by simp [hq']) hbefore), ← htrace,
    convertFiles_delete hindex hsource hsame (h.of_sameFiles hsame) ((hsame.isFile _).trans hl)
      (hpast hsame (fun q' hq' => by simp [hq']) hafter)]
  simp only [convertFiles, filter_append, filter_path_convertFiles hbefore]
  rw [filter_cons_of_neg (by simp [path_convertFile]), filter_path_convertFiles hafter]

/-- A file that is not converted and whose writes did not fail half way leaves no trace: without it the other files have
the same outcomes in the same order, and the tree is the same. -/
theorem convertPath_without {outcomes : List FileOutcome} {o : FileOutcome} (h : t.WellFormed)
    (hp : t.locate p = .ok folder) (hfolder : t.isFolder folder = true)
    (hrun : convertPath settings t p false project = .ok (outcomes, t₁)) (ho : o ∈ outcomes)
    (hstatus : o.status ≠ .converted) (hkeeps : o.status = .failed → KeepsOthers settings t p project o.path) :
    ∃ t₂, convertPath settings (t.delete (t.resolve o.path)) p false project =
        .ok (outcomes.filter (·.path ≠ o.path), t₂) ∧
      ∀ l, l ≠ t.resolve o.path → t₂.files.get? l = t₁.files.get? l := by
  have hfile := h.isFile_eq_false hfolder
  rw [convertPath_folder hp hfolder hfile] at hrun
  obtain ⟨index, hindex, hrun⟩ := bind_eq_ok.1 hrun
  obtain ⟨files, hfiles, hrun⟩ := bind_eq_ok.1 hrun
  obtain ⟨root, hroot⟩ := layoutIndex_of_layoutsFor hindex
  obtain ⟨rfl, rfl⟩ := Prod.ext_iff.1 (ok.inj hrun)
  have hsources : ∀ q ∈ files, IsSourceOf t p q := fun q hq => isSourceOf_of_mem hp hfolder hfiles hq
  have hq : IsSourceOf t p o.path := hsources _ (path_mem_of_mem ho)
  obtain ⟨hl, hsource⟩ := hq.isFile_resolve h
  -- the files before and behind it
  obtain ⟨after, hsplit, hafter, hrest⟩ :=
    exists_takeWhile_append (path_mem_of_mem ho) (nodup_sourceFiles h hp hfolder hfiles)
  have hbefore : o.path ∉ files.takeWhile (· ≠ o.path) := fun hin => by
    simpa using mem_takeWhile_imp hin
  have hdeleted : files.filter (fun q => t.resolve q ≠ t.resolve o.path) = files.filter (· ≠ o.path) := by
    refine filter_congr fun q hq' => ?_
    rw [decide_eq_decide]
    exact not_congr ⟨resolve_inj h (hsources q hq') hq, congrArg _⟩
  have hstep := eq_convertFile_of_mem (by rw [← hsplit]; exact ho) hbefore hafter
  have hkept := get?_convertFile_of_not_converted (hstep ▸ hstatus)
    fun hfailed => hkeeps (hstep ▸ hfailed) index files _ hindex hfiles rfl
  have hp' : (t.delete (t.resolve o.path)).locate p = .ok folder := by
    rw [Tree.locate_delete_of_ne h hl (by simp [hp]), hp]
  have hfile' : (t.delete (t.resolve o.path)).isFile folder = false := by
    rw [← Bool.not_eq_true, Tree.isFile_delete, hfile]
    simp
  refine ⟨(convertFiles settings index t files).2.delete (t.resolve o.path), ?_, fun l hne => Tree.get?_delete hne⟩
  rw [convertPath_folder hp' (by rw [Tree.isFolder_delete h hl, hfolder]) hfile',
    layoutsFor_delete h hl hsource hp hfolder, hindex, sourceFiles_delete h hl hp hfolder settings hfiles,
    hdeleted, hrest]
  have hrun := convertFiles_without h hroot (by rw [← hsplit]; exact hsources) hbefore hafter hkept
  rw [← hsplit] at hrun
  exact congrArg ok hrun

end Folder

/-! ## A project with a broken file -/

def allFiles : Settings := { ignored := [] }

theorem sourceFiles_hereFolder (h : t.here = []) {names : List (List Text)}
    (hnames : sourceNames t [] allFiles = names) (hsorted : names.Pairwise fun a b => namesLe a b = true) :
    sourceFiles t hereFolder allFiles = .ok (names.map (Tree.pathBelow hereFolder)) := by
  rw [sourceFiles_eq (locate_hereFolder h) rfl, hnames, mergeSort_of_pairwise hsorted]

/-- A project with a file that cannot be read and one that is converted. -/
def brokenProject : Tree :=
  { files := [(["A.java"], Text.utf8 "class A \x7b"), (["B.java"], Text.utf8 boundTitle)] }

theorem wellFormed_brokenProject : brokenProject.WellFormed where
  nodup := by decide
  top := by decide
  leaf l hl := by
    simp only [Tree.isFile, Keyed.has_iff] at hl ⊢
    revert l
    decide
  plain := by
    simp only [Tree.isFile, Keyed.has_iff]
    decide

def brokenSource : Path := ⟨[], ["A.java"]⟩

theorem layoutsFor_brokenProject : layoutsFor brokenProject hereFolder (some hereFolder) = .ok [] := by
  have hentries : (brokenProject.below []).filterMap (LayoutEntry.of? hereFolder) = [] := rfl
  rw [layoutsFor_hereFolder rfl hentries .nil]
  rfl

theorem sourceFiles_brokenProject :
    sourceFiles brokenProject hereFolder allFiles = .ok [brokenSource, ⟨[], ["B.java"]⟩] := by
  have hnames : sourceNames brokenProject [] allFiles = [["A.java".toList], ["B.java"]] := by decide +kernel
  rw [sourceFiles_hereFolder rfl hnames (by decide)]
  rfl

theorem convertPath_without_brokenProject : ∃ outcomes t₁ o t₂,
    convertPath allFiles brokenProject hereFolder false (some hereFolder) = .ok (outcomes, t₁) ∧ o ∈ outcomes ∧
      o.path = brokenSource ∧ o.status = .failed ∧
      convertPath allFiles (brokenProject.delete ["A.java".toList]) hereFolder false (some hereFolder) =
        .ok (outcomes.filter (·.path ≠ brokenSource), t₂) ∧
      ∀ l, l ≠ ["A.java".toList] → t₂.files.get? l = t₁.files.get? l := by
  have hfile : (convertFile allFiles [] brokenProject brokenSource).1.status = .failed ∧
      (convertFile allFiles [] brokenProject brokenSource).2 = brokenProject := by
    rw [convertFile]
    simp only [convert_eq_evaluated]
    decide +kernel
  have hkeeps : KeepsOthers allFiles brokenProject hereFolder (some hereFolder) brokenSource := by
    rintro index files before hindex hsources rfl l -
    obtain rfl := ok.inj (layoutsFor_brokenProject.symm.trans hindex)
    obtain rfl := ok.inj (sourceFiles_brokenProject.symm.trans hsources)
    rw [takeWhile_cons_of_neg (by simp), convertFiles, hfile.2]
  have hmem := head_mem_convertFiles allFiles [] brokenProject brokenSource [⟨[], ["B.java".toList]⟩]
  have hpath := path_convertFile allFiles [] brokenProject brokenSource
  have hrun : convertPath allFiles brokenProject hereFolder false (some hereFolder) = .ok
      (convertFiles allFiles [] brokenProject [brokenSource, ⟨[], ["B.java".toList]⟩]) := by
    rw [convertPath_folder (locate_hereFolder rfl) rfl rfl, layoutsFor_brokenProject, sourceFiles_brokenProject]
    rfl
  generalize convertFiles allFiles [] brokenProject [brokenSource, ⟨[], ["B.java".toList]⟩] = r at hrun hmem
  obtain ⟨outcomes, t₁⟩ := r
  obtain ⟨t₂, hrun', hrest⟩ := convertPath_without wellFormed_brokenProject (locate_hereFolder rfl) rfl hrun hmem
    (by simp [hfile.1]) fun _ => by rwa [hpath]
  have hresolve : brokenProject.resolve brokenSource = ["A.java".toList] := by decide
  rw [hpath, hresolve] at hrun' hrest
  exact ⟨outcomes, t₁, _, t₂, hrun, hmem, hpath, hfile.1, hrun', hrest⟩

/-! ## A file that leaves a trace -/

/-- A name that the system takes, but not with what is added to it for a file that is being written. -/
def longName : Text := List.replicate 61 '𠀀'

/-- A class with a view in a layout and one in an included layout. -/
def twoLayouts : Text :=
  "import butterknife.*;\nclass A \x7b\n @BindView(R.id.t) T t;\n @BindView(R.id.u) U u;\n" ++
    " void onCreate(B b) \x7b\n  setContentView(R.layout.m);\n \x7d\n\x7d\n"

/-- The outer layout, with an attribute for its view or without one. -/
def outerLayout (id : Text) : Bytes :=
  Text.utf8 ("<L xmlns:android=\"http://schemas.android.com/apk/res/android\"><T" ++ id ++
    "/><include layout=\"@layout/" ++ longName ++ "\"/></L>")

def innerLayout (id : Text) : Bytes :=
  Text.utf8 ("<U xmlns:android=\"http://schemas.android.com/apk/res/android\"" ++ id ++ "/>")

def innerPath : Path := ⟨[], ["res", "layout", longName ++ layoutEnding]⟩

/-- A project with a class and its two layouts, of which one cannot be written. -/
def unwritable (source outer inner : Bytes) : Tree :=
  { files := [(["A.java"], source), (outerPath.parts, outer), (innerPath.parts, inner)] }

def unwritableProject : Tree := unwritable (Text.utf8 twoLayouts) (outerLayout []) (innerLayout [])

def unwritableIndex : Keyed Text Path := [("m", outerPath), (longName, innerPath)]

theorem layoutsFor_unwritableProject :
    layoutsFor unwritableProject hereFolder (some hereFolder) = .ok unwritableIndex := by
  have hentries : (unwritableProject.below []).filterMap (LayoutEntry.of? hereFolder) =
      [⟨["res", "layout"], "layout", "m.xml"⟩,
        ⟨["res", "layout"], "layout", longName ++ layoutEnding⟩] := by rfl
  rw [layoutsFor_hereFolder rfl hentries (by decide)]
  rfl

theorem sourceFiles_unwritableProject : sourceFiles unwritableProject hereFolder allFiles = .ok [brokenSource] := by
  have hnames : sourceNames unwritableProject [] allFiles = [["A.java".toList]] := by decide +kernel
  rw [sourceFiles_hereFolder rfl hnames (by decide)]
  rfl

/-- Without the condition on failed writes a file that is not converted leaves a trace: the outer layout of the project
changes although nothing is converted. -/
theorem convertPath_without_unwritableProject : ∃ o t₁ t₂,
    unwritableProject.WellFormed ∧ unwritableProject.locate hereFolder = .ok [] ∧
      convertPath allFiles unwritableProject hereFolder false (some hereFolder) = .ok ([o], t₁) ∧ o.status = .failed ∧
      convertPath allFiles (unwritableProject.delete (unwritableProject.resolve o.path)) hereFolder false
        (some hereFolder) = .ok ([], t₂) ∧
      outerPath.parts ≠ unwritableProject.resolve o.path ∧
      t₂.files.get? outerPath.parts ≠ t₁.files.get? outerPath.parts := by
  have hfile : (convertFile allFiles unwritableIndex unwritableProject brokenSource).1.status = .failed ∧
      (convertFile allFiles unwritableIndex unwritableProject brokenSource).2.files.get? outerPath.parts =
        some (outerLayout " android:id=\"@+id/t\"") := by
    rw [convertFile]
    simp only [convert_eq_evaluated]
    decide +kernel
  have hpath := path_convertFile allFiles unwritableIndex unwritableProject brokenSource
  generalize hrun : convertFile allFiles unwritableIndex unwritableProject brokenSource = r at hfile hpath
  obtain ⟨o, t₁⟩ := r
  have hwell : unwritableProject.WellFormed := by
    refine ⟨by decide, by decide, ?_, ?_⟩ <;> simp only [Tree.isFile, Keyed.has_iff] <;> decide
  have hresolve : unwritableProject.resolve o.path = ["A.java".toList] := by
    rw [hpath]
    decide
  have hfolder : unwritableProject.locate hereFolder = .ok [] := locate_hereFolder rfl
  have hl : unwritableProject.isFile ["A.java".toList] = true := by decide
  have hsource : IsSource ["A.java".toList] := ⟨_, rfl, by decide⟩
  have hfolder' : (unwritableProject.delete ["A.java".toList]).locate hereFolder = .ok [] := locate_hereFolder rfl
  refine ⟨o, t₁, unwritableProject.delete ["A.java".toList], hwell, hfolder, ?_, hfile.1, ?_, ?_, ?_⟩
  · rw [convertPath_folder hfolder rfl rfl, layoutsFor_unwritableProject, sourceFiles_unwritableProject]
    exact congrArg ok (convertFiles_singleton hrun)
  · rw [hresolve, convertPath_folder hfolder' rfl rfl, layoutsFor_delete hwell hl hsource hfolder rfl,
      layoutsFor_unwritableProject, sourceFiles_delete hwell hl hfolder rfl allFiles sourceFiles_unwritableProject,
      filter_cons_of_neg (by decide)]
    rfl
  · rw [hresolve]
    decide
  · rw [Tree.get?_delete (by decide), hfile.2]
    decide +kernel

end Rebind.Project
