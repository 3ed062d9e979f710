/-
What a batch goes through, with and without a file.
-/
import Rebind.Project.Batch
import Rebind.Proofs.Project.Deletion
import Rebind.Proofs.Project.Index
import Rebind.Proofs.Text.Order

namespace Rebind

open List

namespace Project

variable {t : Tree} {files : List Path}

theorem mergeSort_filter_namesLe (names : List (List Text)) (p : List Text → Bool) :
    (names.filter p).mergeSort namesLe = (names.mergeSort namesLe).filter p := by
  rw [funext fun a => funext (namesLe_eq_lexLe a)]
  have hsorted := pairwise_mergeSort Text.orders_le.lexLe_trans Text.orders_le.lexLe_total
  exact List.Perm.eq_of_pairwise (fun a b _ _ => Text.orders_le.lexLe_antisymm a b) (hsorted _) ((hsorted _).filter p)
    ((mergeSort_perm _ _).trans ((mergeSort_perm _ _).filter p).symm)

/-! ## Source files -/

def IsSource (names : List Text) : Prop := ∃ file, names.getLast? = some file ∧ Text.endsWith file sourceEnding = true

variable {names : List Text} {folder : Location} {settings : Settings} {p : Path}

theorem IsSource.append (h : IsSource names) (l : Location) : IsSource (l ++ names) := by
  obtain ⟨file, hlast, hsource⟩ := h
  exact ⟨file, by rw [getLast?_append, hlast]; rfl, hsource⟩

theorem IsSource.not_layout {names} (h : IsSource names) {name} :
    names.getLast? ≠ some (name ++ layoutEnding) := by
  intro hlayout
  obtain ⟨file, hlast, hsource⟩ := h
  obtain ⟨front, rfl⟩ := isSuffixOf_iff_suffix.1 hsource
  have hends := congrArg getLast? (Option.some.inj (hlast.symm.trans hlayout))
  simp [sourceEnding, layoutEnding] at hends

/-- The names of the source files below a folder that are not left alone. -/
def sourceNames (t : Tree) (folder : Location) (settings : Settings) : List (List Text) :=
  (t.below folder).filter fun names =>
    (names.getLast?.any fun file => Text.endsWith file sourceEnding) && !settings.ignores ⟨[], names⟩

theorem mem_sourceNames (h : names ∈ sourceNames t folder settings) : names ∈ t.below folder ∧ IsSource names := by
  obtain ⟨hbelow, hcond⟩ := mem_filter.1 h
  cases hlast : names.getLast? with
  | none => simp [hlast] at hcond
  | some file => exact ⟨hbelow, file, hlast, by simp_all⟩

theorem find?_of_isFolder (hp : t.locate p = .ok folder) (hfolder : t.isFolder folder = true) :
    t.find? p = .ok (some folder) := by
  simp [Tree.find?, hp, Tree.found?, hfolder]

theorem sourceFiles_eq (hp : t.locate p = .ok folder) (hfolder : t.isFolder folder = true) (settings : Settings) :
    sourceFiles t p settings = .ok (((sourceNames t folder settings).mergeSort namesLe).map (Tree.pathBelow p)) := by
  unfold sourceFiles
  rw [find?_of_isFolder hp hfolder]
  simp only [bind, Except.bind, Option.filter_some, hfolder, if_true]
  rfl

theorem nodup_sourceFiles (h : t.WellFormed) (hp : t.locate p = .ok folder)
    (hfolder : t.isFolder folder = true) (hfiles : sourceFiles t p settings = .ok files) :
    files.Nodup := by
  rw [sourceFiles_eq hp hfolder] at hfiles
  obtain rfl := Except.ok.inj hfiles
  refine List.Nodup.map ?_ ((mergeSort_perm _ _).nodup_iff.2 ((h.nodup_below folder).filter _))
  intro names names' heq
  exact append_cancel_left (Path.mk.inj heq).2

theorem layoutIndex_eq {root} (hroot : t.locate root = .ok folder)
    (hfolder : t.isFolder folder = true) {entries}
    (hentries : (t.below folder).filterMap (LayoutEntry.of? root) = entries) : layoutIndex t root =
      .ok (indexEntries root ((entries.mergeSort LayoutEntry.le).filter fun e => !e.isPlain)
        (indexEntries root ((entries.mergeSort LayoutEntry.le).filter LayoutEntry.isPlain) [])) := by
  unfold layoutIndex
  rw [find?_of_isFolder hroot hfolder]
  simp only [bind, Except.bind, Option.filter_some, hfolder, if_true, hentries]
  rfl

/-! ## The current folder -/

def hereFolder : Path := ⟨[], []⟩

theorem locate_hereFolder (h : t.here = []) : t.locate hereFolder = .ok [] := by
  have hstart : t.start hereFolder = [] := h
  unfold Tree.locate
  rw [hstart]
  rfl

theorem layoutsFor_hereFolder (h : t.here = []) {entries : List LayoutEntry}
    (hentries : (t.below []).filterMap (LayoutEntry.of? hereFolder) = entries)
    (hsorted : entries.Pairwise fun a b => a.le b = true) :
    layoutsFor t hereFolder (some hereFolder) = .ok (indexEntries hereFolder (entries.filter fun e => !e.isPlain)
      (indexEntries hereFolder (entries.filter LayoutEntry.isPlain) [])) := by
  unfold layoutsFor
  simp only [layoutIndex_eq (locate_hereFolder h) rfl hentries, mergeSort_of_pairwise hsorted]

/-! ## The project of a folder -/

/-- The folder of the project that a location belongs to. -/
def marked (t : Tree) (start : Location) : Location :=
  (markers.findSome? fun names =>
    (outward start).find? fun l => names.any fun name => t.isFile (l ++ [name])).getD start

theorem projectRoot_eq (t : Tree) (p : Path) : projectRoot t p = if p.text.contains '\x00' then .error .nul
    else t.found? (t.follow [] (t.resolve p)) >>= fun found =>
      .ok (marked t (if found.any t.isFile then (t.resolve p).dropLast else t.resolve p)) := rfl

/-! ## A batch without a source file -/

section Delete

variable {t : Tree} (h : t.WellFormed) {l : Location} (hl : t.isFile l = true) (hsource : IsSource l)

include h hl

theorem find?_delete (p : Path) : ((t.delete l).find? p).map (·.filter (t.delete l).isFolder) =
    (t.find? p).map (·.filter t.isFolder) := by
  have hfound : ∀ (t : Tree) (k : Location), (t.found? (.ok k)).map (·.filter t.isFolder) =
      .ok (if t.isFolder k then some k else none) := fun t k => by
    by_cases hk : t.isFolder k = true
    · simp [Tree.found?, Except.map, hk]
    · by_cases hfile : t.isFile k = true
      · simp [Tree.found?, Except.map, hk, hfile, Option.filter]
      · simp [Tree.found?, Except.map, hk, hfile]
  unfold Tree.find?
  rcases Tree.locate_delete h hl p with hsame | ⟨hbroken, hmissing⟩
  · rw [hsame]
    cases t.locate p with
    | ok k => rw [hfound, hfound, Tree.isFolder_delete h hl]
    | error why => cases why <;> rfl
  · rw [hbroken, hmissing]
    rfl

include hsource

omit h hl in
theorem filterMap_of?_delete (root : Path) (folder : Location) :
    ((t.delete l).below folder).filterMap (LayoutEntry.of? root) =
      (t.below folder).filterMap (LayoutEntry.of? root) := by
  rw [Tree.below_delete, filterMap_filter]
  congr 1
  funext names
  split
  · rfl
  · next hdeleted =>
    cases hentry : LayoutEntry.of? root names with
    | none => rfl
    | some e =>
      -- the file would be a source file and a layout
      obtain ⟨-, hlast⟩ := LayoutEntry.of?_eq_some hentry
      obtain rfl : folder ++ names = l := by simpa using hdeleted
      exact absurd (by rw [getLast?_append, hlast]; rfl) (@IsSource.not_layout _ hsource e.name)

theorem layoutIndex_delete (root : Path) : layoutIndex (t.delete l) root = layoutIndex t root := by
  have hfind := find?_delete h hl root
  unfold layoutIndex
  cases hx : t.find? root with
  | error why =>
    cases hy : (t.delete l).find? root with
    | error why' =>
      rw [hx, hy] at hfind
      cases hfind
      rfl
    | ok found =>
      rw [hx, hy] at hfind
      cases hfind
  | ok found =>
    cases hy : (t.delete l).find? root with
    | error why =>
      rw [hx, hy] at hfind
      cases hfind
    | ok found' =>
      rw [hx, hy] at hfind
      have hfind : found'.filter (t.delete l).isFolder = found.filter t.isFolder := Except.ok.inj hfind
      simp only [bind, Except.bind, hfind, filterMap_of?_delete hsource]

omit h hl in
theorem marked_delete (start : Location) : marked (t.delete l) start = marked t start := by
  have hmarker : ∀ k, ∀ name ∈ markers.flatten, (t.delete l).isFile (k ++ [name]) = t.isFile (k ++ [name]) := by
    intro k name hname
    have hne : k ++ [name] ≠ l := by
      rintro rfl
      obtain ⟨file, hlast, hends⟩ := hsource
      rw [getLast?_concat, Option.some.injEq] at hlast
      subst hlast
      have hnone : ∀ name ∈ markers.flatten, Text.endsWith name sourceEnding = false := by decide
      rw [hnone _ hname] at hends
      cases hends
    rw [Bool.eq_iff_iff, Tree.isFile_delete]
    exact and_iff_left hne
  have hnames : ∀ names ∈ markers, (fun k => names.any fun name => (t.delete l).isFile (k ++ [name])) =
      fun k => names.any fun name => t.isFile (k ++ [name]) := fun names hmem => funext fun k => by
    rw [Bool.eq_iff_iff, any_eq_true, any_eq_true]
    refine exists_congr fun name => and_congr_right fun hname => ?_
    rw [hmarker k name (mem_flatten.2 ⟨names, hmem, hname⟩)]
  obtain ⟨sure, likely, hmarkers⟩ : ∃ sure likely, markers = [sure, likely] := ⟨_, _, rfl⟩
  rw [hmarkers] at hnames
  simp only [marked, hmarkers, findSome?_cons, findSome?_nil, hnames sure (by simp), hnames likely (by simp)]

variable {p : Path} {folder : Location} (hp : t.locate p = .ok folder) (hfolder : t.isFolder folder = true)

include hp hfolder

theorem projectRoot_delete : projectRoot (t.delete l) p = projectRoot t p := by
  have hspelled : t.resolve p = folder := Tree.resolve_of_locate hp
  have hspelled' : (t.delete l).resolve p = folder := hspelled
  have hfile : t.isFile folder = false := h.isFile_eq_false hfolder
  have hfile' : (t.delete l).isFile folder = false := by
    rw [← Bool.not_eq_true, Tree.isFile_delete, hfile]
    simp
  rw [projectRoot_eq, projectRoot_eq, hspelled, hspelled', Tree.follow_folder_delete h hl hfolder]
  split
  · rfl
  · rcases h.follow_folder hfolder with heq | heq
    · rw [heq]
      simp only [Tree.found?, Tree.isFolder_delete h hl, hfolder, Bool.or_true, if_true, bind, Except.bind,
        Option.any_some, hfile, hfile', marked_delete hsource]
    · rw [heq]
      rfl

/-- The project that a folder belongs to and its layouts do not depend on a source file. -/
theorem layoutsFor_delete (given : Option Path) : layoutsFor (t.delete l) p given = layoutsFor t p given := by
  cases given with
  | some root => exact layoutIndex_delete h hl hsource root
  | none =>
    simp only [layoutsFor, projectRoot_delete h hl hsource hp hfolder, layoutIndex_delete h hl hsource]

omit hsource in
/-- The other source files stay in their order when one is deleted. -/
theorem sourceFiles_delete (settings : Settings) (hfiles : sourceFiles t p settings = .ok files) :
    sourceFiles (t.delete l) p settings = .ok (files.filter fun q => t.resolve q ≠ l) := by
  have hp' : (t.delete l).locate p = .ok folder := by rw [Tree.locate_delete_of_ne h hl (by simp [hp]), hp]
  rw [sourceFiles_eq hp hfolder] at hfiles
  rw [sourceFiles_eq hp' (by rw [Tree.isFolder_delete h hl, hfolder])]
  obtain rfl := Except.ok.inj hfiles
  have hnames : sourceNames (t.delete l) folder settings =
      (sourceNames t folder settings).filter fun names => folder ++ names ≠ l := by
    simp only [sourceNames, Tree.below_delete, filter_filter, Bool.and_comm]
  rw [hnames, mergeSort_filter_namesLe, filter_map]
  congr 2
  refine filter_congr fun names hmem => ?_
  have hbelow := (mem_sourceNames (mem_mergeSort.1 hmem)).1
  rw [Function.comp_apply, Tree.resolve_pathBelow h hp hbelow]

end Delete

end Project

end Rebind
