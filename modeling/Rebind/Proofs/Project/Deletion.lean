/-
Trees without one of their files.
-/
import Mathlib.Data.List.Nodup
import Rebind.Proofs.Project.Tree

namespace Rebind.Project

namespace Tree

open List Bool Except

variable {t t' : Tree} {l k : Location} {p : Path} {names : List Text}

/-! ## Trees as systems have them -/

/-- What holds of the files and folders of a system: a file is there once and is no folder, and no name is two dots. -/
structure WellFormed (t : Tree) : Prop where
  nodup : (t.files.map (·.1)).Nodup
  top : t.isFile [] = false
  leaf : ∀ l, t.isFile l = true → (∀ d ∈ t.folders, ¬ l <+: d) ∧ ∀ k, t.isFile k = true → l <+: k → k = l
  plain : (∀ l, t.isFile l = true → "..".toList ∉ l) ∧ ∀ d ∈ t.folders, "..".toList ∉ d

theorem WellFormed.of_sameFiles (h : t.WellFormed) (hsame : t.SameFiles t') : t'.WellFormed where
  nodup := hsame.locations ▸ h.nodup
  top := (hsame.isFile []).trans h.top
  leaf l hl := by
    obtain ⟨hfolders, hfiles⟩ := h.leaf l (hsame.isFile l ▸ hl)
    exact ⟨fun d hd => hfolders d (hsame.folders ▸ hd), fun k hk => hfiles k (hsame.isFile k ▸ hk)⟩
  plain := ⟨fun l hl => h.plain.1 l (hsame.isFile l ▸ hl), fun d hd => h.plain.2 d (hsame.folders ▸ hd)⟩

theorem isFile_of_mem {f} (h : f ∈ t.files) : t.isFile f.1 = true :=
  Keyed.has_iff.2 (mem_map_of_mem h)

theorem isFolder_iff : t.isFolder l = true ↔
    l = [] ∨ t.isFile l = false ∧ ((∃ d ∈ t.folders, l <+: d) ∨ ∃ k, t.isFile k = true ∧ l <+: k) := by
  have hfiles : (∃ f ∈ t.files, l <+: f.1) ↔ ∃ k, t.isFile k = true ∧ l <+: k := by
    constructor
    · rintro ⟨f, hf, hpre⟩
      exact ⟨f.1, isFile_of_mem hf, hpre⟩
    · rintro ⟨k, hk, hpre⟩
      obtain ⟨f, hf, rfl⟩ := mem_map.1 (Keyed.has_iff.1 hk)
      exact ⟨f, hf, hpre⟩
  simp only [isFolder, or_eq_true, and_eq_true, not_eq_true', List.isEmpty_iff, any_eq_true,
    isPrefixOf_iff_prefix, hfiles]

namespace WellFormed

variable {t : Tree} (h : t.WellFormed)

include h

theorem isFile_eq_false (hl : t.isFolder l = true) : t.isFile l = false := by
  rcases isFolder_iff.1 hl with rfl | ⟨hfile, -⟩
  · exact h.top
  · exact hfile

theorem isFolder_of_isPrefix (hl : t.isFile l = true ∨ t.isFolder l = true) (hpre : k <+: l)
    (hne : k ≠ l) : t.isFolder k = true := by
  by_cases hk : k = []
  · exact isFolder_iff.2 (.inl hk)
  · have hinner : (∃ d ∈ t.folders, l <+: d) ∨ ∃ j, t.isFile j = true ∧ l <+: j := by
      rcases hl with hl | hl
      · exact .inr ⟨l, hl, prefix_rfl⟩
      · exact ((isFolder_iff.1 hl).resolve_left fun hnil => hk (prefix_nil.1 (hnil ▸ hpre))).2
    refine isFolder_iff.2 (.inr ⟨?_, ?_⟩)
    · rw [← not_eq_true]
      intro hfile
      rcases hinner with ⟨d, hd, hld⟩ | ⟨j, hj, hlj⟩
      · exact (h.leaf k hfile).1 d hd (hpre.trans hld)
      · obtain rfl := (h.leaf k hfile).2 j hj (hpre.trans hlj)
        exact hne (hpre.eq_of_length_le hlj.length_le)
    · rcases hinner with ⟨d, hd, hld⟩ | ⟨j, hj, hlj⟩
      · exact .inl ⟨d, hd, hpre.trans hld⟩
      · exact .inr ⟨j, hj, hpre.trans hlj⟩

theorem not_mem_dots (hl : t.isFile l = true ∨ t.isFolder l = true) : "..".toList ∉ l := by
  rcases hl with hl | hl
  · exact h.plain.1 l hl
  · rcases isFolder_iff.1 hl with rfl | ⟨-, ⟨d, hd, hld⟩ | ⟨j, hj, hlj⟩⟩
    · simp
    · exact fun hmem => h.plain.2 d hd (hld.subset hmem)
    · exact fun hmem => h.plain.1 j hj (hlj.subset hmem)

theorem follow_down : ∀ {names : List Text} {l},
    t.isFile (l ++ names) = true ∨ t.isFolder (l ++ names) = true →
    t.follow l names = .ok (l ++ names) ∨ t.follow l names = .error .tooLong
  | [], l, _ => .inl (by rw [append_nil]; rfl)
  | name :: names, l, hl => by
    have hfolder : t.isFolder l = true := h.isFolder_of_isPrefix hl (prefix_append l _) (by simp)
    have hdots : (name == "..".toList) = false := by
      rw [beq_eq_false_iff_ne]
      rintro rfl
      exact h.not_mem_dots hl (by simp)
    rw [show l ++ name :: names = l ++ [name] ++ names by simp] at hl ⊢
    simp only [follow, hfolder, if_true, hdots, false_eq_true, if_false]
    split
    · exact .inr rfl
    · exact follow_down hl

theorem follow_folder {folder} (hfolder : t.isFolder folder = true) :
    t.follow [] folder = .ok folder ∨ t.follow [] folder = .error .tooLong :=
  h.follow_down (@Or.inr (t.isFile ([] ++ folder) = true) _ hfolder)

end WellFormed

/-! ## Spelled locations -/

theorem foldl_of_follow {t : Tree} : ∀ {parts l l'}, t.follow l parts = .ok l' →
    parts.foldl (fun (l : Location) (part : Text) => if part == ".." then l.dropLast else l ++ [part]) l = l'
  | [], l, l', h => ok.inj h
  | part :: parts, l, l', h => by
    simp only [follow] at h
    rw [foldl_cons]
    split at h
    · split at h
      · next hdots => rw [if_pos hdots]; exact foldl_of_follow h
      · next hdots =>
        rw [if_neg hdots]
        split at h
        · cases h
        · exact foldl_of_follow h
    · split at h
      · cases h
      · cases h

theorem foldl_of_plain : ∀ {names : List Text} {l}, "..".toList ∉ names →
    names.foldl (fun (l : Location) (part : Text) => if part == ".." then l.dropLast else l ++ [part]) l = l ++ names
  | [], l, _ => by simp
  | name :: names, l, h => by
    have hname : ¬ (name == "..") = true := fun heq => h (by simp [beq_iff_eq.1 heq])
    rw [foldl_cons, if_neg hname, foldl_of_plain fun hmem => h (mem_cons_of_mem _ hmem)]
    simp

theorem locate_eq_follow (h : t.locate p = .ok l) : t.follow (t.start p) p.parts = .ok l := by
  unfold locate at h
  split at h
  · cases h
  · split at h
    · cases h
    · exact h

theorem resolve_of_locate (h : t.locate p = .ok l) : t.resolve p = l := foldl_of_follow (locate_eq_follow h)

/-! ## Files below a folder -/

/-- The names on the way from a folder down to a location. -/
def namesBelow? (folder k : Location) : Option (List Text) :=
  if folder.isPrefixOf k && decide (folder.length < k.length) then some (k.drop folder.length) else none

theorem namesBelow?_eq_some {folder} :
    namesBelow? folder k = some names ↔ names ≠ [] ∧ k = folder ++ names := by
  unfold namesBelow?
  constructor
  · intro h
    split at h
    · next hcond =>
      simp only [and_eq_true, isPrefixOf_iff_prefix, decide_eq_true_eq] at hcond
      obtain ⟨⟨rest, rfl⟩, hlt⟩ := hcond
      rw [drop_left, Option.some.injEq] at h
      subst h
      refine ⟨?_, rfl⟩
      rintro rfl
      simp at hlt
    · cases h
  · rintro ⟨hne, rfl⟩
    have hlen : 0 < names.length := length_pos_iff.2 hne
    simp [hlen]

theorem below_eq (t : Tree) (folder : Location) :
    t.below folder = (t.files.map (·.1)).filterMap (namesBelow? folder) := by
  rw [filterMap_map]
  rfl

theorem mem_below {folder : Location} : names ∈ t.below folder ↔ names ≠ [] ∧ t.isFile (folder ++ names) = true := by
  simp only [below_eq, mem_filterMap, namesBelow?_eq_some, isFile, Keyed.has_iff]
  constructor
  · rintro ⟨k, hk, hne, rfl⟩
    exact ⟨hne, hk⟩
  · rintro ⟨hne, hk⟩
    exact ⟨_, hk, hne, rfl⟩

theorem WellFormed.nodup_below (h : t.WellFormed) (folder : Location) : (t.below folder).Nodup := by
  rw [below_eq]
  refine List.Nodup.filterMap (fun k k' names hk hk' => ?_) h.nodup
  rw [(namesBelow?_eq_some.1 hk).2, (namesBelow?_eq_some.1 hk').2]

def pathBelow (folder : Path) (names : List Text) : Path := { folder with parts := folder.parts ++ names }

section Below

variable {t : Tree} (h : t.WellFormed) {folder : Path} {l : Location} (hfolder : t.locate folder = .ok l)
  {names : List Text} (hnames : names ∈ t.below l)

include h hfolder hnames

theorem locate_pathBelow : t.locate (pathBelow folder names) = .ok (l ++ names) ∨
    t.locate (pathBelow folder names) = .error .tooLong ∨ t.locate (pathBelow folder names) = .error .nul := by
  unfold locate
  split
  · exact .inr (.inr rfl)
  · split
    · exact .inr (.inl rfl)
    · have hstart : t.follow (t.start (pathBelow folder names)) folder.parts = .ok l := locate_eq_follow hfolder
      rw [pathBelow, follow_append]
      rw [pathBelow] at hstart
      rw [hstart]
      rcases h.follow_down (.inl (mem_below.1 hnames).2) with hdown | hdown
      · exact .inl hdown
      · exact .inr (.inl hdown)

theorem resolve_pathBelow : t.resolve (pathBelow folder names) = l ++ names := by
  have hplain : "..".toList ∉ names := fun hmem =>
    h.plain.1 _ (mem_below.1 hnames).2 (mem_append_right _ hmem)
  have happend : t.resolve (pathBelow folder names) = names.foldl (fun (l : Location) (part : Text) =>
      if part == ".." then l.dropLast else l ++ [part]) (t.resolve folder) := by
    rw [resolve, pathBelow, foldl_append]
    rfl
  rw [happend, resolve_of_locate hfolder, foldl_of_plain hplain]

end Below

/-! ## Deletion -/

/-- The tree without the file at a location; the folder that it lies in stays. -/
def delete (t : Tree) (l : Location) : Tree :=
  { t with files := t.files.filter fun f => f.1 ≠ l, folders := t.folders ++ [l.dropLast] }

theorem get?_delete (hne : k ≠ l) : (t.delete l).files.get? k = t.files.get? k := by
  unfold delete Keyed.get?
  rw [find?_filter]
  congr 2
  funext f
  by_cases hf : f.1 = k
  · simp [hf, hne]
  · simp [hf]

theorem isFile_delete (t : Tree) (k l : Location) : (t.delete l).isFile k = true ↔ t.isFile k = true ∧ k ≠ l := by
  simp only [isFile, Keyed.has_iff, delete, mem_map, mem_filter, decide_eq_true_eq]
  constructor
  · rintro ⟨f, ⟨hf, hne⟩, rfl⟩
    exact ⟨⟨f, hf, rfl⟩, hne⟩
  · rintro ⟨⟨f, hf, rfl⟩, hne⟩
    exact ⟨f, ⟨hf, hne⟩, rfl⟩

section Delete

variable {t : Tree} (h : t.WellFormed) {l : Location} (hl : t.isFile l = true)

include h hl

/-- Folders stay when a file is deleted. -/
theorem isFolder_delete (k : Location) : (t.delete l).isFolder k = t.isFolder k := by
  have hne : l ≠ [] := by
    rintro rfl
    simp [h.top] at hl
  have hproper : ∀ {k}, k <+: l → k ≠ l → k <+: l.dropLast := fun {k} hpre hk => by
    obtain ⟨rest, rfl⟩ := hpre
    have hrest : rest ≠ [] := by
      rintro rfl
      simp at hk
    rw [dropLast_append_of_ne_nil hrest]
    exact prefix_append _ _
  rw [Bool.eq_iff_iff, isFolder_iff, isFolder_iff]
  refine or_congr_right ?_
  by_cases hk : k = l
  · subst hk
    constructor
    · -- nothing lies below the file
      rintro ⟨-, ⟨d, hd, hpre⟩ | ⟨j, hj, hpre⟩⟩
      · rcases mem_append.1 hd with hd | hd
        · exact absurd hpre ((h.leaf k hl).1 d hd)
        · obtain rfl := mem_singleton.1 hd
          have hlen := hpre.length_le
          rw [length_dropLast] at hlen
          have := length_pos_iff.2 hne
          omega
      · rw [isFile_delete] at hj
        exact absurd ((h.leaf k hl).2 j hj.1 hpre) hj.2
    · rintro ⟨hfile, -⟩
      rw [hl] at hfile
      cases hfile
  · have hsame : (t.delete l).isFile k = false ↔ t.isFile k = false := by
      rw [← Bool.not_eq_true, ← Bool.not_eq_true, isFile_delete]
      simp [hk]
    rw [hsame]
    refine and_congr_right fun _ => ?_
    constructor
    · rintro (⟨d, hd, hpre⟩ | ⟨j, hj, hpre⟩)
      · rcases mem_append.1 hd with hd | hd
        · exact .inl ⟨d, hd, hpre⟩
        · obtain rfl := mem_singleton.1 hd
          exact .inr ⟨l, hl, hpre.trans (List.dropLast_prefix l)⟩
      · exact .inr ⟨j, (isFile_delete t j l).1 hj |>.1, hpre⟩
    · rintro (⟨d, hd, hpre⟩ | ⟨j, hj, hpre⟩)
      · exact .inl ⟨d, mem_append_left _ hd, hpre⟩
      · by_cases hjl : j = l
        · subst hjl
          exact .inl ⟨j.dropLast, by simp [delete], hproper hpre hk⟩
        · exact .inr ⟨j, (isFile_delete t j l).2 ⟨hj, hjl⟩, hpre⟩

/-- Only a path that leads through the file can lead elsewhere when it is deleted: to nothing instead of a file. -/
theorem follow_delete : ∀ (parts : List Text) (k : Location), (t.delete l).follow k parts = t.follow k parts ∨
    t.follow k parts = .error .notAFolder ∧ (t.delete l).follow k parts = .error .notFound
  | [], k => .inl rfl
  | part :: parts, k => by
    simp only [follow, isFolder_delete h hl]
    split
    · split
      · exact follow_delete parts _
      · split
        · exact .inl rfl
        · exact follow_delete parts _
    · by_cases hk : (t.delete l).isFile k = true
      · rw [if_pos hk, if_pos ((isFile_delete t k l).1 hk).1]
        exact .inl rfl
      · rw [if_neg hk]
        split
        · exact .inr ⟨rfl, rfl⟩
        · exact .inl rfl

theorem follow_folder_delete {folder : Location} (hfolder : t.isFolder folder = true) :
    (t.delete l).follow [] folder = t.follow [] folder := by
  refine (follow_delete h hl folder []).resolve_right fun hbroken => ?_
  rcases h.follow_folder hfolder with heq | heq
  · cases heq.symm.trans hbroken.1
  · cases heq.symm.trans hbroken.1

/-- A path that does not lead through the file leads where it led before. -/
theorem locate_delete (p : Path) : (t.delete l).locate p = t.locate p ∨
    t.locate p = .error .notAFolder ∧ (t.delete l).locate p = .error .notFound := by
  unfold locate
  split
  · exact .inl rfl
  · split
    · exact .inl rfl
    · exact follow_delete h hl p.parts _

theorem locate_delete_of_ne (hne : t.locate p ≠ .error .notAFolder) : (t.delete l).locate p = t.locate p :=
  (locate_delete h hl p).resolve_right fun hbroken => hne hbroken.1

end Delete

theorem below_delete (t : Tree) (k l : Location) :
    (t.delete l).below k = (t.below k).filter fun names => k ++ names ≠ l := by
  unfold below delete
  rw [filterMap_filter, filter_filterMap]
  congr 1
  funext f
  change (if _ then namesBelow? k f.1 else none) = (namesBelow? k f.1).filter _
  cases hnames : namesBelow? k f.1 with
  | none => simp
  | some names => rw [(namesBelow?_eq_some.1 hnames).2, Option.filter_some]

theorem delete_eq_of_sameFiles (h : t.WellFormed) (hsame : t.SameFiles t')
    (hothers : ∀ k, k ≠ l → t'.files.get? k = t.files.get? k) : t'.delete l = t.delete l := by
  have hkeys : ∀ t : Tree, (t.delete l).files.map (·.1) = (t.files.map (·.1)).filter fun k => k ≠ l := fun t => by
    rw [filter_map]
    rfl
  have hfiles : (t'.delete l).files = (t.delete l).files := by
    refine Keyed.ext_of_keys ?_ ?_ fun k => ?_
    · rw [hkeys, hkeys, hsame.locations]
    · rw [hkeys]
      exact h.nodup.filter _
    · by_cases hk : k = l
      · rw [Keyed.get?_eq_none, Keyed.get?_eq_none] <;> rw [hkeys] <;> simp [hk]
      · rw [get?_delete hk, get?_delete hk, hothers k hk]
  have hfolders : (t'.delete l).folders = (t.delete l).folders := by simp only [delete, hsame.folders]
  have hhere : (t'.delete l).here = (t.delete l).here := hsame.here
  cases hd : t.delete l
  cases hd' : t'.delete l
  simp only [hd, hd'] at hfiles hfolders hhere
  rw [hfiles, hfolders, hhere]

theorem delete_putFile (hk : t.isFile k = true) (hne : k ≠ l) (bytes : Bytes) :
    (t.putFile k bytes).delete l = (t.delete l).putFile k bytes := by
  have hk' : (t.delete l).files.has k = true := (isFile_delete t k l).2 ⟨hk, hne⟩
  have hk : t.files.has k = true := hk
  unfold putFile Keyed.insert
  rw [if_pos hk, if_pos hk']
  simp only [delete]
  congr 1
  rw [filter_map]
  congr 1
  refine filter_congr fun f _ => ?_
  by_cases hf : f.1 = k
  · simp [hf]
  · simp [hf]

/-! ## Writes without a file -/

/-- The path leads to a file other than the one at the location, and ends with its name. -/
structure LeadsPast (t : Tree) (p : Path) (l : Location) : Prop where
  named : p.parts ≠ [] ∧ p.name ≠ ".."
  leads : ∃ k, t.locate p = .ok k ∧ t.isFile k = true ∧ k ≠ l

theorem LeadsPast.of_sameFiles (h : t.LeadsPast p l) (hsame : t.SameFiles t') : t'.LeadsPast p l := by
  obtain ⟨hnamed, k, hk, hfile, hne⟩ := h
  exact ⟨hnamed, k, by rw [hsame.locate, hk], by rw [hsame.isFile, hfile], hne⟩

section Write

variable {t : Tree} (h : t.WellFormed) {l : Location} (hl : t.isFile l = true)

include h hl

theorem read_delete (hp : t.locate p ≠ .error .notAFolder ∧ t.locate p ≠ .ok l) : (t.delete l).read p = t.read p := by
  unfold read
  rw [locate_delete_of_ne h hl hp.1]
  cases hlocate : t.locate p with
  | error why => rfl
  | ok k =>
    have hne : k ≠ l := by
      rintro rfl
      exact hp.2 hlocate
    simp only [bind, Except.bind, get?_delete hne, isFolder_delete h hl]

theorem write_delete (hp : t.LeadsPast p l) (bytes : Bytes) :
    (t.delete l).write p bytes = (t.write p bytes).map (·.delete l) := by
  obtain ⟨⟨hparts, hdots⟩, k, hk, hfile, hne⟩ := hp
  obtain ⟨folder, hfollow, hfolder, -, rfl⟩ := locate_concat hparts hdots hk
  -- the path spells the folder that it leads to, and names lead down to a folder
  have hparent : t.resolve p.parent = folder := foldl_of_follow hfollow
  have hlocate : (t.delete l).locate p = t.locate p := locate_delete_of_ne h hl (by simp [hk])
  have hparent' : (t.delete l).resolve p.parent = folder := hparent
  rw [write_eq, write_eq, hparent, hparent', follow_folder_delete h hl hfolder, hlocate, hk]
  split
  · rfl
  · rcases h.follow_folder hfolder with heq | heq
    · rw [heq]
      simp only [bind, Except.bind, isFolder_delete h hl, hfolder, Bool.not_true, Bool.false_eq_true, if_false]
      split
      · rfl
      · split
        · rfl
        · split
          · rfl
          · exact congrArg Except.ok (delete_putFile hfile hne bytes).symm
    · rw [heq]
      rfl

end Write

end Tree

namespace ChangeSet

theorem sameFiles_writeAll : ∀ {c} {t : Tree}, (∀ p bytes, (p, bytes) ∈ c → t.LeadsToFile p) →
    t.SameFiles (writeAll t c).2
  | [], t, _ => .refl t
  | (p, bytes) :: c, t, h => by
    simp only [writeAll]
    split
    · next t₁ hwrite =>
      obtain ⟨l, hl, rfl⟩ := Tree.write_eq_ok hwrite
      obtain ⟨k, hk, hfile⟩ := h p bytes (by simp)
      obtain rfl : l = k := Except.ok.inj (hl.symm.trans hk)
      have hsame := Tree.sameFiles_putFile hfile bytes
      exact hsame.trans (sameFiles_writeAll fun q b hq => (h q b (by simp [hq])).of_sameFiles hsame)
    · exact .refl t

/-- What is written elsewhere is written as before. -/
theorem writeAll_delete {l} : ∀ {c t}, t.WellFormed → t.isFile l = true →
    (∀ p bytes, (p, bytes) ∈ c → t.LeadsPast p l) →
    writeAll (t.delete l) c = ((writeAll t c).1, (writeAll t c).2.delete l)
  | [], t, _, _, _ => rfl
  | (p, bytes) :: c, t, h, hl, hpast => by
    have hp := hpast p bytes (by simp)
    simp only [writeAll, Tree.write_delete h hl hp bytes]
    cases hwrite : t.write p bytes with
    | error why => rfl
    | ok t₁ =>
      obtain ⟨k, hk, rfl⟩ := Tree.write_eq_ok hwrite
      obtain ⟨-, k', hk', hfile, -⟩ := hp
      obtain rfl : k = k' := Except.ok.inj (hk.symm.trans hk')
      have hsame := Tree.sameFiles_putFile hfile bytes
      exact writeAll_delete (h.of_sameFiles hsame) ((hsame.isFile l).trans hl)
        fun q b hq => (hpast q b (by simp [hq])).of_sameFiles hsame

end ChangeSet

end Rebind.Project
