/-
The index of a project's layouts. Paths for different names lead to different places, and none leads to a source file.
-/
import Rebind.Project.Layouts
import Rebind.Proofs.Except
import Rebind.Proofs.Keyed
import Rebind.Proofs.Text.Matching

namespace Rebind.Project

open List

variable {names : List Text} {e : LayoutEntry}

/-! ## Entries -/

variable {root path : Path} {t : Tree} {index : Keyed Text Path} {name : Text}

theorem LayoutEntry.of?_eq_some_iff : of? root names = some e ↔
    names = e.folders ++ [e.file] ∧ (∃ outer, root.parts ++ e.folders = outer ++ ["res".toList, e.folder]) ∧
      "layout" <+: e.folder ∧ layoutEnding <:+ e.file ∧ ∀ f ∈ e.folders, f ∉ skippedFolders := by
  constructor
  · intro h
    unfold of? at h
    dsimp only at h
    split at h
    · next folder outer front file hfolders hfile =>
      split at h
      · next hcond =>
        cases h
        simp only [Bool.and_eq_true, beq_iff_eq, Bool.not_eq_true', any_eq_false, contains_iff_mem] at hcond
        obtain ⟨⟨⟨houter, hlayout⟩, hending⟩, hkept⟩ := hcond
        obtain ⟨v, hv⟩ := Option.isSome_iff_exists.1 hlayout
        refine ⟨?_, ⟨front.reverse, ?_⟩, ⟨v, (Text.after?_eq_some.1 hv).symm⟩, isSuffixOf_iff_suffix.1 hending, hkept⟩
        · obtain ⟨folders, rfl⟩ := getLast?_eq_some_iff.1 hfile
          rw [dropLast_concat]
        · rw [← houter, ← reverse_inj, hfolders]
          simp
      · cases h
    · cases h
  · rintro ⟨rfl, ⟨outer, houter⟩, ⟨v, hlayout⟩, hending, hkept⟩
    have hstarts : Text.startsWith e.folder "layout" = true := by
      rw [Text.startsWith, Text.after?_eq_some.2 hlayout.symm]
      rfl
    simp only [of?, dropLast_concat, getLast?_concat, houter, reverse_append, reverse_cons, reverse_nil, nil_append,
      cons_append, hstarts, Text.endsWith, isSuffixOf_iff_suffix.2 hending, beq_self_eq_true, Bool.and_true,
      Bool.true_and]
    simpa using hkept

/-- What a path leads to is a file below the folder: the names on the way are those of the file. -/
theorem LayoutEntry.of?_eq_some (h : of? root names = some e) :
    e.path root = { root with parts := root.parts ++ names } ∧ names.getLast? = some (e.name ++ layoutEnding) := by
  obtain ⟨rfl, -, -, ⟨front, hfront⟩, -⟩ := of?_eq_some_iff.1 h
  refine ⟨by rw [LayoutEntry.path, append_assoc], ?_⟩
  rw [getLast?_concat, LayoutEntry.name, ← hfront, length_append, Nat.add_sub_cancel, take_left]

theorem mem_indexEntries {root name path} :
    ∀ {entries index}, (name, path) ∈ indexEntries root entries index →
    (name, path) ∈ index ∨ ∃ e ∈ entries, name = e.name ∧ path = e.path root
  | [], _, h => .inl h
  | e :: entries, index, h => by
    rcases @mem_indexEntries root name path entries _ h with h | ⟨e', he', h⟩
    · dsimp only at h
      split at h
      · exact .inl h
      · rcases Keyed.mem_insert h with h | h
        · exact .inr ⟨e, by simp, h⟩
        · exact .inl h
    · exact .inr ⟨e', by simp [he'], h⟩

theorem nodup_indexEntries (root : Path) : ∀ (entries : List LayoutEntry) {index},
    (index.map (·.1)).Nodup → ((indexEntries root entries index).map (·.1)).Nodup
  | [], _, h => h
  | e :: entries, index, h => by
    refine nodup_indexEntries root entries ?_
    dsimp only
    split
    · exact h
    · exact Keyed.nodup_insert h _ _

/-! ## Layouts -/

theorem Tree.find?_eq_some {p l} (h : t.find? p = .ok (some l)) : t.locate p = .ok l := by
  unfold find? at h
  cases hl : t.locate p with
  | ok l' =>
    rw [hl] at h
    simp only [found?, Except.ok.injEq] at h
    split at h
    · exact congrArg Except.ok (Option.some.inj h)
    · cases h
  | error e =>
    rw [hl] at h
    cases e <;> simp [found?] at h

/-- Every path of the index leads from the project to a file below it, and ends with the name of the layout. -/
theorem mem_layoutIndex (h : layoutIndex t root = .ok index) (hmem : (name, path) ∈ index) :
    ∃ l names, t.locate root = .ok l ∧ t.isFolder l = true ∧
      names ∈ t.below l ∧ path = { root with parts := root.parts ++ names } ∧
      names.getLast? = some (name ++ layoutEnding) := by
  obtain ⟨found, hfound, h⟩ := bind_eq_ok.1 h
  split at h
  · next l hl =>
    obtain ⟨hl, hfolder⟩ := Option.filter_eq_some_iff.1 hl
    subst hl
    rw [pure_eq_ok] at h
    subst h
    have hentry : ∃ e ∈ (t.below l).filterMap (LayoutEntry.of? root), name = e.name ∧ path = e.path root := by
      rcases mem_indexEntries hmem with hmem | ⟨e, he, heq⟩
      · rcases mem_indexEntries hmem with hmem | ⟨e, he, heq⟩
        · cases hmem
        · exact ⟨e, mem_mergeSort.1 (mem_filter.1 he).1, heq⟩
      · exact ⟨e, mem_mergeSort.1 (mem_filter.1 he).1, heq⟩
    obtain ⟨e, he, rfl, rfl⟩ := hentry
    obtain ⟨names, hnames, hof⟩ := mem_filterMap.1 he
    obtain ⟨hpath, hlast⟩ := LayoutEntry.of?_eq_some hof
    exact ⟨l, names, Tree.find?_eq_some hfound, hfolder, hnames, hpath, hlast⟩
  · rw [pure_eq_ok] at h
    subst h
    cases hmem

theorem nodup_layoutIndex (h : layoutIndex t root = .ok index) : (index.map (·.1)).Nodup := by
  obtain ⟨found, -, h⟩ := bind_eq_ok.1 h
  split at h
  · rw [pure_eq_ok] at h
    subst h
    exact nodup_indexEntries root _ (nodup_indexEntries root _ nodup_nil)
  · rw [pure_eq_ok] at h
    subst h
    exact nodup_nil

theorem name_of_layoutIndex (h : layoutIndex t root = .ok index) (hget : index.get? name = some path) :
    path.parts ≠ [] ∧ path.name = name ++ layoutEnding := by
  obtain ⟨l, names, -, -, -, rfl, hlast⟩ := mem_layoutIndex h (Keyed.mem_of_get? hget)
  have hparts : (root.parts ++ names).getLast? = some (name ++ layoutEnding) := by
    rw [getLast?_append, hlast]
    rfl
  refine ⟨fun hnil => ?_, ?_⟩
  · rw [show root.parts ++ names = [] from hnil] at hparts
    cases hparts
  · rw [Path.name, hparts, Option.getD_some]

end Rebind.Project
