/-
Which file of a project counts as a layout.

The index has a name exactly if a folder for layouts holds a file of that name, and of several such files it has the one
in a plain folder, then the one that a walk through the folders comes to first (`layoutIndex_complete`).
-/
import Rebind.Proofs.Project.Sources

namespace Rebind.Project

open List Option

variable {q : LayoutEntry → Bool} {entries : List LayoutEntry} {name : Text} {e : LayoutEntry}

/-! ## The order of a walk -/

/-- A walk that goes through the folders from the outside in, and by name within each, comes to `a` no later than to
`b`. -/
def WalkedBefore (a b : List Text) : Prop :=
  a <+: b ∨ ∃ front x y a' b', a = front ++ x :: a' ∧ b = front ++ y :: b' ∧ x ≠ y ∧ Text.le x y = true

theorem walkedBefore_of_namesLe : ∀ {a b}, namesLe a b = true → WalkedBefore a b
  | [], _, _ => .inl nil_prefix
  | _ :: _, [], h => by cases h
  | x :: a, y :: b, h => by
    rw [namesLe] at h
    split at h
    · next heq =>
      obtain rfl := eq_of_beq heq
      rcases walkedBefore_of_namesLe h with hp | ⟨front, u, v, a', b', rfl, rfl, hne, hle⟩
      · exact .inl ((prefix_cons_inj x).2 hp)
      · exact .inr ⟨x :: front, u, v, a', b', rfl, rfl, hne, hle⟩
    · next hne => exact .inr ⟨[], x, y, a, b, rfl, rfl, by simpa using hne, h⟩

namespace LayoutEntry

theorem le_trans (a b c : LayoutEntry) (hab : a.le b = true) (hbc : b.le c = true) : a.le c = true := by
  have hnames := Text.orders_le.orders_lexLe
  simp only [le, namesLe_eq_lexLe] at *
  grind [hnames.trans, hnames.antisymm, Text.orders_le.trans]

theorem le_total (a b : LayoutEntry) : (a.le b || b.le a) = true := by
  simp only [le, namesLe_eq_lexLe]
  grind [Text.orders_le.lexLe_total, Text.orders_le.total, Text.le_refl]

end LayoutEntry

/-- The first entry of a name and a kind in the order of a walk. -/
def firstOf (q : LayoutEntry → Bool) (name : Text) (entries : List LayoutEntry) : Option LayoutEntry :=
  ((entries.mergeSort LayoutEntry.le).filter q).find? (·.name == name)

/-- The files are sorted once, so the first with a name in a sorted list is before all others with it. -/
theorem firstOf_eq_some (h : firstOf q name entries = some e) :
    e ∈ entries ∧ q e = true ∧ e.name = name ∧ ∀ e' ∈ entries, q e' = true → e'.name = name → e' = e ∨
      e.le e' = true := by
  have hsorted := (pairwise_mergeSort LayoutEntry.le_trans LayoutEntry.le_total entries).filter q
  obtain ⟨hname, before, after, heq, hbefore⟩ := find?_eq_some_iff_append.1 h
  have hmem : ∀ e', e' ∈ before ++ e :: after ↔ e' ∈ entries ∧ q e' = true := fun e' => by
    rw [← heq, mem_filter, mem_mergeSort]
  have he := (hmem e).1 (by simp)
  refine ⟨he.1, he.2, by simpa using hname, fun e' he' hq hname' => ?_⟩
  rw [heq, pairwise_append, pairwise_cons] at hsorted
  rcases mem_append.1 ((hmem e').2 ⟨he', hq⟩) with hb | hb
  · exact absurd hname' (by simpa using hbefore e' hb)
  · rcases mem_cons.1 hb with rfl | hb
    · exact .inl rfl
    · exact .inr (hsorted.2.1.1 e' hb)

theorem firstOf_eq_none (h : firstOf q name entries = none) (he : e ∈ entries) (hq : q e = true) : e.name ≠ name := by
  simpa using find?_eq_none.1 h e (mem_filter.2 ⟨mem_mergeSort.2 he, hq⟩)

theorem get?_indexEntries (root : Path) (name : Text) : ∀ (entries : List LayoutEntry) (index : Keyed Text Path),
    (indexEntries root entries index).get? name =
      (index.get? name).or ((entries.find? (·.name == name)).map (·.path root))
  | [], index => by simp [indexEntries]
  | e :: entries, index => by
    rw [indexEntries, foldl_cons, ← indexEntries, get?_indexEntries root name entries, find?_cons]
    by_cases hname : e.name = name
    · subst hname
      cases hget : index.get? e.name with
      | some path => simp [Keyed.has, hget]
      | none => simp [Keyed.has, hget, Keyed.get?_insert]
    · have hsame : (if index.has e.name then index else index.insert e.name (e.path root)).get? name =
          index.get? name := by
        split
        · rfl
        · rw [Keyed.get?_insert, if_neg (Ne.symm hname)]
      rw [hsame, beq_eq_false_iff_ne.2 hname]

/-! ## Layouts -/

/-- The folders lead from the project to a folder for layouts that holds a file of the name. How the project's own
folder and the one around it are called shows in its path. -/
structure IsLayout (t : Tree) (root : Path) (l : Location) (folders : List Text) (name : Text) : Prop where
  isFile : t.isFile (l ++ (folders ++ [name ++ layoutEnding])) = true
  inLayouts : ∃ outer folder, root.parts ++ folders = outer ++ ["res".toList, folder] ∧ "layout".toList <+: folder
  kept : ∀ f ∈ folders, f ∉ skippedFolders

def InPlain (root : Path) (folders : List Text) : Prop := (root.parts ++ folders).getLast? = some "layout".toList

variable {t : Tree} {root : Path} {l : Location} {folders : List Text}

def entriesIn (t : Tree) (root : Path) (l : Location) : List LayoutEntry := (t.below l).filterMap (LayoutEntry.of? root)

theorem mem_entriesIn_iff : e ∈ entriesIn t root l ↔
    IsLayout t root l e.folders e.name ∧ e.file = e.name ++ layoutEnding ∧
      (root.parts ++ e.folders).getLast? = some e.folder := by
  simp only [entriesIn, mem_filterMap, Tree.mem_below, LayoutEntry.of?_eq_some_iff]
  constructor
  · rintro ⟨_, ⟨-, hfile⟩, rfl, ⟨outer, houter⟩, hlayout, ⟨name, hname⟩, hkept⟩
    have hfull : e.file = e.name ++ layoutEnding := by
      rw [LayoutEntry.name, ← hname, length_append, Nat.add_sub_cancel, take_left]
    rw [hfull] at hfile
    exact ⟨⟨hfile, ⟨outer, e.folder, houter, hlayout⟩, hkept⟩, hfull, by simp [houter]⟩
  · rintro ⟨⟨hfile, ⟨outer, folder, houter, hlayout⟩, hkept⟩, hfull, hlast⟩
    obtain rfl : folder = e.folder := by simpa [houter] using hlast
    exact ⟨_, ⟨by simp, hfull ▸ hfile⟩, rfl, ⟨outer, houter⟩, hlayout, ⟨e.name, hfull.symm⟩, hkept⟩

theorem IsLayout.exists_entry (h : IsLayout t root l folders name) :
    ∃ e ∈ entriesIn t root l, e.folders = folders ∧ e.name = name := by
  obtain ⟨outer, folder, houter, -⟩ := h.inLayouts
  have hname : LayoutEntry.name ⟨folders, folder, name ++ layoutEnding⟩ = name := by simp [LayoutEntry.name]
  refine ⟨⟨folders, folder, name ++ layoutEnding⟩, mem_entriesIn_iff.2 ?_, rfl, hname⟩
  rw [hname]
  exact ⟨h, rfl, by simp [houter]⟩

theorem isPlain_iff (h : e ∈ entriesIn t root l) :
    e.isPlain = true ↔ InPlain root e.folders := by
  rw [InPlain, (mem_entriesIn_iff.1 h).2.2, LayoutEntry.isPlain, beq_iff_eq, some.injEq]

/-- The files of one kind of folder under a name, the first of them found. -/
theorem first_of_kind (h : firstOf q name (entriesIn t root l) = some e) : e ∈ entriesIn t root l ∧
    IsLayout t root l e.folders name ∧ q e = true ∧
      e.path root = { root with parts := root.parts ++ e.folders ++ [name ++ layoutEnding] } ∧
      ∀ e' ∈ entriesIn t root l, q e' = true → e'.name = name →
        WalkedBefore e.folders e'.folders := by
  obtain ⟨hmem, hq, rfl, hfirst⟩ := firstOf_eq_some h
  obtain ⟨hlayout, hfull, -⟩ := mem_entriesIn_iff.1 hmem
  refine ⟨hmem, hlayout, hq, by rw [LayoutEntry.path, hfull], fun e' he' hq' hname => ?_⟩
  rcases hfirst e' he' hq' hname with rfl | hle
  · exact .inl prefix_rfl
  · rw [LayoutEntry.le] at hle
    split at hle
    · next heq => exact .inl (heq ▸ prefix_rfl)
    · exact walkedBefore_of_namesLe hle

/-- Every layout of a project is in its index, and nothing else. Its path leads to a plain folder if any of that name
lies in one, and of the files of its kind to the one that a walk comes to first. -/
theorem layoutIndex_complete (hroot : t.locate root = .ok l) (hfolder : t.isFolder l = true) :
    ∃ index, layoutIndex t root = .ok index ∧ ∀ name,
      (index.has name = true ↔ ∃ folders, IsLayout t root l folders name) ∧
      ∀ path, index.get? name = some path → ∃ folders, IsLayout t root l folders name ∧
        path = { root with parts := root.parts ++ folders ++ [name ++ layoutEnding] } ∧
        ∀ others, IsLayout t root l others name → (InPlain root others → InPlain root folders) ∧
          ((InPlain root folders ↔ InPlain root others) → WalkedBefore folders others) := by
  refine ⟨_, layoutIndex_eq hroot hfolder (rfl : _ = entriesIn t root l), fun name => ?_⟩
  have hget (q index) : (indexEntries root (((entriesIn t root l).mergeSort LayoutEntry.le).filter q) index).get? name =
      (index.get? name).or ((firstOf q name (entriesIn t root l)).map (·.path root)) :=
        get?_indexEntries root name _ index
  simp only [Keyed.has, hget, show Keyed.get? ([] : Keyed Text Path) name = none from rfl, none_or]
  -- the first plain file of the name counts, and else the first of the others
  cases hplain : firstOf LayoutEntry.isPlain name (entriesIn t root l) with
  | some e =>
    obtain ⟨hmem, hlayout, hkind, hpath, hfirst⟩ := first_of_kind hplain
    have hin := (isPlain_iff hmem).1 hkind
    refine ⟨⟨fun _ => ⟨_, hlayout⟩, fun _ => rfl⟩, fun path hp => ⟨_, hlayout, (some.inj hp) ▸ hpath, ?_⟩⟩
    intro others hothers
    obtain ⟨e', he', rfl, hname⟩ := hothers.exists_entry
    exact ⟨fun _ => hin, fun hiff => hfirst e' he' ((isPlain_iff he').2 (hiff.1 hin)) hname⟩
  | none =>
    cases hother : firstOf (fun e => !e.isPlain) name (entriesIn t root l) with
    | some e =>
      obtain ⟨hmem, hlayout, hkind, hpath, hfirst⟩ := first_of_kind hother
      refine ⟨⟨fun _ => ⟨_, hlayout⟩, fun _ => rfl⟩, fun path hp => ⟨_, hlayout, (some.inj hp) ▸ hpath, ?_⟩⟩
      intro others hothers
      obtain ⟨e', he', rfl, hname⟩ := hothers.exists_entry
      have hnot : ¬ InPlain root e'.folders := fun h => firstOf_eq_none hplain he' ((isPlain_iff he').2 h) hname
      exact ⟨fun h => absurd h hnot, fun _ => hfirst e' he' (by simpa using mt (isPlain_iff he').1 hnot) hname⟩
    | none =>
      refine ⟨⟨fun h => (by cases h), ?_⟩, fun _ h => (by cases h)⟩
      rintro ⟨folders, hlayout⟩
      obtain ⟨e', he', rfl, hname⟩ := hlayout.exists_entry
      by_cases hkind : e'.isPlain = true
      · exact absurd hname (firstOf_eq_none hplain he' hkind)
      · exact absurd hname (firstOf_eq_none hother he' (by simpa using hkind))

/-- A layout for wide screens, in a folder that comes first, and a plain one. -/
def wideAndPlain : Tree :=
  { files := [(["app".toList, "res".toList, "layout-land".toList, "main.xml".toList], []),
      (["lib".toList, "res".toList, "layout".toList, "main.xml".toList], [])] }

theorem layoutIndex_wideAndPlain : ∃ index path folders, layoutIndex wideAndPlain ⟨[], []⟩ = .ok index ∧
    index.get? "main".toList = some path ∧ path.parts = folders ++ ["main.xml".toList] ∧ InPlain ⟨[], []⟩ folders := by
  obtain ⟨index, hindex, h⟩ := @layoutIndex_complete wideAndPlain ⟨[], []⟩ [] rfl rfl
  obtain ⟨hhas, hget⟩ := h "main"
  have hplain : IsLayout wideAndPlain ⟨[], []⟩ [] ["lib".toList, "res".toList, "layout".toList] "main" :=
    ⟨by decide, ⟨["lib".toList], "layout", rfl, prefix_rfl⟩, by decide⟩
  obtain ⟨path, hpath⟩ := isSome_iff_exists.1 (hhas.2 ⟨_, hplain⟩)
  obtain ⟨folders, -, rfl, hother⟩ := hget path hpath
  exact ⟨index, _, folders, hindex, hpath, rfl, (hother _ hplain).1 rfl⟩

end Rebind.Project
