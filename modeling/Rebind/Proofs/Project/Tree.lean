/-
Trees of files under writes.

Writing a file that is there changes what it holds and nothing else (`SameFiles`), so after such writes every path leads
where it led before (`SameFiles.follow`). `writeAll_spec` says what a tree holds after a list of them.
-/
import Rebind.Project.ChangeSet
import Rebind.Proofs.Except
import Rebind.Proofs.Keyed

namespace Rebind.Project

open List

namespace Tree

variable {t : Tree} {l : Location} {p : Path}

/-! ## Where paths lead -/

theorem follow_append (t : Tree) : ∀ (l : Location) (parts rest : List Text),
    t.follow l (parts ++ rest) = t.follow l parts >>= fun l => t.follow l rest
  | l, [], rest => rfl
  | l, part :: parts, rest => by
    simp only [cons_append, follow]
    split
    · split
      · exact follow_append t _ parts rest
      · split
        · rfl
        · exact follow_append t _ parts rest
    · split
      · rfl
      · rfl

theorem follow_concat {l' parts} {name : Text} (hname : name ≠ "..")
    (h : t.follow l (parts ++ [name]) = .ok l') : ∃ folder, t.follow l parts = .ok folder ∧ t.isFolder folder = true ∧
      byteCount name ≤ maxName ∧ l' = folder ++ [name] := by
  rw [follow_append] at h
  obtain ⟨folder, hfolder, h⟩ := bind_eq_ok.1 h
  refine ⟨folder, hfolder, ?_⟩
  have hdots : (name == "..") = false := by simpa using hname
  simp only [follow, hdots, Bool.false_eq_true, if_false] at h
  split at h
  · next his =>
    split at h
    · cases h
    · next hlong =>
      cases h
      exact ⟨his, by omega, rfl⟩
  · split at h
    · cases h
    · cases h

theorem locate_concat (hparts : p.parts ≠ []) (hname : p.name ≠ "..")
    (h : t.locate p = .ok l) : ∃ folder, t.follow (t.start p) p.parts.dropLast = .ok folder ∧
      t.isFolder folder = true ∧ byteCount p.name ≤ maxName ∧ l = folder ++ [p.name] := by
  have hsplit : p.parts = p.parts.dropLast ++ [p.name] := by
    rw [Path.name, getLast?_eq_some_getLast hparts, Option.getD_some, dropLast_concat_getLast]
  unfold locate at h
  split at h
  · cases h
  · split at h
    · cases h
    · rw [hsplit] at h
      exact follow_concat hname h

theorem locate_ne {q : Path} (hp : p.parts ≠ []) (hp' : p.name ≠ "..")
    (hq : q.parts ≠ []) (hq' : q.name ≠ "..") (hne : p.name ≠ q.name) (hl : t.locate p = .ok l) :
    t.locate q ≠ .ok l := by
  intro hl'
  obtain ⟨_, -, -, -, rfl⟩ := locate_concat hp hp' hl
  obtain ⟨_, -, -, -, heq⟩ := locate_concat hq hq' hl'
  exact hne (singleton_inj.1 (append_inj' heq rfl).2)

/-! ## Trees with the same files -/

/-- The trees have the same files and folders; the files may hold different things. -/
structure SameFiles (t t' : Tree) : Prop where
  here : t'.here = t.here
  folders : t'.folders = t.folders
  locations : t'.files.map (·.1) = t.files.map (·.1)

namespace SameFiles

variable {t t' t'' : Tree}

theorem refl (t : Tree) : SameFiles t t := ⟨rfl, rfl, rfl⟩

theorem trans (h : SameFiles t t') (h' : SameFiles t' t'') : SameFiles t t'' :=
  ⟨h'.here.trans h.here, h'.folders.trans h.folders, h'.locations.trans h.locations⟩

theorem isFile (h : SameFiles t t') (l : Location) : t'.isFile l = t.isFile l := by
  rw [Bool.eq_iff_iff, Tree.isFile, Tree.isFile, Keyed.has_iff, Keyed.has_iff, h.locations]

theorem isFolder (h : SameFiles t t') (l : Location) : t'.isFolder l = t.isFolder l := by
  have hfiles : (t'.files.any fun f => l.isPrefixOf f.1) = t.files.any fun f => l.isPrefixOf f.1 := by
    have hany : ∀ m : Keyed Location Bytes, (m.any fun f => l.isPrefixOf f.1) = (m.map (·.1)).any l.isPrefixOf :=
      fun m => by rw [any_map]; rfl
    rw [hany, hany, h.locations]
  rw [Tree.isFolder, Tree.isFolder, h.isFile, h.folders, hfiles]

theorem follow (h : SameFiles t t') : ∀ (l : Location) (parts : List Text), t'.follow l parts = t.follow l parts
  | _, [] => rfl
  | l, part :: parts => by
    simp only [Tree.follow, h.isFolder, h.isFile, h.follow _ parts]

theorem locate (h : SameFiles t t') (p : Path) : t'.locate p = t.locate p := by
  unfold Tree.locate Tree.start
  rw [h.here, h.follow]

theorem resolve (h : SameFiles t t') (p : Path) : t'.resolve p = t.resolve p := by
  unfold Tree.resolve Tree.start
  rw [h.here]

end SameFiles

theorem sameFiles_putFile (h : t.isFile l = true) (bytes : Bytes) : SameFiles t (t.putFile l bytes) :=
  ⟨rfl, rfl, by rw [putFile, Keyed.keys_insert]; exact if_pos h⟩

/-! ## Writes -/

theorem write_eq (t : Tree) (p : Path) (bytes : Bytes) : t.write p bytes = if p.text.contains '\x00' then .error .nul
    else t.follow [] (t.resolve p.parent) >>= fun folder =>
      if !t.isFolder folder then .error (if t.isFile folder then .notAFolder else .notFound)
      else if maxName < byteCount p.name + extraName then .error .tooLong
      else t.locate p >>= fun l =>
        if endsInDots p then .error .busy
        else if t.isFolder l then .error .isAFolder
        else .ok (t.putFile l bytes) := rfl

theorem write_eq_ok {t' bytes} (h : t.write p bytes = .ok t') :
    ∃ l, t.locate p = .ok l ∧ t' = t.putFile l bytes := by
  rw [write_eq] at h
  split at h
  · cases h
  · obtain ⟨folder, -, h⟩ := bind_eq_ok.1 h
    split at h
    · cases h
    · split at h
      · cases h
      · obtain ⟨l, hl, h⟩ := bind_eq_ok.1 h
        split at h
        · cases h
        · split at h
          · cases h
          · cases h
            exact ⟨l, hl, rfl⟩

end Tree

/-- What a tree holds after writes to files that are there, each to a place of its own. -/
structure Overwritten (t : Tree) (c : ChangeSet) (t' : Tree) : Prop where
  sameFiles : t.SameFiles t'
  written : ∀ p bytes l, (p, bytes) ∈ c → t.locate p = .ok l → t'.files.get? l = some bytes
  others : ∀ l, (∀ p bytes, (p, bytes) ∈ c → t.locate p ≠ .ok l) → t'.files.get? l = t.files.get? l

def Tree.LeadsToFile (t : Tree) (p : Path) : Prop := ∃ l, t.locate p = .ok l ∧ t.isFile l = true

theorem Tree.LeadsToFile.of_sameFiles {t t' : Tree} {p} (h : t.LeadsToFile p) (hsame : t.SameFiles t') :
    t'.LeadsToFile p := by
  obtain ⟨l, hl, hfile⟩ := h
  exact ⟨l, by rw [hsame.locate, hl], by rw [hsame.isFile, hfile]⟩

theorem ChangeSet.writeAll_spec : ∀ {c : ChangeSet} {t t'}, writeAll t c = (.ok (), t') →
    (∀ p bytes, (p, bytes) ∈ c → t.LeadsToFile p) →
    (c.map (·.1)).Pairwise (fun p q => ∀ l, t.locate p = .ok l → t.locate q ≠ .ok l) → Overwritten t c t'
  | [], t, t', h, _, _ => by
    obtain rfl : t = t' := (Prod.mk.inj h).2
    exact ⟨.refl t, by simp, fun _ _ => rfl⟩
  | (p, bytes) :: c, t, t', h, hfiles, hapart => by
    simp only [writeAll] at h
    split at h
    · next t₁ hwrite =>
      obtain ⟨l, hl, rfl⟩ := Tree.write_eq_ok hwrite
      obtain ⟨l', hl', hfile⟩ := hfiles p bytes (by simp)
      obtain rfl : l = l' := Except.ok.inj (hl.symm.trans hl')
      have hsame := Tree.sameFiles_putFile hfile bytes
      rw [map_cons, pairwise_cons] at hapart
      have ih := writeAll_spec h
        (fun q b hq => (hfiles q b (by simp [hq])).of_sameFiles hsame)
        (hapart.2.imp fun hpq k hk => by
          rw [hsame.locate] at hk ⊢
          exact hpq k hk)
      refine ⟨hsame.trans ih.sameFiles, ?_, ?_⟩
      · intro q b k hq hk
        rcases mem_cons.1 hq with heq | hq
        · cases heq
          obtain rfl : l = k := Except.ok.inj (hl.symm.trans hk)
          -- nothing else is written to this place
          rw [ih.others l fun q' b' hq' => ?_, Tree.putFile, Keyed.get?_insert, if_pos rfl]
          rw [hsame.locate]
          exact hapart.1 q' (mem_map_of_mem hq') l hl
        · exact ih.written q b k hq (by rw [hsame.locate, hk])
      · intro k hk
        rw [ih.others k fun q b hq => by rw [hsame.locate]; exact hk q b (by simp [hq]), Tree.putFile,
          Keyed.get?_insert, if_neg]
        rintro rfl
        exact hk p bytes (by simp) hl
    · simp at h

end Rebind.Project
