/-
What the conversion of a file writes. A file is converted completely or, where no write fails, nothing is changed at all
(`convertFile_replaces_or_keeps`).
-/
import Rebind.Proofs.Conversion.Layouts
import Rebind.Proofs.Conversion.Outcome
import Rebind.Proofs.Project.Sources

namespace Rebind.Project

open List Option Except Conversion

variable {text name : Text} {options : Conversion.Options} {o : Conversion.Outcome} {t : Tree} {p : Path}

/-! ## What is to be written -/

def layoutWrite? (index : Keyed Text Path) (l : Layout.LayoutFile) : Option (Path × Bytes) :=
  (index.get? l.name).map (·, l.toBytes)

def addLayout (index : Keyed Text Path) (c : ChangeSet) (l : Layout.LayoutFile) : ChangeSet :=
  (layoutWrite? index l).elim c fun w => c.add w.1 w.2

theorem changesOf_eq_foldl (index : Keyed Text Path) (p : Path) (o : Conversion.Outcome) :
    changesOf index p o = o.layouts.foldl (addLayout index) [(p, Text.utf8 o.text)] := by
  unfold changesOf
  congr 1
  funext c l
  unfold addLayout layoutWrite?
  cases index.get? l.name with
  | none | some path => rfl

theorem foldl_addLayout {index} : ∀ {ls : List Layout.LayoutFile} {c : ChangeSet},
    ((c ++ ls.filterMap (layoutWrite? index)).map (·.1)).Nodup →
    ls.foldl (addLayout index) c = c ++ ls.filterMap (layoutWrite? index)
  | [], c, _ => by simp
  | l :: ls, c, hnodup => by
    cases hwrite : layoutWrite? index l with
    | none =>
      rw [filterMap_cons_none hwrite] at hnodup ⊢
      rw [foldl_cons, addLayout, hwrite]
      exact foldl_addLayout hnodup
    | some w =>
      rw [filterMap_cons_some hwrite] at hnodup ⊢
      have hnew : c.has w.1 = false := by
        rw [← Bool.not_eq_true, Keyed.has_iff]
        intro hmem
        rw [map_append, nodup_append] at hnodup
        exact hnodup.2.2 w.1 hmem w.1 (by simp) rfl
      have hadd : addLayout index c l = c ++ [w] := by
        rw [addLayout, hwrite]
        simp [ChangeSet.add, Keyed.insert, hnew]
      rw [foldl_cons, hadd, foldl_addLayout (by simpa using hnodup), append_assoc]
      rfl

/-! ## Where it is written -/

section Places

variable {t₀ t : Tree} {root p : Path} {index : Keyed Text Path} (hindex : layoutIndex t₀ root = .ok index)

include hindex

omit hindex in
theorem leadsToFile_of_read {bytes} (h : t.read p = .ok bytes) : t.LeadsToFile p := by
  obtain ⟨l, hl, hfile⟩ := bind_eq_ok.1 h
  refine ⟨l, hl, ?_⟩
  split at hfile
  · next b hget => simp [Tree.isFile, Keyed.has, hget]
  · cases hfile

omit hindex in
theorem leadsToFile_of_readSource (h : readSource t p = .ok text) : t.LeadsToFile p := by
  unfold readSource at h
  split at h
  · cases h
  · next bytes hread => exact leadsToFile_of_read hread

theorem leadsToFile_of_layoutFiles (h : (layoutFiles t index).has name = true) :
    ∃ path, index.get? name = some path ∧ t.LeadsToFile path := by
  obtain ⟨bytes, hbytes⟩ := isSome_iff_exists.1 h
  obtain ⟨⟨n, path⟩, hmem, hread⟩ := mem_filterMap.1 (Keyed.mem_of_get? hbytes)
  obtain ⟨b, hb, heq⟩ := map_eq_some_iff.1 hread
  cases heq
  exact ⟨path, Keyed.get?_of_mem (nodup_layoutIndex hindex) hmem, leadsToFile_of_read (toOption_eq_some.1 hb)⟩

theorem layout_named {path} (h : index.get? name = some path) : path.parts ≠ [] ∧ path.name ≠ ".." := by
  obtain ⟨hparts, hname⟩ := name_of_layoutIndex hindex h
  refine ⟨hparts, fun hdots => ?_⟩
  have hlen := congrArg List.length (hname.symm.trans hdots)
  simp [layoutEnding] at hlen

omit hindex in
theorem source_named (hsource : Text.endsWith p.name sourceEnding = true) : p.parts ≠ [] ∧ p.name ≠ ".." := by
  obtain ⟨front, hfront⟩ := isSuffixOf_iff_suffix.1 hsource
  refine ⟨fun hnil => ?_, fun hdots => ?_⟩
  · rw [Path.name, hnil] at hfront
    simp [sourceEnding] at hfront
  · have hlen := congrArg List.length (hfront.trans hdots)
    simp [sourceEnding] at hlen

theorem layoutWrite?_eq_some {f} {w : Path × Bytes} (h : layoutWrite? index f = some w) :
    index.get? f.name = some w.1 ∧ w.2 = f.toBytes ∧ w.1.name = f.name ++ layoutEnding := by
  obtain ⟨path, hpath, rfl⟩ := map_eq_some_iff.1 h
  exact ⟨hpath, rfl, (name_of_layoutIndex hindex hpath).2⟩

/-- The writes of a converted file go to the file itself and to the layouts that were added to, all of which are there,
and each to a place of its own. -/
theorem writes_of_convert (hsource : Text.endsWith p.name sourceEnding = true) (hread : readSource t p = .ok text)
    (hconvert : convert options (layoutFiles t index) text = .ok o) :
    changesOf index p o = (p, Text.utf8 o.text) :: o.layouts.filterMap (layoutWrite? index) ∧
      (∀ q bytes, (q, bytes) ∈ changesOf index p o → t.LeadsToFile q) ∧
      ((changesOf index p o).map (·.1)).Pairwise (fun q q' => ∀ l, t.locate q = .ok l → t.locate q' ≠ .ok l) := by
  obtain ⟨hfiles, hnames⟩ := named_of_convert hconvert
  obtain ⟨hparts, hdots⟩ := source_named hsource
  -- all the paths end with different names
  have hapart : ((p, Text.utf8 o.text) :: o.layouts.filterMap (layoutWrite? index)).Pairwise fun w w' =>
      w.1.name ≠ w'.1.name := by
    refine pairwise_cons.2 ⟨fun w hw hname => ?_, ?_⟩
    · obtain ⟨f, -, hf⟩ := mem_filterMap.1 hw
      obtain ⟨front, hfront⟩ := isSuffixOf_iff_suffix.1 hsource
      rw [(layoutWrite?_eq_some hindex hf).2.2] at hname
      have hlast := congrArg getLast? (hfront.trans hname)
      simp [sourceEnding, layoutEnding] at hlast
    · rw [pairwise_filterMap]
      refine (pairwise_map.1 hnames).imp fun hne w hw w' hw' hname => hne ?_
      rw [(layoutWrite?_eq_some hindex hw).2.2, (layoutWrite?_eq_some hindex hw').2.2] at hname
      exact append_cancel_right hname
  have heq : changesOf index p o = (p, Text.utf8 o.text) :: o.layouts.filterMap (layoutWrite? index) := by
    rw [changesOf_eq_foldl, foldl_addLayout]
    · rfl
    · exact pairwise_map.2 (hapart.imp fun hne h => hne (congrArg Path.name h))
  have hnamed : ∀ w ∈ changesOf index p o, w.1.parts ≠ [] ∧ w.1.name ≠ ".." := by
    intro w hw
    rw [heq] at hw
    rcases mem_cons.1 hw with rfl | hw
    · exact ⟨hparts, hdots⟩
    · obtain ⟨f, -, hf⟩ := mem_filterMap.1 hw
      exact layout_named hindex (layoutWrite?_eq_some hindex hf).1
  refine ⟨heq, fun q bytes hq => ?_, ?_⟩
  · rw [heq] at hq
    rcases mem_cons.1 hq with hq | hq
    · cases hq
      exact leadsToFile_of_readSource hread
    · obtain ⟨f, hmem, hf⟩ := mem_filterMap.1 hq
      obtain ⟨path, hpath, hleads⟩ := leadsToFile_of_layoutFiles hindex (hfiles f hmem)
      obtain rfl : path = q := some.inj (hpath.symm.trans (layoutWrite?_eq_some hindex hf).1)
      exact hleads
  · rw [pairwise_map]
    rw [← heq] at hapart
    refine hapart.imp_of_mem fun {w w'} hw hw' hne l hl => ?_
    exact Tree.locate_ne (hnamed w hw).1 (hnamed w hw).2 (hnamed w' hw').1 (hnamed w' hw').2 hne hl

end Places

/-! ## The conversion of a file -/

/-- The outcome is to be written: a class was converted, the text or a layout changed, and the run is no dry one. -/
def Commits (settings : Settings) (o : Conversion.Outcome) : Prop :=
  o.classes.any (·.converted) = true ∧ (o.changed = true ∨ o.layouts ≠ []) ∧ settings.dryRun = false

/-- Where the conversion of a file is to be written, no write fails. -/
def WritesSucceed (settings : Settings) (index : Keyed Text Path) (t : Tree) (p : Path) : Prop :=
  ∀ text o, readSource t p = .ok text → convert settings.options (layoutFiles t index) text = .ok o →
    Commits settings o → ∃ paths, ((changesOf index p o).commit t).1 = .ok paths

/-- The file and the layouts that were added to hold what the conversion gives them, and every other file holds what it
did; no file or folder comes or goes. -/
structure Replaced (index : Keyed Text Path) (t : Tree) (p : Path) (o : Conversion.Outcome) (t' : Tree) : Prop where
  sameFiles : t.SameFiles t'
  source : ∃ l, t.locate p = .ok l ∧ t'.files.get? l = some (Text.utf8 o.text)
  layouts : ∀ f ∈ o.layouts, ∃ path l, index.get? f.name = some path ∧ t.locate path = .ok l ∧
    t'.files.get? l = some f.toBytes
  others : ∀ l, t.locate p ≠ .ok l → (∀ f ∈ o.layouts, ∀ path, index.get? f.name = some path → t.locate path ≠ .ok l) →
    t'.files.get? l = t.files.get? l

theorem Commits.of_not {settings o} (hany : ¬(!o.classes.any (·.converted)) = true)
    (hchanged : ¬(!o.changed && o.layouts.isEmpty) = true) (hdry : settings.dryRun = false) : Commits settings o :=
  ⟨by simpa using hany, by simpa [Bool.eq_false_or_eq_true, or_iff_not_imp_left] using hchanged, hdry⟩

theorem convertFile_cases (settings : Settings) (index : Keyed Text Path) (t : Tree) (p : Path) :
    ((convertFile settings index t p).2 = t ∧
      ((convertFile settings index t p).1.status = .converted → settings.dryRun = true)) ∨
    ∃ text o, readSource t p = .ok text ∧ convert settings.options (layoutFiles t index) text = .ok o ∧
      Commits settings o ∧ (convertFile settings index t p).2 = (ChangeSet.writeAll t (changesOf index p o)).2 ∧
      ((convertFile settings index t p).1.status = .converted ∧
          (ChangeSet.writeAll t (changesOf index p o)).1 = .ok () ∨
        (convertFile settings index t p).1.status = .failed ∧
          ∃ why, (ChangeSet.writeAll t (changesOf index p o)).1 = .error why) := by
  unfold convertFile
  split
  · exact .inl ⟨rfl, by simp⟩
  · next text hread =>
    split
    · exact .inl ⟨rfl, by simp⟩
    · next o hconvert =>
      split
      · refine .inl ⟨rfl, fun h => ?_⟩
        split at h <;> cases h
      · next hany =>
        split
        · exact .inl ⟨rfl, by simp⟩
        · next hchanged =>
          unfold writeOutcome
          split
          · next hdry => exact .inl ⟨rfl, fun _ => hdry⟩
          · next hdry =>
            refine .inr ⟨text, o, hread, hconvert, .of_not hany hchanged (by simpa using hdry), ?_⟩
            unfold ChangeSet.commit
            rcases hwrite : ChangeSet.writeAll t (changesOf index p o) with ⟨why | done, t'⟩
            · exact ⟨rfl, .inr ⟨rfl, why, rfl⟩⟩
            · exact ⟨rfl, .inl ⟨rfl, rfl⟩⟩

theorem replaced_of_writeAll {t₀ root index}
    (hindex : layoutIndex t₀ root = .ok index)
    (hsource : Text.endsWith p.name sourceEnding = true) (hread : readSource t p = .ok text)
    (hconvert : convert options (layoutFiles t index) text = .ok o)
    (hok : (ChangeSet.writeAll t (changesOf index p o)).1 = .ok ()) :
    Replaced index t p o (ChangeSet.writeAll t (changesOf index p o)).2 := by
  obtain ⟨hchanges, hfiles, hapart⟩ := writes_of_convert hindex hsource hread hconvert
  obtain ⟨hsame, hwritten, hothers⟩ := ChangeSet.writeAll_spec (Prod.ext hok rfl) hfiles hapart
  refine ⟨hsame, ?_, fun f hf => ?_, fun l hp hlayouts => hothers l fun q bytes hq => ?_⟩
  · have hmem : (p, Text.utf8 o.text) ∈ changesOf index p o := by simp [hchanges]
    obtain ⟨l, hl, -⟩ := hfiles _ _ hmem
    exact ⟨l, hl, hwritten _ _ l hmem hl⟩
  · obtain ⟨path, hpath, l, hl, -⟩ := leadsToFile_of_layoutFiles hindex ((named_of_convert hconvert).1 f hf)
    have hmem : (path, f.toBytes) ∈ changesOf index p o := by
      rw [hchanges]
      exact mem_cons_of_mem _ (mem_filterMap.2 ⟨f, hf, by simp [layoutWrite?, hpath]⟩)
    exact ⟨path, l, hpath, hl, hwritten _ _ l hmem hl⟩
  · rw [hchanges] at hq
    rcases mem_cons.1 hq with hq | hq
    · cases hq
      exact hp
    · obtain ⟨f, hf, hwrite⟩ := mem_filterMap.1 hq
      exact hlayouts f hf q (layoutWrite?_eq_some hindex hwrite).1

/-- A file is converted and written with its layouts, or nothing is changed. -/
theorem convertFile_replaces_or_keeps {settings : Settings} {t₀ t : Tree} {root p : Path} {index : Keyed Text Path}
    (hindex : layoutIndex t₀ root = .ok index) (hsource : Text.endsWith p.name sourceEnding = true)
    (hwrites : WritesSucceed settings index t p) :
    ((convertFile settings index t p).1.status = .converted ∧ settings.dryRun = false ∧
      ∃ text o, readSource t p = .ok text ∧ convert settings.options (layoutFiles t index) text = .ok o ∧
        Replaced index t p o (convertFile settings index t p).2) ∨
    (¬((convertFile settings index t p).1.status = .converted ∧ settings.dryRun = false) ∧
      (convertFile settings index t p).2 = t) := by
  rcases convertFile_cases settings index t p with ⟨htree, hdry⟩ | ⟨text, o, hread, hconvert, hcommits, htree, hstatus⟩
  · refine .inr ⟨fun h => ?_, htree⟩
    rw [hdry h.1] at h
    cases h.2
  · obtain ⟨paths, hcommit⟩ := hwrites text o hread hconvert hcommits
    have hok : (ChangeSet.writeAll t (changesOf index p o)).1 = .ok () := by
      unfold ChangeSet.commit at hcommit
      split at hcommit
      · next h => rw [h]
      · cases hcommit
    have hconverted := (hstatus.resolve_right fun h => by rw [hok] at h; obtain ⟨-, why, h⟩ := h; cases h).1
    refine .inl ⟨hconverted, hcommits.2.2, text, o, hread, hconvert, ?_⟩
    rw [htree]
    exact replaced_of_writeAll hindex hsource hread hconvert hok

theorem writesSucceed_of_converted {settings : Settings} {index : Keyed Text Path}
    (h : (convertFile settings index t p).1.status = .converted) (hdry : settings.dryRun = false) :
    WritesSucceed settings index t p := by
  intro text o hread hconvert _
  rcases convertFile_cases settings index t p with ⟨-, hnever⟩ | ⟨text', o', hread', hconvert', -, -, hstatus⟩
  · rw [hnever h] at hdry
    cases hdry
  · obtain rfl := ok.inj (hread.symm.trans hread')
    obtain rfl := ok.inj (hconvert.symm.trans hconvert')
    rcases hstatus with ⟨-, hok⟩ | ⟨hfailed, -⟩
    · unfold ChangeSet.commit
      split
      · exact ⟨_, rfl⟩
      · next herror =>
        rw [herror] at hok
        cases hok
    · rw [h] at hfailed
      cases hfailed

theorem readSource_of_read (htext : Text.ofUtf8 (Text.utf8 text) = .ok text)
    (h : t.read p = .ok (Text.utf8 text)) : readSource t p = .ok text := by
  rw [readSource, h]
  simp only [htext]
  rfl

theorem ofUtf8_boundTitle : Text.ofUtf8 (Text.utf8 boundTitle) = .ok boundTitle :=
  toOption_eq_some.1 (by decide +kernel)

def outerPath : Path := ⟨[], ["res", "layout", "m.xml"]⟩

def sharedIndex : Keyed Text Path := [("m", outerPath)]

def boundSource : Path := ⟨[], ["A.java"]⟩

/-- A layout with one view, which has an attribute or none. -/
def oneView (id : Text) : Bytes :=
  Text.utf8 ("<V xmlns:android=\"http://schemas.android.com/apk/res/android\"" ++ id ++ "/>")

def boundId : Text := " android:id=\"@+id/t\""

/-- What the conversion of the class reports, given what is said about its id. -/
def titleReport (id : Text) : List Text := ["A: layout m (MBinding)", "A: t: " ++ id]

/-- A project of a class and its layout. -/
def boundProject (source id : Text) : Tree :=
  { files := [(["A.java"], Text.utf8 source), (outerPath.parts, oneView id)] }

theorem layoutIndex_boundProject (source id : Text) :
    layoutIndex (boundProject source id) hereFolder = .ok sharedIndex := by
  have hentries : ((boundProject source id).below []).filterMap (LayoutEntry.of? hereFolder) =
      [⟨["res", "layout"], "layout", "m.xml"⟩] := by rfl
  exact (layoutsFor_hereFolder rfl hentries (by simp)).trans rfl

/-- The class is converted, and its layout gets the id that it lacks. -/
theorem convertFile_replaces_or_keeps_boundProject :
    (convertFile {} sharedIndex (boundProject boundTitle []) boundSource).1.status = .converted ∧
      ∃ o, convert toBinding [("m", oneView [])] boundTitle = .ok o ∧
        Replaced sharedIndex (boundProject boundTitle []) boundSource o
          (boundProject convertedTitle boundId) := by
  have hread : readSource (boundProject boundTitle []) boundSource = .ok boundTitle :=
    readSource_of_read ofUtf8_boundTitle rfl
  have hrun : convertFile {} sharedIndex (boundProject boundTitle []) boundSource =
      (⟨boundSource, .converted, [], titleReport "ID created on V in m"⟩, boundProject convertedTitle boundId) := by
    rw [convertFile]
    simp only [convert_eq_evaluated]
    decide +kernel
  have hconverted := congrArg (·.1.status) hrun
  refine ⟨hconverted, ?_⟩
  rcases convertFile_replaces_or_keeps (layoutIndex_boundProject boundTitle []) (by decide)
    (writesSucceed_of_converted hconverted rfl) with ⟨-, -, text, o, htext, hconvert, hreplaced⟩ | ⟨hnot, -⟩
  · obtain rfl := ok.inj (hread.symm.trans htext)
    rw [hrun] at hreplaced
    exact ⟨o, hconvert, hreplaced⟩
  · exact absurd ⟨hconverted, rfl⟩ hnot

end Rebind.Project
