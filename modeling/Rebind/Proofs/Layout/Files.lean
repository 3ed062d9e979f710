/-
What asking for layouts and repairing them keeps.
 A condition that reading a layout and changing one keeps (`Session.Stable`) is kept by every repair (`Repair.Keeps`):
that the files of the project stay what they are, and that every layout which was read has the name of a file. What only
reading keeps (`Session.ReadStable`) is kept as long as nothing is repaired: that every layout is what its file holds.
-/
import Rebind.Proofs.Keyed
import Rebind.Proofs.Layout.Addition

namespace Rebind.Layout

open Binding Option List

variable {s : Session} {name : Text} {f : LayoutFile → Except ChangeError LayoutFile}

/-! ## Conditions on sessions -/

def KeepsName (f : LayoutFile → Except ChangeError LayoutFile) : Prop := ∀ a b, f a = .ok b → b.name = a.name

/-- The condition on sessions holds on when layouts are read. -/
structure Session.ReadStable (I : Session → Prop) : Prop where
  load : ∀ {s : Session} (name : Text), I s → I (s.load name)

/-- The condition on sessions holds on when layouts are read or changed. -/
structure Session.Stable (I : Session → Prop) : Prop extends ReadStable I where
  change : ∀ {s s' : Session} {name : Text} {f : LayoutFile → Except ChangeError LayoutFile}, KeepsName f →
    s.change name f = .ok s' → I s → I s'

namespace Session

theorem change_spec {s'} (h : s.change name f = .ok s') : ∃ a b, s.layout? name = some a ∧ f a = .ok b ∧
      s' = { s with read := s.read.insert name (some b) } := by
  unfold change at h
  split at h
  · cases h
  · next a ha =>
    cases hf : f a with
    | error e =>
      rw [hf] at h
      cases h
    | ok b =>
      rw [hf] at h
      cases h
      exact ⟨a, b, ha, hf, rfl⟩

namespace ReadStable

variable {I : Session → Prop} (hI : ReadStable I)

include hI

theorem loadAll (names : List Text) (h : I s) : I (s.loadAll names) := by
  induction names generalizing s with
  | nil => exact h
  | cons name names ih => exact ih (hI.load name h)

theorem find (stop : Visit → Bool) (name : Text) (h : I s) : I (s.find stop name).2 := hI.loadAll _ h

end ReadStable

theorem Stable.files (files : Keyed Text Bytes) : Stable (·.files = files) where
  load name h := by
    unfold Session.load
    split <;> exact h
  change _ hs h := by
    obtain ⟨a, b, -, -, rfl⟩ := change_spec hs
    exact h

/-- The layouts that were read are those of files, each once and under its name. -/
structure Named (files : Keyed Text Bytes) (s : Session) : Prop where
  files_eq : s.files = files
  named : ∀ name layout, (name, some layout) ∈ s.read → layout.name = name ∧ files.has name = true
  nodup : (s.read.map (·.1)).Nodup

theorem Named.layout? {files} (h : s.Named files) {a}
    (ha : s.layout? name = some a) : a.name = name ∧ files.has name = true := by
  unfold Session.layout? at ha
  split at ha
  · cases ha
  · split at ha
    · next layout hread =>
      subst ha
      exact h.named name a (Keyed.mem_of_get? hread)
    · obtain ⟨bytes, hbytes, hof⟩ := bind_eq_some_iff.1 ha
      unfold file? at hbytes
      split at hbytes
      · cases hbytes
      · obtain ⟨document, -, rfl⟩ := map_eq_some_iff.1 hof
        exact ⟨rfl, by rw [← h.files_eq, Keyed.has, hbytes]; rfl⟩

theorem Stable.named (files : Keyed Text Bytes) : Stable (Named files) where
  load {s} name h := by
    unfold Session.load
    split
    · exact h
    · next hnew =>
      refine ⟨h.files_eq, fun n layout hmem => ?_, ?_⟩
      · rcases mem_append.1 hmem with hmem | hmem
        · exact h.named n layout hmem
        · obtain ⟨rfl, heq⟩ : n = name ∧ some layout = s.layout? name := by simpa using hmem
          exact h.layout? heq.symm
      · have hfresh : name ∉ s.read.map (·.1) := fun hmem => by simp [Keyed.has_iff.2 hmem] at hnew
        rw [map_append, nodup_append]
        refine ⟨h.nodup, by simp, ?_⟩
        rintro a ha b hb rfl
        obtain rfl : a = name := by simpa using hb
        exact hfresh ha
  change {s s' name f} hname hs h := by
    obtain ⟨a, b, ha, hb, rfl⟩ := change_spec hs
    refine ⟨h.files_eq, fun n layout hmem => ?_, ?_⟩
    · rcases Keyed.mem_insert hmem with ⟨rfl, heq⟩ | hmem
      · obtain rfl : layout = b := by simpa using heq
        obtain ⟨h1, h2⟩ := h.layout? ha
        exact ⟨(hname a layout hb).trans h1, h2⟩
      · exact h.named n layout hmem
    · exact Keyed.nodup_insert h.nodup _ _

/-- The layouts that were read are what their files hold. -/
structure Pristine (files : Keyed Text Bytes) (s : Session) : Prop where
  files_eq : s.files = files
  read : ∀ name layout, (name, layout) ∈ s.read → layout = ({ files } : Session).layout? name

theorem Pristine.layout? {files} (h : s.Pristine files) (name : Text) :
    s.layout? name = ({ files } : Session).layout? name := by
  cases hread : s.read.get? name with
  | none =>
    unfold Session.layout? file?
    rw [hread, h.files_eq]
    rfl
  | some layout =>
    have hlayout := h.read name layout (Keyed.mem_of_get? hread)
    unfold Session.layout? at hlayout ⊢
    rw [hread]
    by_cases hempty : name.isEmpty = true
    · rw [if_pos hempty, if_pos hempty]
    · rw [if_neg hempty] at hlayout ⊢
      rw [if_neg hempty]
      exact hlayout

theorem ReadStable.pristine (files : Keyed Text Bytes) : ReadStable (Pristine files) where
  load {s} name h := by
    unfold Session.load
    split
    · exact h
    · refine ⟨h.files_eq, fun n layout hmem => ?_⟩
      rcases mem_append.1 hmem with hmem | hmem
      · exact h.read n layout hmem
      · obtain ⟨rfl, rfl⟩ : n = name ∧ layout = s.layout? name := by simpa using hmem
        exact h.layout? n

theorem not_changed_of_unread {files layout}
    (h : ({ files } : Session).layout? name = some layout) : layout.changed = false := by
  unfold Session.layout? at h
  split at h
  · cases h
  · obtain ⟨bytes, -, hof⟩ := bind_eq_some_iff.1 h
    obtain ⟨document, -, rfl⟩ := map_eq_some_iff.1 hof
    rfl

theorem Pristine.changed_eq_nil {files} (h : s.Pristine files) : s.changed = [] := by
  unfold Session.changed
  rw [filter_eq_nil_iff]
  intro layout hmem
  obtain ⟨⟨name, read⟩, hread, heq⟩ := mem_filterMap.1 hmem
  obtain rfl : read = some layout := heq
  rw [not_changed_of_unread (h.read name _ hread).symm]
  exact Bool.false_ne_true

end Session

theorem LayoutFile.keepsName_put (place : Markup.Place) (e : Markup.Element) (handedOut : Nat) :
    KeepsName fun l => l.put place e handedOut := by
  intro a b h
  obtain ⟨root, -, rfl⟩ := put_eq_ok h
  rfl

theorem LayoutFile.keepsName_setAttribute (place : Markup.Place) (key value : Text) :
    KeepsName fun l => l.setAttribute place key value := by
  intro a b h
  obtain ⟨_, e, tag, handedOut, -, -, hput⟩ := setAttribute_eq_ok h
  exact keepsName_put place _ handedOut a b hput

theorem LayoutFile.keepsName_assignId (place : Markup.Place) (id : Text) : KeepsName fun l => l.assignId place id :=
  keepsName_setAttribute place idAttribute _

theorem LayoutFile.keepsName_addComment (text : Text) : KeepsName fun l => l.addComment [] text := by
  intro a b h
  rw [addComment_root_eq_ok h]

/-! ## Repairs -/

namespace Repair

theorem run_bind {α β} (x : Repair α) (f : α → Repair β) (s : Session) : (x >>= f) s = match (x s).1 with
      | .ok a => f a (x s).2
      | .error e => (.error e, (x s).2) := by
  simp only [Bind.bind, ExceptT.bind, ExceptT.mk, StateT.bind]
  rcases x s with ⟨e | a, s'⟩ <;> rfl

/-- The activity keeps the condition, also where it fails. -/
def Keeps {α : Type} (I : Session → Prop) (x : Repair α) : Prop := ∀ s, I s → I (x s).2

namespace Keeps

variable {α β : Type} {I : Session → Prop}

theorem pure (a : α) : (Pure.pure a : Repair α).Keeps I := fun _ h => h

theorem bind {x} {f : α → Repair β} (h : x.Keeps I) (hf : ∀ a, (f a).Keeps I) : (x >>= f).Keeps I := by
  intro s hs
  rw [run_bind]
  cases (x s).1 with
  | ok a => exact hf a _ (h s hs)
  | error e => exact h s hs

theorem ask {f : Session → α × Session} (h : ∀ s, I s → I (f s).2) : (Repair.ask f).Keeps I := h

theorem forM {f : α → Repair PUnit} (h : ∀ a, (f a).Keeps I) (l : List α) : (l.forM f).Keeps I := by
  induction l with
  | nil => exact .pure _
  | cons a l ih => exact .bind (h a) fun _ => ih

variable (hI : Session.Stable I)

include hI

theorem change (name : Text) (hf : KeepsName f) : (Repair.change name f).Keeps I := by
  intro s hs
  unfold Repair.change
  split
  · next s' hs' => exact hI.change hf hs' hs
  · exact hs

theorem nameAll (base : Text) (used : List Text) (vs : List Visit) : (nameAll base used vs).Keeps I := by
  induction vs generalizing used with
  | nil => exact .pure _
  | cons v vs ih =>
    exact .bind (.change hI _ (LayoutFile.keepsName_assignId _ _)) fun _ => .bind (ih _) fun _ => .pure _

theorem nameChildren (name : Text) : (nameChildren name).Keeps I :=
  .bind (.ask fun _ => hI.loadAll _) fun _ => .bind (.ask fun _ h => h) fun _ => nameAll hI _ _ _

theorem ensureOnRoot (name key : Text) : (ensureOnRoot name key).Keeps I := by
  refine .change hI _ fun a b h => ?_
  split at h
  · cases h
    rfl
  · exact LayoutFile.keepsName_setAttribute _ _ _ a b h

theorem rootId (name : Text) : (rootId name).Keeps I := by
  refine .bind (.ask fun _ => hI.load name) fun layout => ?_
  split
  · exact .pure _
  · split
    · exact .pure _
    · split
      · exact .pure _
      · refine .bind (.ask fun _ => hI.loadAll _) fun _ => ?_
        refine .bind (.change hI _ (LayoutFile.keepsName_assignId _ _)) fun _ => ?_
        refine .bind (.forM (ensureOnRoot hI name) _) fun _ => ?_
        exact .bind (.bind (nameChildren hI name) fun _ => .pure _) fun _ => .pure _

theorem place (name : Text) (b : FieldBinding) : (place name b).Keeps I := by
  refine .bind (.ask fun s hs => ?_) fun found => ?_
  · simp only [Session.findFree]
    split
    · exact hs
    · exact hI.find _ name hs
  · cases found with
    | none =>
      refine .bind (.change hI _ fun a b h => ?_) fun _ => .pure _
      split at h
      · cases h
        rfl
      · exact LayoutFile.keepsName_addComment _ a b h
    | some v => exact .bind (.change hI _ (LayoutFile.keepsName_assignId _ _)) fun _ => .pure _

theorem ensureId (name : Text) (known : List Text) (b : FieldBinding) : (ensureId name known b).Keeps I := by
  unfold Repair.ensureId
  by_cases hframework : b.isFramework = true
  · rw [if_pos hframework]
    exact .pure _
  · rw [if_neg hframework]
    by_cases hknown : known.contains b.id = true
    · rw [if_pos hknown]
      exact .bind (.pure _) fun _ => .pure _
    · rw [if_neg hknown]
      exact .bind (place hI name b) fun _ => .pure _

theorem ensureIdsFrom (name : Text) (known : List Text) (reports : Keyed Text IdReport)
    (fields : List FieldBinding) : (ensureIdsFrom name known reports fields).Keeps I := by
  induction fields generalizing known reports with
  | nil => exact .pure _
  | cons b fields ih => exact .bind (ensureId hI name known b) fun _ => ih _ _

theorem ensureIds (fields : List FieldBinding) (name : Text) : (ensureIds fields name).Keeps I := by
  refine .bind (.ask fun _ => hI.load name) fun layout => ?_
  cases layout with
  | none => exact .pure _
  | some layout => exact .bind (.ask fun _ => hI.loadAll _) fun _ => ensureIdsFrom hI _ _ _ _

end Keeps

end Repair

end Rebind.Layout
