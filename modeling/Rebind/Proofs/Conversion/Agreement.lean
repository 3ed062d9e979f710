/-
What a conversion depends on.

A file uses the layouts of its classes with bindings and all that these mention through include elements (`UsesLayout`).
-/
import Rebind.Proofs.Conversion.Layouts
import Rebind.Proofs.Conversion.Outcome
import Rebind.Proofs.Layout.Agreement

namespace Rebind.Conversion

open Layout (Session Repair Mentions)
open Relation (ReflTransGen)

variable {files files' : Keyed Text Bytes}

theorem links_agree (used : Text → Prop) (known : List Text) : Links used known (Session.Agree used known) where
  known h := ⟨h.left, h.right⟩
  layout? h hname := by
    refine ⟨h.layout? hname, fun l hl => ?_⟩
    rw [h.named _ l hl]
    exact hname
  load h hname := h.load hname
  find stop h hname := by
    obtain ⟨hsame, hagree⟩ := h.find hname stop
    refine ⟨hsame, hagree, fun v hv => ?_⟩
    exact (h.of_mem_visits hname (List.mem_of_find?_eq_some hv)).2.1

theorem repairLinks_agree (used : Text → Prop) (known : List Text) :
    RepairLinks used used (Session.Agree used known) where
  rootId h hname := by
    obtain ⟨hsame, hagree, -⟩ := Repair.Agrees.rootId hname _ _ h
    exact ⟨hsame, fun _ _ => hagree⟩
  ensureIds fields h hname := by
    obtain ⟨hsame, hagree, -⟩ := Repair.Agrees.ensureIds hname fields _ _ h
    exact ⟨hsame, fun _ _ => hagree⟩

/-- The layout is that of a class with bindings, or is mentioned there through include elements. -/
def UsesLayout (files : Keyed Text Bytes) (text name : Text) : Prop :=
  ∃ unit first, Java.readUnit text = .ok unit ∧ BindsLayout unit (files.map (·.1)) first ∧
    ReflTransGen (Mentions ({ files } : Session).root?) first name

theorem agree_start {used} (hnames : files'.map (·.1) = files.map (·.1))
    (hfiles : ∀ name, used name → files'.get? name = files.get? name)
    (hclosed : Layout.Closed used ({ files } : Session).root?) :
    Session.Agree used (files.map (·.1)) { files } { files := files' } where
  read := rfl
  left := rfl
  right := hnames
  files := hfiles
  closed := hclosed
  named name l hl := by
    have hnamed : ({ files } : Session).Named files := ⟨rfl, by simp, by simp⟩
    exact (hnamed.layout? hl).1

/-- Of the files of the other layouts nothing but their names is looked at, so a conversion gives the same whatever they
hold. -/
theorem convert_congr {options text}
    (hnames : files'.map (·.1) = files.map (·.1))
    (hfiles : ∀ name, UsesLayout files text name → files'.get? name = files.get? name) :
    convert options files' text = convert options files text := by
  rw [convert_eq, convert_eq]
  cases hunit : Java.readUnit text with
  | error why => rfl
  | ok unit =>
    have hclosed : Layout.Closed (UsesLayout files text) ({ files } : Session).root? := by
      intro a b ha hab
      obtain ⟨unit', first, hunit', hfirst, hreach⟩ := ha
      exact ⟨unit', first, hunit', hfirst, hreach.tail hab⟩
    have hused : ∀ name, BindsLayout unit (files.map (·.1)) name → UsesLayout files text name := fun name hname =>
      ⟨unit, name, hunit, hname, .refl⟩
    have hagrees := Agrees.convertUnit (links_agree (UsesLayout files text) (files.map (·.1)))
      (fun _ : options.repair = true => repairLinks_agree _ _) fun name hname => ⟨hused name hname, hused name hname⟩
    have hstart : start files' text = { start files text with layouts := { files := files' } } := rfl
    simp only
    rw [hstart]
    rcases hagrees (start files text) { files := files' } (agree_start hnames hfiles hclosed) with
      ⟨why, hleft, hright⟩ | ⟨classes, q, t, hleft, hright, hagree⟩
    · rw [hleft, hright]
    · rw [hleft, hright]
      have hchanged : t.changed = q.layouts.changed := by
        unfold Session.changed
        rw [hagree.read]
      simp only [hchanged]

end Rebind.Conversion
