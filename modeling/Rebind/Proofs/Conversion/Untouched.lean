/-
Conversions that repair nothing.

Layouts are added to at two places of a conversion: where the ids of bound fields are checked, and where the way through
an include element needs an id at the root of the included layout. Both are left out when repairs are turned off
(`convert_without_repair`).
-/
import Rebind.Proofs.Conversion.Layouts
import Rebind.Proofs.Conversion.Outcome

namespace Rebind.Conversion

open Layout (Session)

/-- Without repairs a conversion comes with no layouts, and those that it has read are what their files hold. -/
theorem convert_without_repair {options : Options} (hrepair : options.repair = false) (files : Keyed Text Bytes)
    (text : Text) :
    (∀ out, convert options files text = .ok out → out.layouts = []) ∧
      ∀ unit classes p, (convertUnit options unit).run (start files text) = .ok (classes, p) →
        p.layouts.Pristine files ∧ p.layouts.changed = [] := by
  have hkept : ∀ unit classes p, (convertUnit options unit).run (start files text) = .ok (classes, p) →
      p.layouts.Pristine files := by
    intro unit classes p hrun
    have hstable : options.repair = true → Session.Stable (Session.Pristine files) := by
      intro hon
      rw [hrepair] at hon
      cases hon
    have hstart : (start files text).layouts.Pristine files := ⟨rfl, fun _ _ hmem => by cases hmem⟩
    exact keeps_of_convertUnit (.pristine files) hstable hstart hrun
  refine ⟨fun out hout => ?_, fun unit classes p hrun => ?_⟩
  · rw [convert_eq] at hout
    split at hout
    · cases hout
    · next unit _ =>
      split at hout
      · cases hout
      · next classes p hrun =>
        split at hout
        · split at hout
          · cases hout
          · cases hout
            exact (hkept unit classes p hrun).changed_eq_nil
        · cases hout
          rfl
  · exact ⟨hkept unit classes p hrun, (hkept unit classes p hrun).changed_eq_nil⟩

/-- A conversion to a holder that leaves layouts alone. -/
def withoutRepair : Options := { toBinding with repair := false }

def boundInclude : Text :=
  "import butterknife.*;\nclass A \x7b\n @BindView(R.id.h)\n V h;\n" ++
    " void onCreate(B b) \x7b\n  setContentView(R.layout.m);\n  h.f();\n \x7d\n\x7d\n"

/-- Its layout and the included one, whose root has no id. -/
def headedLayouts : Keyed Text Bytes :=
  [("m", Text.utf8 ("<L xmlns:android=\"http://schemas.android.com/apk/res/android\">" ++
      "<include android:id=\"@+id/h\" layout=\"@layout/n\"/><V/></L>")),
    ("n", Text.utf8 "<V/>")]

def includeText : Text :=
  "class A \x7b\n private MBinding binding;\n void onCreate(B b) \x7b\n" ++
    "  binding = MBinding.inflate(getLayoutInflater());\n  setContentView(binding.getRoot());\n" ++
    "  binding.h.getRoot().f();\n \x7d\n\n @Override\n protected void onDestroy() \x7b\n" ++
    "  super.onDestroy();\n  binding = null;\n \x7d\n\x7d\n"

theorem convert_without_repair_boundInclude :
    withoutRepair.repair = false ∧ ∃ out, convert withoutRepair headedLayouts boundInclude = .ok out ∧
      out.text = includeText ∧ out.layouts = [] := by
  have hoff : withoutRepair.repair = false := rfl
  obtain ⟨out, hout, htext⟩ : ∃ out, convert withoutRepair headedLayouts boundInclude = .ok out ∧
      out.text = includeText := by
    apply exists_convert
    unfold headedLayouts boundInclude includeText
    repeat rewrite [String.toList_ofList]
    decide +kernel
  exact ⟨hoff, out, hout, htext, (convert_without_repair hoff headedLayouts boundInclude).1 out hout⟩

end Rebind.Conversion
