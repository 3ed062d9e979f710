/-
Which views listeners are registered on where views are looked up.

A registration is made by the id of the view, while a look-up is written with a reference, of which several may end in
one id. So references have registrations of their own only where their ids tell them apart
(`registrations_one_each_iff`).
-/
import Rebind.Proofs.Conversion.Outcome

namespace Rebind.Conversion

open Java (CompilationUnit TypeDecl)
open Text

theorem run_mapM {α β : Type} {f : α → Conversion β} {g}
    (h : ∀ a p, ∃ q, (f a).run p = .ok (g a, q)) (as : List α) (p : Progress) :
    ∃ q, (as.mapM f).run p = .ok (as.map g, q) := by
  induction as generalizing p with
  | nil => exact ⟨p, rfl⟩
  | cons a as ih =>
    obtain ⟨q, hq⟩ := h a p
    obtain ⟨r, hr⟩ := ih q
    refine ⟨r, ?_⟩
    rw [List.mapM_cons, run_bind_of_ok hq, run_bind_of_ok hr]
    rfl

theorem run_registrations (plan : Plan) (receiver : Text) (p : Progress) :
    ∃ q, (plan.registrations (lookupTarget plan receiver)).run p = .ok (plan.bindings.registrations.map fun x =>
      plan.registered x.1 (lookupView plan receiver x.1 x.2), q) := by
  refine run_mapM ?_ _ p
  rintro ⟨handler, id⟩ p
  obtain ⟨names, hrun⟩ := run_lookupTarget plan receiver handler id p
  exact ⟨{ p with imports := p.imports ++ names ++ handler.kind.shape.imports }, run_bind_of_ok hrun⟩

/-- In a conversion to look-ups the listeners of a class are registered in order, each on a field bound to its id or on
a look-up. The registrations of a kind are one for each reference, on the view of that reference and for the last
handler bound by it, exactly if ids tell the references apart. -/
theorem registrations_one_each_iff (options : Options) (unit : CompilationUnit) (type : TypeDecl) (anchor : Anchor)
    (layout receiver : Text) (p : Progress) :
    let plan : Plan := ⟨options, unit, type, Binding.bindingsOf unit type, anchor, layout⟩
    (∃ q, (plan.registrations (lookupTarget plan receiver)).run p = .ok (plan.bindings.registrations.map fun x =>
      plan.registered x.1 (targetView receiver x.1.kind (plan.bindings.target x)), q)) ∧
    ∀ kind, plan.bindings.OneEach kind ↔ plan.bindings.Unambiguous kind :=
  ⟨run_registrations _ receiver p, fun _ => Binding.BindingSet.oneEach_iff (Binding.spelled_bindingsOf unit type)⟩

def sameIds : Text :=
  "import butterknife.*;\nclass A \x7b\n @OnClick(\x7bR.id.a, android.R.id.a\x7d)\n void f() \x7b\x7d\n" ++
    " void onCreate(B b) \x7b\n  setContentView(R.layout.m);\n \x7d\n\x7d\n"

/-- The handler is registered twice on one of the views, and not on the other. -/
theorem convert_sameIds : ∃ out, convert toLookups [] sameIds = .ok out ∧ out.text =
    "class A \x7b\n void f() \x7b\x7d\n void onCreate(B b) \x7b\n  setContentView(R.layout.m);\n".toList ++
      "  findViewById(R.id.a).setOnClickListener(v -> f());\n".toList ++
      "  findViewById(R.id.a).setOnClickListener(v -> f());\n \x7d\n\x7d\n".toList := by
  apply exists_convert
  unfold sameIds
  repeat rewrite [String.toList_ofList]
  decide +kernel

end Rebind.Conversion
