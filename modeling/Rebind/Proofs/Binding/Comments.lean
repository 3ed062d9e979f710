/-
What comments do to the bindings of a class.
 Blanking the comments of a file changes no class and no binding, unless a comment stands between the parentheses of a
recognised annotation (`bindings_withoutComments`). There it is read with the arguments: a comment behind an id in a
list keeps the id from being bound (`boundIds_remarked`).
-/
import Rebind.Proofs.Binding.Recognition
import Rebind.Proofs.Java.Comments

namespace Rebind.Binding

open Java (Field Method Annotation TypeDecl CompilationUnit readUnit withoutComments)
open List

theorem annotated_over (text : Text) (s : TypeDecl) : annotated (s.over text) =
    (annotated s).map fun x => (x.1.map (·.over text) (·.over text), x.2.over text) := by
  have hfields : (s.over text).fields = s.fields.map (·.over text) := by
    simp only [TypeDecl.fields, TypeDecl.over, filterMap_map, map_filterMap]
    exact filterMap_congr fun m _ => by cases m <;> rfl
  have hmethods : (s.over text).methods = s.methods.map (·.over text) := by
    simp only [TypeDecl.methods, TypeDecl.over, filterMap_map, map_filterMap]
    exact filterMap_congr fun m _ => by cases m <;> rfl
  simp only [annotated, hfields, hmethods, flatMap_map, map_append, map_flatMap]
  congr 1 <;> refine flatMap_congr fun x _ => ?_ <;> simp [Field.over, Method.over]

theorem agree_over {unit unit'} (himports : unit'.imports = unit.imports) {text s}
    (h : ∀ x ∈ recognised unit s, (x.2.over text).args = x.2.args) :
    (bindingsOf unit s).Agree (bindingsOf unit' (s.over text)) := by
  refine BindingSet.Agree.symm ?_
  rw [bindingsOf_eq, bindingsOf_eq, annotated_over, filter_map, himports]
  refine (BindingSet.Agree.refl _).foldl fun x hx => ?_
  have hargs := h x hx
  obtain ⟨f | m, a⟩ := x
  · exact congrArg (fun args => (Sum.inl (f.name, f.type), a.name, args)) hargs
  · exact congrArg (fun args => (Sum.inr (m.name, m.params, m.returnType), a.name, args)) hargs

/-- No comment stands between the parentheses of the annotation. -/
def Uncommented (t : Text) (a : Annotation) : Prop := (a.over (withoutComments t)).args = a.args

instance (t : Text) (a : Annotation) : Decidable (Uncommented t a) := inferInstanceAs (Decidable (_ = _))

/-- A file with its comments blanked is read or rejected as the file is. It declares the same types, with the arguments
of their annotations blanked where they have comments; and a class without such an annotation among the recognised ones
has the same bindings. -/
theorem bindings_withoutComments (t : Text) :
    (∀ e, readUnit t = .error e ↔ readUnit (withoutComments t) = .error e) ∧
    ∀ unit, readUnit t = .ok unit → ∃ unit', readUnit (withoutComments t) = .ok unit' ∧
      List.Forall₂ (fun s s' => s' = s.over (withoutComments t) ∧
        ((∀ x ∈ recognised unit s, Uncommented t x.2) → (bindingsOf unit s).Agree (bindingsOf unit' s')))
        unit.types unit'.types := by
  rw [Java.readUnit_withoutComments]
  cases readUnit t with
  | error e => exact ⟨fun e' => Iff.rfl, by simp⟩
  | ok unit =>
    refine ⟨by simp [Except.map], fun _ h => ?_⟩
    obtain rfl := Except.ok.inj h
    refine ⟨unit.over (withoutComments t), rfl, ?_⟩
    exact forall₂_map_right_iff.2 (forall₂_same.2 fun s _ => ⟨rfl, fun h => agree_over rfl h⟩)

def boundIds (t : Text) : Option (List (List (List Text))) :=
  (readUnit t).toOption.map fun unit => unit.types.map fun s => (bindingsOf unit s).handlers.map (·.ids)

/-- A file with comments all around the arguments of an annotation. -/
def remarkedAround : Text :=
  "import butterknife.*; // all\nclass A /* a */ \x7b\n @OnClick /* tap */ (\x7bR.id.a, R.id.b\x7d) // go\n" ++
    " void f(/* none */) \x7b\x7d\n\x7d\n"

/-- Both ids are bound, with the comments and without. -/
theorem bindings_withoutComments_remarkedAround : withoutComments remarkedAround ≠ remarkedAround ∧
    boundIds remarkedAround = some [[["a".toList, "b".toList]]] ∧
    ∃ unit unit', readUnit remarkedAround = .ok unit ∧ readUnit (withoutComments remarkedAround) = .ok unit' ∧
      List.Forall₂ (fun s s' => (bindingsOf unit s).Agree (bindingsOf unit' s')) unit.types unit'.types := by
  refine ⟨by decide +kernel, by decide +kernel, ?_⟩
  have hread : (readUnit remarkedAround).toOption.any (fun unit => unit.types.all fun s =>
      (recognised unit s).all fun x => decide (Uncommented remarkedAround x.2)) = true := by
    decide +kernel
  obtain ⟨unit, hunit, hall⟩ := (Option.any_eq_true ..).1 hread
  rw [toOption_eq_some] at hunit
  obtain ⟨unit', hunit', htypes⟩ := (bindings_withoutComments remarkedAround).2 unit hunit
  refine ⟨unit, unit', hunit, hunit', ?_⟩
  refine List.Forall₂.imp ?_ ((forall₂_and_left ..).2 ⟨all_eq_true.1 hall, htypes⟩)
  rintro s s' ⟨hs, -, h⟩
  exact h fun x hx => of_decide_eq_true (all_eq_true.1 hs x hx)

def remarked : Text :=
  "import butterknife.*;\nclass A \x7b\n @OnClick(\x7bR.id.a /* x */, R.id.b\x7d)\n void f() \x7b\x7d\n\x7d\n"

/-- The comment hides the first id, which is bound once the comment is blanked. -/
theorem boundIds_remarked : boundIds remarked = some [[["b".toList]]] ∧
    boundIds (withoutComments remarked) = some [[["a".toList, "b".toList]]] := by
  decide +kernel

end Rebind.Binding
