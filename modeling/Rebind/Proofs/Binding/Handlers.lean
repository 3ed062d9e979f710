/-
What becomes of the ids of listener annotations.

A listener annotation is taken away as soon as one element of its value refers to an id, and its binding has the ids of
exactly these elements: the others are dropped without a trace (`listener_annotations_bind`).
-/
import Mathlib.Data.List.Forall2
import Rebind.Proofs.Binding.Listing

namespace Rebind.Binding

open Java (Field Method Annotation TypeDecl CompilationUnit readUnit)
open List

variable {a : Annotation} {value : Text}

def isListener (a : Annotation) : Bool := (Listener.Kind.ofAnnotationName? a.simpleName).isSome

theorem isListener_bindView (h : a.simpleName = bindView) : isListener a = false := by
  rw [isListener, h]
  decide

theorem idRefs_eq_nil_iff : idRefs value = [] ↔ ∀ e ∈ elements value, idRef? e = none :=
  filterMap_eq_nil_iff

theorem forall_mem_idRefs_iff :
    (∀ e ∈ elements value, ∃ r ∈ idRefs value, idRef? e = some r) ↔ ∀ e ∈ elements value, idRef? e ≠ none := by
  refine forall₂_congr fun e he => ⟨?_, fun h => ?_⟩
  · rintro ⟨r, -, hr⟩
    simp [hr]
  · obtain ⟨r, hr⟩ := Option.ne_none_iff_exists'.1 h
    exact ⟨r, mem_filterMap.2 ⟨e, he, hr⟩, hr⟩

section Lists

variable {unit : CompilationUnit} {type : TypeDecl}

/-- The binding comes from the annotation of a method of the class, with the ids of the elements that refer to one. -/
structure BoundBy (unit : CompilationUnit) (type : TypeDecl) (a : Annotation) (b : HandlerBinding) : Prop where
  recognised : recognises unit.imports a = true
  kind : Listener.Kind.ofAnnotationName? a.simpleName = some b.kind
  method : ∃ m ∈ type.methods, a ∈ m.annotations ∧ b.method = m.name
  targets : b.targets = (elements (valueOf a)).filterMap idRef?
  some_target : b.targets ≠ []
  complete : (∀ e ∈ elements (valueOf a), ∃ r ∈ b.targets, idRef? e = some r) ↔
    ∀ e ∈ elements (valueOf a), idRef? e ≠ none

theorem forall₂_boundBy (unit : CompilationUnit) (type : TypeDecl) : List.Forall₂ (BoundBy unit type)
    ((bindingsOf unit type).annotations.filter isListener) (bindingsOf unit type).handlers := by
  rw [(appends_bindingsOf unit type).annotations, (appends_bindingsOf unit type).handlers, nil_append,
    nil_append, filter_flatMap]
  have hsame : List.Forall₂ (fun x y => x = y ∧ x ∈ recognised unit type) (recognised unit type)
      (recognised unit type) := forall₂_same.2 fun x hx => ⟨rfl, hx⟩
  refine rel_flatMap hsame ?_
  rintro x _ ⟨rfl, hx⟩
  obtain ⟨hx, hrecognised⟩ := mem_recognised.1 hx
  show List.Forall₂ _ ((added x).annotations.filter isListener) (added x).handlers
  have h := adds_added x
  generalize added x = d at h
  cases h with
  | field hname => simp [isListener_bindView hname]
  | unsupported => simp
  | @handler m a b hkind hmethod hrefs hsome =>
    obtain ⟨hm, ha⟩ := mem_annotated_method.1 hx
    have hlistener : isListener a = true := by rw [isListener, hkind]; rfl
    rw [filter_cons_of_pos hlistener, filter_nil]
    refine .cons ⟨hrecognised, hkind, ⟨m, hm, ha, hmethod⟩, hrefs, hsome, ?_⟩ .nil
    rw [hrefs]
    exact forall_mem_idRefs_iff

theorem mem_annotations_iff {m} (hx : (.inr m, a) ∈ recognised unit type)
    (hlistener : isListener a = true) :
    a ∈ (bindingsOf unit type).annotations ↔ ∃ e ∈ elements (valueOf a), idRef? e ≠ none := by
  have hsome : (∃ e ∈ elements (valueOf a), idRef? e ≠ none) ↔ idRefs (valueOf a) ≠ [] := by
    rw [ne_eq, idRefs_eq_nil_iff]
    simp
  rw [hsome, mem_annotations]
  constructor
  · rintro ⟨y, -, ha⟩
    have h := adds_added y
    generalize added y = d at h ha
    cases h with
    | field hname =>
      rw [mem_singleton.1 ha, isListener_bindView hname] at hlistener
      cases hlistener
    | handler hkind hmethod hrefs hsome =>
      rw [mem_singleton.1 ha, ← hrefs]
      exact hsome
    | unsupported => simp at ha
  · intro hrefs
    refine ⟨_, hx, ?_⟩
    have h := adds_added (.inr m, a)
    generalize added (.inr m, a) = d at h
    cases h with
    | handler => exact mem_singleton.2 rfl
    | unsupported hnone =>
        exact absurd (hnone m rfl (by simpa [isListener, ← Option.isSome_iff_ne_none] using hlistener)) hrefs

theorem perm_annotations_unsupported (unit : CompilationUnit) (type : TypeDecl) :
    ((bindingsOf unit type).annotations.map (·.simpleName) ++ (bindingsOf unit type).unsupported).Perm
      ((recognised unit type).map (·.2.simpleName)) := by
  rw [(appends_bindingsOf unit type).annotations, (appends_bindingsOf unit type).unsupported, nil_append, nil_append]
  induction recognised unit type with
  | nil => exact .refl _
  | cons x xs ih =>
    rw [flatMap_cons, flatMap_cons, map_append]
    have h := adds_added x
    generalize added x = d at h
    cases h with
    | field | handler => exact ih.cons _
    | unsupported => exact perm_middle.trans (ih.cons _)

end Lists

/-- The listener annotations that are taken away are those of the handler bindings, one for one. Each binding has the
ids of the elements that refer to one, and so all elements exactly if all refer to ids. A listener annotation is taken
away as soon as one element refers to an id; otherwise it is unsupported, and no annotation is both. -/
theorem listener_annotations_bind (unit : CompilationUnit) (type : TypeDecl) :
    List.Forall₂ (BoundBy unit type) ((bindingsOf unit type).annotations.filter isListener)
      (bindingsOf unit type).handlers ∧
    (∀ m ∈ type.methods, ∀ a ∈ m.annotations, recognises unit.imports a = true → isListener a = true →
      (a ∈ (bindingsOf unit type).annotations ↔ ∃ e ∈ elements (valueOf a), idRef? e ≠ none) ∧
      (a ∉ (bindingsOf unit type).annotations → a.simpleName ∈ (bindingsOf unit type).unsupported)) ∧
    ((bindingsOf unit type).annotations.map (·.simpleName) ++ (bindingsOf unit type).unsupported).Perm
      ((recognised unit type).map (·.2.simpleName)) := by
  refine ⟨forall₂_boundBy unit type, fun m hm a ha hrecognised hlistener => ?_, perm_annotations_unsupported unit type⟩
  have hx : (.inr m, a) ∈ recognised unit type := mem_recognised.2 ⟨mem_annotated_method.2 ⟨hm, ha⟩, hrecognised⟩
  exact ⟨mem_annotations_iff hx hlistener, (mem_annotations_or_mem_unsupported hx).resolve_left⟩

/-- A file with a list of an id and a constant of the class. -/
def partlyRead : Text :=
  "import butterknife.*;\nclass A \x7b\n @OnClick(\x7bR.id.a, B\x7d)\n void f() \x7b\x7d\n\x7d\n"

/-- The annotation is taken away, its second element is not bound, and nothing is listed as unsupported. -/
theorem handlers_partlyRead : (readUnit partlyRead).toOption.map (fun unit => unit.types.map fun s =>
      ((bindingsOf unit s).annotations.flatMap fun a => elements (valueOf a),
        (bindingsOf unit s).handlers.flatMap (·.ids), (bindingsOf unit s).unsupported)) =
    some [(["R.id.a".toList, "B".toList], ["a".toList], [])] ∧ idRef? "B" = none := by
  decide +kernel

end Rebind.Binding
