/-
Where the bindings of a class come from.
-/
import Rebind.Proofs.Binding.Listing

namespace Rebind.Binding

open List

open Java (Field Method Annotation TypeDecl CompilationUnit)

variable {a : Annotation}

/-- All that a set of bindings refers to belongs to the class. -/
structure BindingSet.Drawn (type : TypeDecl) (s : BindingSet) : Prop where
  annotations : ∀ a ∈ s.annotations,
    (∃ f ∈ type.fields, a ∈ f.annotations) ∨ ∃ m ∈ type.methods, a ∈ m.annotations
  declarations : ∀ name f, s.declarations.get? name = some f → f ∈ type.fields ∧ f.name = name
  fields : ∀ b ∈ s.fields, ∃ f, s.declarations.get? b.name = some f

namespace BindingSet.Drawn

variable {type : TypeDecl} {s : BindingSet}

theorem addField (h : Drawn type s) {f} (hf : f ∈ type.fields)
    (ha : a ∈ f.annotations) : Drawn type (s.addField f a) := by
  simp only [BindingSet.addField]
  split
  · refine ⟨fun b hb => ?_, fun name g hg => ?_, fun b hb => ?_⟩
    · rcases mem_append.1 hb with hb | hb
      · exact h.annotations b hb
      · rw [mem_singleton.1 hb]
        exact .inl ⟨f, hf, ha⟩
    · rw [Keyed.get?_insert] at hg
      split at hg
      · next hname =>
        obtain rfl : f = g := Option.some.inj hg
        exact ⟨hf, hname.symm⟩
      · exact h.declarations name g hg
    · rw [Keyed.get?_insert]
      split
      · exact ⟨f, rfl⟩
      · next hname =>
        rcases mem_append.1 hb with hb | hb
        · exact h.fields b hb
        · rw [mem_singleton.1 hb] at hname
          exact absurd rfl hname
  · exact ⟨h.annotations, h.declarations, h.fields⟩

theorem addHandler (h : Drawn type s) {m} (hm : m ∈ type.methods)
    (ha : a ∈ m.annotations) (kind : Listener.Kind) : Drawn type (s.addHandler m a kind) := by
  simp only [BindingSet.addHandler]
  split
  · exact ⟨h.annotations, h.declarations, h.fields⟩
  · refine ⟨fun b hb => ?_, h.declarations, h.fields⟩
    rcases mem_append.1 hb with hb | hb
    · exact h.annotations b hb
    · rw [mem_singleton.1 hb]
      exact .inr ⟨m, hm, ha⟩

theorem addUnsupported (h : Drawn type s) (a : Annotation) : Drawn type (s.addUnsupported a) :=
  ⟨h.annotations, h.declarations, h.fields⟩

end BindingSet.Drawn

/-- The annotations of a class are those of its fields and methods, and the bound fields are fields it declares. -/
theorem drawn_bindingsOf (unit : CompilationUnit) (type : TypeDecl) : (bindingsOf unit type).Drawn type := by
  have hempty : BindingSet.Drawn type {} := ⟨by simp, by simp [Keyed.get?], by simp⟩
  refine foldlRecOn _ _ (foldlRecOn _ _ hempty fun s hs f hf => ?_) fun s hs m hm => ?_
  · refine foldlRecOn _ _ hs fun s hs a ha => ?_
    have ha' := (mem_filter.1 ha).1
    split
    · exact hs.addField hf ha'
    · exact hs.addUnsupported a
  · refine foldlRecOn _ _ hs fun s hs a ha => ?_
    have ha' := (mem_filter.1 ha).1
    split
    · exact hs.addHandler hm ha' _
    · exact hs.addUnsupported a

/-! ## No annotation is lost -/

/-- No annotation that is recognised is lost: it is noted, or something is left unsupported. -/
theorem noted_bindingsOf (unit : CompilationUnit) (type : TypeDecl)
    (ha : (∃ f ∈ type.fields, a ∈ f.annotations) ∨ ∃ m ∈ type.methods, a ∈ m.annotations)
    (hrecognised : recognises unit.imports a = true) (hsupported : (bindingsOf unit type).unsupported = []) :
    a ∈ (bindingsOf unit type).annotations := by
  have hnoted : ∀ x, (x, a) ∈ annotated type → a ∈ (bindingsOf unit type).annotations := fun x hx =>
    (mem_annotations_or_mem_unsupported (mem_recognised.2 ⟨hx, hrecognised⟩)).resolve_right (by simp [hsupported])
  rcases ha with ⟨f, hf⟩ | ⟨m, hm⟩
  · exact hnoted _ (mem_annotated_field.2 hf)
  · exact hnoted _ (mem_annotated_method.2 hm)

end Rebind.Binding
