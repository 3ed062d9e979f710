/-
The bindings of a class as lists over its annotations.
-/
import Rebind.Binding.Extraction

namespace Rebind.Binding

open Java (Field Method Annotation TypeDecl CompilationUnit)
open List

/-- The annotations of the fields and of the methods of a class, each with what it stands on. -/
def annotated (t : TypeDecl) : List ((Field ⊕ Method) × Annotation) :=
  t.fields.flatMap (fun f => f.annotations.map (.inl f, ·)) ++
    t.methods.flatMap fun m => m.annotations.map (.inr m, ·)

def BindingSet.note (s : BindingSet) : (Field ⊕ Method) × Annotation → BindingSet
  | (.inl f, a) => if a.simpleName == bindView then s.addField f a else s.addUnsupported a
  | (.inr m, a) =>
    match Listener.Kind.ofAnnotationName? a.simpleName with
    | some kind => s.addHandler m a kind
    | none => s.addUnsupported a

theorem addFieldAnnotations_eq (is : List Java.Import) (s : BindingSet) (f : Field) : addFieldAnnotations is s f =
      ((f.annotations.map (Sum.inl f, ·)).filter fun x => recognises is x.2).foldl BindingSet.note s := by
  rw [filter_map, foldl_map]
  rfl

theorem addMethodAnnotations_eq (is : List Java.Import) (s : BindingSet) (m : Method) : addMethodAnnotations is s m =
      ((m.annotations.map (Sum.inr m, ·)).filter fun x => recognises is x.2).foldl BindingSet.note s := by
  rw [filter_map, foldl_map]
  rfl

/-- The bindings of a class are noted one annotation after the other. -/
theorem bindingsOf_eq (unit : CompilationUnit) (t : TypeDecl) : bindingsOf unit t =
    ((annotated t).filter fun x => recognises unit.imports x.2).foldl BindingSet.note {} := by
  rw [annotated, filter_append, foldl_append, filter_flatMap, filter_flatMap, foldl_flatMap, foldl_flatMap]
  simp only [← addFieldAnnotations_eq, ← addMethodAnnotations_eq]
  rfl

/-! ## What one annotation adds -/

def added (x : (Field ⊕ Method) × Annotation) : BindingSet := BindingSet.note {} x

def valueOf (a : Annotation) : Text := ((attributes (a.args.getD [])).get? "value").getD []

theorem BindingSet.note_append (s : BindingSet) (x : (Field ⊕ Method) × Annotation) :
    (s.note x).fields = s.fields ++ (added x).fields ∧ (s.note x).handlers = s.handlers ++ (added x).handlers ∧
      (s.note x).annotations = s.annotations ++ (added x).annotations ∧
      (s.note x).unsupported = s.unsupported ++ (added x).unsupported := by
  obtain ⟨f | m, a⟩ := x
  · simp only [added, note]
    split
    · simp only [addField]
      split <;> simp only [append_nil, nil_append, and_self]
    · simp only [addUnsupported, append_nil, nil_append, and_self]
  · simp only [added, note]
    split
    · simp only [addHandler]
      split <;> simp only [append_nil, nil_append, and_self]
    · simp only [addUnsupported, append_nil, nil_append, and_self]

/-- The second set lists what the first lists and then what the annotations add. -/
structure BindingSet.Appends (s : BindingSet) (xs : List ((Field ⊕ Method) × Annotation)) (s' : BindingSet) : Prop where
  fields : s'.fields = s.fields ++ xs.flatMap fun x => (added x).fields
  handlers : s'.handlers = s.handlers ++ xs.flatMap fun x => (added x).handlers
  annotations : s'.annotations = s.annotations ++ xs.flatMap fun x => (added x).annotations
  unsupported : s'.unsupported = s.unsupported ++ xs.flatMap fun x => (added x).unsupported

theorem BindingSet.appends_foldl (s : BindingSet) (xs : List ((Field ⊕ Method) × Annotation)) :
    s.Appends xs (xs.foldl note s) := by
  induction xs generalizing s with
  | nil => constructor <;> simp
  | cons x xs ih =>
    obtain ⟨hfields, hhandlers, hannotations, hunsupported⟩ := s.note_append x
    have h := ih (s.note x)
    constructor
    · simp [h.fields, hfields]
    · simp [h.handlers, hhandlers]
    · simp [h.annotations, hannotations]
    · simp [h.unsupported, hunsupported]

def recognised (unit : CompilationUnit) (t : TypeDecl) : List ((Field ⊕ Method) × Annotation) :=
  (annotated t).filter fun x => recognises unit.imports x.2

/-- All that is noted is put together from what the recognised annotations add by themselves. -/
theorem appends_bindingsOf (unit : CompilationUnit) (t : TypeDecl) :
    BindingSet.Appends {} (recognised unit t) (bindingsOf unit t) := by
  rw [bindingsOf_eq]
  exact BindingSet.appends_foldl {} _

/-- An annotation binds a field or a handler and is taken away, or it is unsupported. -/
inductive Adds : (Field ⊕ Method) × Annotation → BindingSet → Prop
  | field {f : Field} {a : Annotation} {r : IdRef} (hname : a.simpleName = bindView)
      (hrefs : idRefs (valueOf a) = [r]) :
      Adds (.inl f, a) {
        fields := [⟨f.name, f.type, r.id, r.ref⟩]
        annotations := [a]
        declarations := [(f.name, f)] }
  | handler {m : Method} {a : Annotation} {b : HandlerBinding}
      (hkind : Listener.Kind.ofAnnotationName? a.simpleName = some b.kind) (hmethod : b.method = m.name)
      (hrefs : b.targets = idRefs (valueOf a)) (hsome : b.targets ≠ []) (hcall : m.name ++ "(".toList <+: b.call) :
      Adds (.inr m, a) { handlers := [b], annotations := [a] }
  | unsupported {x : (Field ⊕ Method) × Annotation}
      (hrefs : ∀ m, x.1 = .inr m → Listener.Kind.ofAnnotationName? x.2.simpleName ≠ none → idRefs (valueOf x.2) = []) :
      Adds x { unsupported := [x.2.simpleName] }

theorem annotationName_of_kind {name kind}
    (h : Listener.Kind.ofAnnotationName? name = some kind) : kind.annotationName = name := by
  have hname := find?_some h
  exact beq_iff_eq.1 hname

/-- An annotation adds the same whatever was noted before: a binding and itself, or its name to the unsupported ones. -/
theorem adds_added (x : (Field ⊕ Method) × Annotation) : Adds x (added x) := by
  obtain ⟨f | m, a⟩ := x
  · simp only [added, BindingSet.note]
    split
    · next hname =>
      rw [beq_iff_eq] at hname
      simp only [BindingSet.addField]
      split
      · next r hrefs => exact .field hname hrefs
      · rw [← hname]
        exact .unsupported (by simp)
    · exact .unsupported (by simp)
  · simp only [added, BindingSet.note]
    split
    · next kind hkind =>
      simp only [BindingSet.addHandler]
      split
      · next hrefs =>
        rw [annotationName_of_kind hkind]
        exact .unsupported fun _ _ _ => hrefs
      · next hsome => exact .handler hkind rfl rfl hsome ⟨_, (append_assoc ..).symm⟩
    · next hkind => exact .unsupported fun _ _ hsome => absurd hkind hsome

/-! ## The lists of a class -/

section Lists

variable {unit : CompilationUnit} {t : TypeDecl}

variable {x : (Field ⊕ Method) × Annotation} {a : Annotation}

theorem mem_recognised : x ∈ recognised unit t ↔ x ∈ annotated t ∧ recognises unit.imports x.2 = true := mem_filter

theorem mem_annotated_field {f} : (.inl f, a) ∈ annotated t ↔ f ∈ t.fields ∧ a ∈ f.annotations := by
  simp [annotated]

theorem mem_annotated_method {m} : (.inr m, a) ∈ annotated t ↔ m ∈ t.methods ∧ a ∈ m.annotations := by
  simp [annotated]

theorem mem_annotations : a ∈ (bindingsOf unit t).annotations ↔ ∃ x ∈ recognised unit t, a ∈ (added x).annotations := by
  rw [(appends_bindingsOf unit t).annotations]
  exact mem_flatMap

theorem mem_unsupported {n} :
    n ∈ (bindingsOf unit t).unsupported ↔ ∃ x ∈ recognised unit t, n ∈ (added x).unsupported := by
  rw [(appends_bindingsOf unit t).unsupported]
  exact mem_flatMap

theorem mem_handlers {b} :
    b ∈ (bindingsOf unit t).handlers ↔ ∃ x ∈ recognised unit t, b ∈ (added x).handlers := by
  rw [(appends_bindingsOf unit t).handlers]
  exact mem_flatMap

theorem mem_fields {b} :
    b ∈ (bindingsOf unit t).fields ↔ ∃ x ∈ recognised unit t, b ∈ (added x).fields := by
  rw [(appends_bindingsOf unit t).fields]
  exact mem_flatMap

theorem mem_annotations_or_mem_unsupported (hx : x ∈ recognised unit t) :
    x.2 ∈ (bindingsOf unit t).annotations ∨ x.2.simpleName ∈ (bindingsOf unit t).unsupported := by
  rw [mem_annotations, mem_unsupported]
  have h := adds_added x
  generalize hd : added x = d at h
  cases h with
  | field | handler => exact .inl ⟨_, hx, by simp [hd]⟩
  | unsupported => exact .inr ⟨_, hx, by simp [hd]⟩

end Lists

end Rebind.Binding
