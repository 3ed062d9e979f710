/-
Which annotations a class binds under its imports.

An import of the whole package recognises the annotations of other packages too, if they are written without one
(`wildcard_bindings_agree_iff`).
-/
import Rebind.Proofs.Binding.Listing
import Rebind.Proofs.Java.Relocation

namespace Rebind.Binding

open Java List

/-! ## Bindings that agree -/

/-- Two sets hold the same bindings, whatever the offsets of their annotations. -/
structure BindingSet.Agree (s s' : BindingSet) : Prop where
  fields : s.fields = s'.fields
  handlers : s.handlers = s'.handlers
  duplicateIds : s.duplicateIds = s'.duplicateIds
  unsupported : s.unsupported = s'.unsupported

namespace BindingSet.Agree

variable {s s' s'' : BindingSet}

theorem refl (s : BindingSet) : s.Agree s := ⟨rfl, rfl, rfl, rfl⟩

theorem symm (h : s.Agree s') : s'.Agree s := ⟨h.fields.symm, h.handlers.symm, h.duplicateIds.symm, h.unsupported.symm⟩

theorem trans (h : s.Agree s') (h' : s'.Agree s'') : s.Agree s'' :=
  ⟨h.fields.trans h'.fields, h.handlers.trans h'.handlers, h.duplicateIds.trans h'.duplicateIds,
    h.unsupported.trans h'.unsupported⟩

end BindingSet.Agree

/-- What a binding is read of: the names and types of what an annotation stands on, its name and its arguments. -/
def wording (x : (Field ⊕ Method) × Annotation) :
    ((Text × Text) ⊕ (Text × List Parameter × Option Text)) × Text × Option Text :=
  (x.1.map (fun f => (f.name, f.type)) (fun m => (m.name, m.params, m.returnType)), x.2.name, x.2.args)

namespace BindingSet.Agree

variable {s s' : BindingSet}

variable {a b : Annotation}

theorem addUnsupported (h : s.Agree s') (hname : a.simpleName = b.simpleName) :
    (s.addUnsupported a).Agree (s'.addUnsupported b) :=
  ⟨h.fields, h.handlers, h.duplicateIds, by simp only [BindingSet.addUnsupported, h.unsupported, hname]⟩

theorem addField (h : s.Agree s') {f g} (hname : f.name = g.name) (htype : f.type = g.type)
    (hargs : a.args = b.args) : (s.addField f a).Agree (s'.addField g b) := by
  simp only [BindingSet.addField, BindingSet.fieldsById, hargs, hname, htype, h.fields]
  split
  · exact ⟨rfl, h.handlers, by rw [h.duplicateIds]; rfl, h.unsupported⟩
  · exact ⟨rfl, h.handlers, h.duplicateIds, by rw [h.unsupported]⟩

theorem addHandler (h : s.Agree s') {m n} (hname : m.name = n.name) (hparams : m.params = n.params)
    (htype : m.returnType = n.returnType) (hargs : a.args = b.args) (kind : Listener.Kind) :
    (s.addHandler m a kind).Agree (s'.addHandler n b kind) := by
  simp only [BindingSet.addHandler, hargs, hname, hparams, htype]
  split
  · exact ⟨h.fields, h.handlers, h.duplicateIds, by rw [h.unsupported]⟩
  · exact ⟨h.fields, by rw [h.handlers], h.duplicateIds, h.unsupported⟩

theorem note (h : s.Agree s') {x y} (hxy : wording x = wording y) :
    (s.note x).Agree (s'.note y) := by
  have hname : x.2.simpleName = y.2.simpleName := by
    have hw := congrArg (fun w => w.2.1) hxy
    exact congrArg (Text.afterLast '.') hw
  obtain ⟨f | m, a⟩ := x <;> obtain ⟨g | n, b⟩ := y <;>
    simp only [wording, Sum.map_inl, Sum.map_inr, Prod.mk.injEq, Sum.inl.injEq, Sum.inr.injEq, reduceCtorEq,
      false_and] at hxy
  · obtain ⟨⟨hf, htype⟩, -, hargs⟩ := hxy
    rw [BindingSet.note, BindingSet.note, show a.simpleName = b.simpleName from hname]
    split
    · exact h.addField hf htype hargs
    · exact h.addUnsupported hname
  · obtain ⟨⟨hm, hparams, htype⟩, -, hargs⟩ := hxy
    rw [BindingSet.note, BindingSet.note, show a.simpleName = b.simpleName from hname]
    split
    · exact h.addHandler hm hparams htype hargs _
    · exact h.addUnsupported hname

theorem foldl (h : s.Agree s') {f}
    {xs : List ((Field ⊕ Method) × Annotation)} (hxs : ∀ x ∈ xs, wording (f x) = wording x) :
    ((xs.map f).foldl BindingSet.note s).Agree (xs.foldl BindingSet.note s') := by
  induction xs generalizing s s' with
  | nil => exact h
  | cons x xs ih =>
    exact ih (h.note (hxs x mem_cons_self)) (forall_mem_cons.1 hxs).2

end BindingSet.Agree

variable {d : Nat} {t t' : TypeDecl} {a b : CompilationUnit} {x : (Field ⊕ Method) × Annotation} {n : Text}
  {is : List Import}

theorem annotated_of_moved (h : t.Moved d t') :
    annotated t = (annotated t').map fun x => (x.1.map (·.move d) (·.move d), x.2.move d) := by
  have hfields : t.fields = t'.fields.map (·.move d) := by
    simp only [TypeDecl.fields, h.members, filterMap_map, map_filterMap]
    exact filterMap_congr fun m _ => by cases m <;> rfl
  have hmethods : t.methods = t'.methods.map (·.move d) := by
    simp only [TypeDecl.methods, h.members, filterMap_map, map_filterMap]
    exact filterMap_congr fun m _ => by cases m <;> rfl
  simp only [annotated, hfields, hmethods, flatMap_map, map_append, map_flatMap]
  congr 1 <;> refine flatMap_congr fun x _ => ?_ <;> simp [Field.move, Method.move]

theorem agree_of_moved (unit : CompilationUnit) (h : t.Moved d t') :
    (bindingsOf unit t).Agree (bindingsOf unit t') := by
  rw [bindingsOf_eq, bindingsOf_eq, annotated_of_moved h, filter_map]
  refine (BindingSet.Agree.refl _).foldl fun x _ => ?_
  obtain ⟨f | m, a⟩ := x <;> rfl

/-! ## Counting -/

def BindingSet.size (s : BindingSet) : Nat := s.fields.length + s.handlers.length + s.unsupported.length

theorem BindingSet.Agree.size_eq {s s' : BindingSet} (h : s.Agree s') : s.size = s'.size := by
  rw [size, size, h.fields, h.handlers, h.unsupported]

theorem size_added (x : (Field ⊕ Method) × Annotation) : (added x).size = 1 := by
  have h := adds_added x
  generalize added x = d at h
  cases h <;> rfl

/-- Each annotation that is recognised adds exactly one field, handler or unsupported annotation. -/
theorem size_bindingsOf (unit : CompilationUnit) (t : TypeDecl) :
    (bindingsOf unit t).size = (recognised unit t).length := by
  have h := appends_bindingsOf unit t
  rw [BindingSet.size, h.fields, h.handlers, h.unsupported]
  induction recognised unit t with
  | nil => rfl
  | cons x xs ih =>
    have := size_added x
    simp only [BindingSet.size, flatMap_cons, length_append, length_nil, length_cons] at this ih ⊢
    omega

/-- Two files that declare the same class get the same bindings exactly when they recognise the same of its annotations.
-/
theorem agree_iff (hmore : ∀ x ∈ annotated t, recognises a.imports x.2 = true → recognises b.imports x.2 = true) :
    (bindingsOf a t).Agree (bindingsOf b t) ↔
      ∀ x ∈ annotated t, recognises b.imports x.2 = true → recognises a.imports x.2 = true := by
  constructor
  · intro h x hx hb
    have hlength := h.size_eq
    rw [size_bindingsOf, size_bindingsOf, recognised, recognised] at hlength
    have hsub : ((annotated t).filter fun x => recognises a.imports x.2).Sublist
        ((annotated t).filter fun x => recognises b.imports x.2) := by
      have hboth : (annotated t).filter (fun x => recognises a.imports x.2) =
          ((annotated t).filter fun x => recognises b.imports x.2).filter fun x => recognises a.imports x.2 := by
        rw [filter_filter]
        refine filter_congr fun x hx => ?_
        rw [Bool.eq_iff_iff, Bool.and_eq_true]
        exact ⟨fun h => ⟨h, hmore x hx h⟩, fun h => h.1⟩
      rw [hboth]
      exact filter_sublist
    have hmem : x ∈ (annotated t).filter fun x => recognises a.imports x.2 := by
      rw [hsub.eq_of_length (by omega)]
      exact mem_filter.2 ⟨hx, hb⟩
    exact (mem_filter.1 hmem).2
  · intro h
    have hfilter : (annotated t).filter (fun x => recognises a.imports x.2) =
        (annotated t).filter fun x => recognises b.imports x.2 :=
      filter_congr fun x hx => Bool.eq_iff_iff.2 ⟨hmore x hx, h x hx⟩
    rw [bindingsOf_eq, bindingsOf_eq, hfilter]
    exact .refl _

/-! ## What is left unsupported -/

theorem simpleName_of_mem_unsupported (h : n ∈ (added x).unsupported) : x.2.simpleName = n := by
  have hadds := adds_added x
  generalize added x = d at h hadds
  cases hadds with
  | field | handler => simp at h
  | unsupported => exact (mem_singleton.1 h).symm

theorem exists_of_mem_unsupported {unit} (h : n ∈ (bindingsOf unit t).unsupported) :
    ∃ x ∈ annotated t, x.2.simpleName = n ∧ recognises unit.imports x.2 = true := by
  obtain ⟨x, hx, hn⟩ := mem_unsupported.1 h
  obtain ⟨hx, hrecognised⟩ := mem_recognised.1 hx
  exact ⟨x, hx, simpleName_of_mem_unsupported hn, hrecognised⟩

def isForeign (a : Annotation) : Bool :=
  a.simpleName != bindView && (Listener.Kind.ofAnnotationName? a.simpleName).isNone

theorem unsupported_of_isForeign (h : isForeign x.2 = true) : x.2.simpleName ∈ (added x).unsupported := by
  have hadds := adds_added x
  generalize added x = d at hadds
  cases hadds with
  | field hname => simp [isForeign, hname] at h
  | handler hkind => simp [isForeign, hkind] at h
  | unsupported => exact mem_singleton.2 rfl

/-! ## Imports of single names and of the whole package -/

theorem recognises_unqualified {a} (h : '.' ∉ a.name) :
    recognises is a = true ↔ ∃ i ∈ is, i.isStatic = false ∧
      (i.name = annotationPackage ++ ".*" ∨ i.name = annotationPackage ++ "." ++ a.name) := by
  have hcontains : a.name.contains '.' = false := by simpa using h
  simp only [recognises, hcontains, Bool.false_eq_true, if_false, any_eq_true, Bool.and_eq_true, Bool.not_eq_true',
    Bool.or_eq_true, beq_iff_eq]

theorem recognises_qualified {is' a} (h : '.' ∈ a.name) :
    recognises is a = recognises is' a := by
  simp only [recognises, contains_iff_mem.2 h, if_true]

def ImportsAll (is : List Import) : Prop := ∃ i ∈ is, i.isStatic = false ∧ i.name = annotationPackage ++ ".*"

/-- The imports hold the annotation, by its name or with the package as a whole. -/
def ImportsName (is : List Import) (a : Annotation) : Prop := ∃ i ∈ is, i.isStatic = false ∧
  (i.name = annotationPackage ++ ".*" ∨ i.name = annotationPackage ++ "." ++ a.name)

/-- With the whole package imported a class gets the bindings that it has under other imports exactly when these hold
all its annotations. -/
theorem agree_iff_importsName (hall : ImportsAll b.imports) {d' s u} (hs : s.Moved d u)
    (ht : t.Moved d' u) : (bindingsOf a s).Agree (bindingsOf b t) ↔
      ∀ x ∈ annotated s, '.' ∉ x.2.name → ImportsName a.imports x.2 := by
  obtain ⟨i, hi, hstatic, hname⟩ := hall
  have hb : ∀ x : Annotation, '.' ∉ x.name → recognises b.imports x = true :=
    fun x hx => (recognises_unqualified hx).2 ⟨i, hi, hstatic, .inl hname⟩
  have hmore : ∀ x ∈ annotated u, recognises a.imports x.2 = true → recognises b.imports x.2 = true := by
    intro x _ ha
    by_cases hdot : '.' ∈ x.2.name
    · rwa [recognises_qualified hdot] at ha
    · exact hb x.2 hdot
  have hmoved : (bindingsOf a s).Agree (bindingsOf b t) ↔ (bindingsOf a u).Agree (bindingsOf b u) :=
    ⟨fun h => (agree_of_moved a hs).symm.trans (h.trans (agree_of_moved b ht)),
      fun h => (agree_of_moved a hs).trans (h.trans (agree_of_moved b ht).symm)⟩
  rw [hmoved, agree_iff hmore, annotated_of_moved hs, forall_mem_map]
  refine forall₂_congr fun x hx => ?_
  by_cases hdot : '.' ∈ x.2.name
  · exact ⟨fun _ h => absurd hdot h, fun _ h => by rwa [recognises_qualified hdot] at h⟩
  · exact ⟨fun h _ => (recognises_unqualified hdot).1 (h (hb x.2 hdot)),
      fun h _ => (recognises_unqualified hdot).2 (h hdot)⟩

theorem unsupported_of_importsAll (hall : ImportsAll b.imports) (hx : x ∈ annotated t) (hdot : '.' ∉ x.2.name)
    (hforeign : isForeign x.2 = true) : x.2.simpleName ∈ (bindingsOf b t).unsupported := by
  obtain ⟨i, hi, hstatic, hname⟩ := hall
  refine mem_unsupported.2 ⟨x, mem_recognised.2 ⟨hx, ?_⟩, unsupported_of_isForeign hforeign⟩
  exact (recognises_unqualified hdot).2 ⟨i, hi, hstatic, .inl hname⟩

/-- A file that imports the whole package is read like one with the same text behind its head. Each class binds the
same in both exactly when the other file imports every annotation of the class that is written without a package.
Of that file only annotations of the package are left unsupported, of the first all that stand for no binding. -/
theorem wildcard_bindings_agree_iff {explicit wildcard : Text} {a : CompilationUnit} (ha : readUnit explicit = .ok a)
    (hbehind : behindHead explicit = behindHead wildcard) (hall : ImportsAll (imports (mask wildcard))) :
    ∃ b, readUnit wildcard = .ok b ∧ List.Forall₂ (fun s t => s.kind = t.kind ∧ s.name = t.name ∧
      ((bindingsOf a s).Agree (bindingsOf b t) ↔
        ∀ x ∈ annotated s, '.' ∉ x.2.name → ImportsName a.imports x.2) ∧
      (∀ n ∈ (bindingsOf a s).unsupported, ∃ x ∈ annotated s, x.2.simpleName = n ∧
        ('.' ∉ x.2.name → ImportsName a.imports x.2)) ∧
      ∀ x ∈ annotated t, '.' ∉ x.2.name → isForeign x.2 = true → x.2.simpleName ∈ (bindingsOf b t).unsupported)
      a.types b.types := by
  obtain ⟨b, hb, hmoved⟩ := Java.exists_readUnit_of_behindHead hbehind ha
  have hall' : ImportsAll b.imports := by
    rw [Java.imports_of_readUnit hb, (Java.placed_of_readUnit hb).2.masked_eq, (Java.placed_of_readUnit hb).1]
    exact hall
  refine ⟨b, hb, hmoved.imp ?_⟩
  rintro s t ⟨u, hs, ht⟩
  refine ⟨hs.kind.trans ht.kind.symm, hs.name.trans ht.name.symm, agree_iff_importsName hall' hs ht, ?_,
    fun x => unsupported_of_importsAll hall'⟩
  intro n hn
  obtain ⟨x, hx, hname, hrecognised⟩ := exists_of_mem_unsupported hn
  exact ⟨x, hx, hname, fun hdot => (recognises_unqualified hdot).1 hrecognised⟩

/-- A file whose class has an annotation of the package and one of another package. -/
def overriding (imported : Text) : Text :=
  "import butterknife." ++ imported ++
    ";\nclass A \x7b\n @BindView(R.id.t)\n V t;\n @Override\n void f() \x7b\x7d\n\x7d\n"

theorem behindHead_overriding : behindHead (overriding "BindView") = behindHead (overriding "*") := by
  decide +kernel

/-- The one import that the class needs leaves nothing unsupported; the import of the whole package takes the other
annotation for one of its own. -/
theorem unsupported_overriding :
    (readUnit (overriding "BindView")).toOption.map (fun u => u.types.map fun t => (bindingsOf u t).unsupported) =
      some [[]] ∧
    (readUnit (overriding "*")).toOption.map (fun u => u.types.map fun t => (bindingsOf u t).unsupported) =
      some [["Override".toList]] := by
  decide +kernel

theorem exists_readUnit_overriding : ∃ a, readUnit (overriding "BindView") = .ok a := by
  cases h : readUnit (overriding "BindView") with
  | ok a => exact ⟨a, rfl⟩
  | error e =>
    have hread : (readUnit (overriding "BindView")).isOk = true := by decide +kernel
    rw [h] at hread
    cases hread

theorem importsAll_overriding : ImportsAll (imports (mask (overriding "*"))) := by
  unfold ImportsAll
  decide +kernel

/-- The two files have the class, and its bindings differ by the annotation that is not imported. -/
theorem wildcard_bindings_agree_iff_overriding : ∃ a b, readUnit (overriding "BindView") = .ok a ∧
    readUnit (overriding "*") = .ok b ∧ List.Forall₂ (fun s t => s.name = t.name ∧
      ((bindingsOf a s).Agree (bindingsOf b t) ↔
        ∀ x ∈ annotated s, '.' ∉ x.2.name → ImportsName a.imports x.2)) a.types b.types := by
  obtain ⟨a, ha⟩ := exists_readUnit_overriding
  obtain ⟨b, hb, htypes⟩ := wildcard_bindings_agree_iff ha behindHead_overriding importsAll_overriding
  exact ⟨a, b, ha, hb, htypes.imp fun _ _ h => ⟨h.2.1, h.2.2.1⟩⟩

end Rebind.Binding
