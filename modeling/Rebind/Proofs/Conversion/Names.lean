/-
The names that generated code is put together from.

Generated names, references to views and calls of handlers hold no quote, slash or bracket of their own.
-/
import Rebind.Conversion.Basic
import Rebind.Proofs.Binding.Registrations
import Rebind.Proofs.Java.Parts
import Rebind.Proofs.Layout.Match
import Rebind.Proofs.Listener.Generated

namespace Rebind

open Java Text List Bool

variable {c : Char} {t layout name className : Text} {unit : CompilationUnit} {s : BindingSet}

/-! ## Letter case -/

namespace Text

theorem isPlain_of_le (h : 0x80 ≤ c.toNat) : isPlain c = true :=
  isPlain_of_class (p := fun c => decide (0x80 ≤ c.toNat)) (by decide) (decide_eq_true h)

theorem isPlain_ofNat {n} (h : 0x80 ≤ n) : isPlain (Char.ofNat n) = true := by
  by_cases hvalid : n.isValidChar
  · rw [Char.ofNat, dif_pos hvalid]
    exact isPlain_of_le h
  · rw [Char.ofNat, dif_neg hvalid]
    decide

/-- The images of a run of code points are plain: they lie beyond ASCII, or were looked at one by one. -/
def plainRun (image length : Nat) : Bool :=
  decide (0x80 ≤ image) || (List.range length).all fun k => isPlain (Char.ofNat (image + k))

theorem isPlain_of_plainRun {image length k} (h : plainRun image length = true) (hk : k < length) :
    isPlain (Char.ofNat (image + k)) = true := by
  simp only [plainRun, or_eq_true, decide_eq_true_eq] at h
  rcases h with h | h
  · exact isPlain_ofNat (by omega)
  · exact all_eq_true.1 h k (mem_range.2 hk)

def plainImages (short : ShiftTable) : Bool := short.all fun r => plainRun r.2.2.2 (r.2.1 - r.1 + 1)

theorem all_isPlain_caseImage {long short}
    (hlong : (long.all fun r => r.2.all fun n => isPlain (Char.ofNat n)) = true)
    (hshort : plainImages short = true) (hc : isPlain c = true) :
    (caseImage long short c).all isPlain = true := by
  unfold caseImage
  split
  · next image hfind =>
    have himage := all_eq_true.1 hlong _ (mem_of_find?_eq_some hfind)
    rw [all_map]
    exact himage
  · cases hshift : short.image? c.toNat with
    | none => simpa using hc
    | some n =>
      simp only [ShiftTable.image?, Option.map_eq_some_iff] at hshift
      obtain ⟨⟨lo, hi, step, image⟩, hfind, rfl⟩ := hshift
      have hrun := all_eq_true.1 hshort _ (mem_of_find?_eq_some hfind)
      have hin := find?_some hfind
      simp only [Bool.and_eq_true, decide_eq_true_eq] at hin
      simpa using isPlain_of_plainRun hrun (k := c.toNat - lo) (by simp only; omega)

theorem forall_ascii {p : Char → Bool} (h : ((List.range 0x80).all fun n => p (Char.ofNat n)) = true)
    (hc : c.toNat < 0x80) : p c = true := by
  have := all_eq_true.1 h c.toNat (mem_range.2 hc)
  rwa [Char.ofNat_toNat] at this

theorem plainImages_toUpperTable : plainImages toUpperTable = true := by
  unfold toUpperTable casePairs numbersOf
  simp only [flatMap_cons, flatMap_nil]
  repeat rewrite [String.toList_ofList]
  decide +kernel

theorem plainImages_toLowerTable : plainImages toLowerTable = true := by
  unfold toLowerTable casePairs numbersOf
  simp only [flatMap_cons, flatMap_nil]
  repeat rewrite [String.toList_ofList]
  decide +kernel

/-- Case changes lead from letters to letters. -/
theorem all_isPlain_upperChar (hc : isPlain c = true) : (upperChar c).all isPlain = true := by
  unfold upperChar
  split
  · next hlt =>
    have := forall_ascii (p := fun c => !isPlain c || isPlain c.toUpper) (by decide +kernel) hlt
    simpa [hc] using this
  · exact all_isPlain_caseImage (by decide +kernel) plainImages_toUpperTable hc

theorem all_isPlain_lowerChar (hc : isPlain c = true) : (lowerChar c).all isPlain = true := by
  unfold lowerChar
  split
  · next hlt =>
    have := forall_ascii (p := fun c => !isPlain c || isPlain c.toLower) (by decide +kernel) hlt
    simpa [hc] using this
  · exact all_isPlain_caseImage (by decide +kernel) plainImages_toLowerTable hc

theorem all_isPlain_lowerAfter : ∀ {t} (before : Text), t.all isPlain = true →
    (lowerAfter before t).all isPlain = true
  | [], _, _ => rfl
  | c :: t, before, h => by
    simp only [all_cons, and_eq_true] at h
    have hrest := all_isPlain_lowerAfter (c :: before) h.2
    have hfirst : (if c == 'Σ' then [if nextIsCased before && !nextIsCased t then 'ς' else 'σ']
        else lowerChar c).all isPlain = true := by
      split
      · split <;> decide
      · exact all_isPlain_lowerChar h.1
    rw [lowerAfter, all_append, hfirst, hrest]
    rfl

theorem all_isPlain_toLower (h : t.all isPlain = true) : (toLower t).all isPlain = true := all_isPlain_lowerAfter [] h

end Text

namespace Naming

theorem all_isPlain_capitalize {word} (h : word.all isPlain = true) : (capitalize word).all isPlain = true := by
  cases word with
  | nil => rfl
  | cons c rest =>
    simp only [all_cons, and_eq_true] at h
    rw [capitalize, all_append, all_isPlain_upperChar h.1, all_isPlain_toLower h.2]
    rfl

theorem all_isPlain_bindingClassName (h : layout.all isPlain = true) :
    (bindingClassName layout).all isPlain = true := by
  unfold bindingClassName
  split
  · decide
  · rw [all_append, and_eq_true, all_flatMap]
    refine ⟨all_eq_true.2 fun u hu => all_isPlain_capitalize ?_, by decide⟩
    exact all_eq_true.2 fun c hc => all_eq_true.1 h c (mem_of_mem_pieces hc (mem_filter.1 hu).1).1

theorem all_isPlain_snakeCase (h : name.all isPlain = true) : (snakeCase name).all isPlain = true := by
  cases name with
  | nil => decide
  | cons c rest =>
    simp only [all_cons, and_eq_true] at h
    rw [snakeCase, all_append, all_isPlain_lowerChar h.1, all_flatMap, Bool.true_and]
    refine all_eq_true.2 fun d hd => ?_
    have hlower := all_isPlain_lowerChar (all_eq_true.1 h.2 d hd)
    unfold snakeChar
    split
    · rw [all_cons, hlower]
      decide
    · exact hlower

theorem all_isPlain_layoutNameOfClass (h : className.all isPlain = true)
    (hlayout : layoutNameOfClass className = some layout) : layout.all isPlain = true := by
  unfold layoutNameOfClass at hlayout
  split at hlayout
  · simp at hlayout
  · split at hlayout
    · next start stem hrole =>
      obtain ⟨⟨suffix, start'⟩, hmem, hrole⟩ := exists_of_findSome?_eq_some hrole
      obtain ⟨stem', hstem, heq⟩ := Option.map_eq_some_iff.1 hrole
      simp only [Prod.mk.injEq] at heq
      obtain ⟨rfl, rfl⟩ := heq
      have hstarts : (roles.all fun r => r.2.all isPlain) = true := by decide
      have hprefix : stem'.all isPlain = true := by
        unfold before? at hstem
        split at hstem
        · simp only [Option.some.injEq] at hstem
          rw [← hstem]
          exact all_eq_true.2 fun c hc => all_eq_true.1 h c (mem_of_mem_take hc)
        · simp at hstem
      simp only [Option.some.injEq] at hlayout
      rw [← hlayout, all_append, all_eq_true.1 hstarts _ hmem, all_isPlain_snakeCase hprefix]
      rfl
    · simp only [Option.some.injEq] at hlayout
      exact hlayout ▸ all_isPlain_snakeCase h

end Naming

/-! ## Layouts -/

namespace Layout

theorem layoutOfClass_cases {layouts} (h : layoutOfClass layouts className = some layout) :
    Naming.layoutNameOfClass className = some layout ∨ layout ∈ layouts := by
  unfold layoutOfClass at h
  split at h
  · simp at h
  · next guess hguess =>
    split at h
    · simp only [Option.some.injEq] at h
      exact .inl (h ▸ hguess)
    · rcases Option.or_eq_some_iff.1 h with h | ⟨-, h⟩
      · obtain ⟨h, -⟩ := Option.filter_eq_some_iff.1 h
        unfold bestMatch at h
        split at h
        · simp only [Option.some.injEq] at h
          exact .inl (h ▸ hguess)
        · split at h
          · simp at h
          · obtain ⟨⟨n, l⟩, hbest, rfl⟩ := Option.map_eq_some_iff.1 h
            have hmem := (mem_filter.1 (best_spec hbest).1).1
            obtain ⟨l', hl', heq⟩ := mem_map.1 hmem
            simp only [Prod.mk.injEq] at heq
            exact .inr (heq.2 ▸ hl')
      · simp only [Option.some.injEq] at h
        exact .inl (h ▸ hguess)

end Layout

namespace Conversion

theorem isWord_of_layoutReference? {rest} (h : layoutReference? t = some (name, rest)) :
    ∀ c ∈ name, isWord c = true := by
  simp only [layoutReference?, Option.bind_eq_bind, Option.bind_eq_some_iff] at h
  obtain ⟨u, -, v, -, h⟩ := h
  exact (run?_spec h).2.2

theorem all_isPlain_layoutOf {type known}
    (htype : ∀ c ∈ type.name, isWord c = true) (hknown : ∀ name ∈ known, name.all isPlain = true) (anchor : Anchor) :
    (layoutOf unit type anchor known).all isPlain = true := by
  unfold layoutOf
  cases hanchor : anchor.layout? unit with
  | some layout =>
    unfold Anchor.layout? at hanchor
    split at hanchor
    · obtain ⟨m, hm, rfl⟩ := Option.map_eq_some_iff.1 hanchor
      obtain ⟨n, rest, -, haccept, -⟩ := isMatch_of_searchFrom hm
      exact all_eq_true.2 fun c hc => isPlain_of_isWord (isWord_of_layoutReference? haccept c hc)
    · simp at hanchor
  | none =>
    cases hclass : Layout.layoutOfClass known type.name with
    | none => rfl
    | some layout =>
      rcases Layout.layoutOfClass_cases hclass with hname | hmem
      · exact Naming.all_isPlain_layoutNameOfClass
          (all_eq_true.2 fun c hc => isPlain_of_isWord (htype c hc)) hname
      · exact hknown layout hmem

end Conversion

/-! ## Bindings -/

namespace Binding

theorem all_isPlain_of_isPlainName (h : isPlainName t = true) : t.all isPlain = true := by
  cases t with
  | nil => rfl
  | cons c t =>
    simp only [isPlainName, and_eq_true, or_eq_true, beq_iff_eq] at h
    rw [all_cons, and_eq_true]
    refine ⟨?_, all_eq_true.2 fun d hd => isPlain_of_isWord (all_eq_true.1 h.2 d hd)⟩
    rcases h.1 with hc | rfl
    · exact isPlain_of_isWord (isWord_of_isAsciiLetter hc)
    · decide

/-- The id and the expression that refers to it are plain. -/
def IdRef.isPlain (r : IdRef) : Bool := r.id.all Java.isPlain && r.ref.all Java.isPlain

theorem isPlain_of_idRef? {item r} (h : idRef? item = some r) : r.isPlain = true := by
  unfold idRef? at h
  split at h
  · next id marker holder back _ =>
    split at h
    · next hparts =>
      simp only [Bool.and_eq_true] at hparts
      simp only [Option.some.injEq] at h
      subst h
      have hid := all_isPlain_of_isPlainName hparts.1.1.1
      have hback : (back.reverse.flatMap (· ++ ['.'])).all isPlain = true := by
        rw [all_flatMap, all_reverse]
        refine all_eq_true.2 fun p hp => ?_
        rw [all_append, all_isPlain_of_isPlainName (all_eq_true.1 hparts.2 p hp)]
        decide
      simp only [IdRef.isPlain, all_append, hid, hback, Bool.true_and, Bool.and_true]
      decide
    · simp at h
  · simp at h

theorem isPlain_of_mem_idRefs {value} : ∀ r ∈ idRefs value, r.isPlain = true := by
  intro r hr
  obtain ⟨item, -, hr⟩ := mem_filterMap.1 hr
  exact isPlain_of_idRef? hr

/-- What generated code is written with for the bindings is closed. -/
structure BindingSet.Written (s : BindingSet) : Prop where
  fields : ∀ b ∈ s.fields, Closed b.name ∧ Closed b.ref
  handlers : ∀ b ∈ s.handlers, Closed b.call ∧ b.targets.all IdRef.isPlain = true

theorem BindingSet.Written.addField (h : s.Written) {f}
    (hf : ∀ c ∈ f.name, isWord c = true) (a : Annotation) : (s.addField f a).Written := by
  have hname : Closed f.name := closed_of_plain (all_eq_true.2 fun c hc => isPlain_of_isWord (hf c hc))
  unfold BindingSet.addField
  split
  · next target htarget =>
    refine ⟨fun b hb => ?_, h.handlers⟩
    rcases mem_append.1 hb with hb | hb
    · exact h.fields b hb
    · have hplain := isPlain_of_mem_idRefs target (by rw [htarget]; simp)
      simp only [IdRef.isPlain, and_eq_true] at hplain
      rw [mem_singleton.1 hb]
      exact ⟨hname, closed_of_plain hplain.2⟩
  · exact ⟨h.fields, h.handlers⟩

theorem BindingSet.Written.addHandler (h : s.Written) {m}
    (hm : ∀ c ∈ m.name, isWord c = true) (hparams : ∀ p ∈ m.params, Closed p.type) (a : Annotation)
    (kind : Listener.Kind) : (s.addHandler m a kind).Written := by
  have hname : Closed m.name := closed_of_plain (all_eq_true.2 fun c hc => isPlain_of_isWord (hm c hc))
  simp only [BindingSet.addHandler]
  split
  · exact ⟨h.fields, h.handlers⟩
  · next targets _ =>
    refine ⟨h.fields, fun b hb => ?_⟩
    rcases mem_append.1 hb with hb | hb
    · exact h.handlers b hb
    · rw [mem_singleton.1 hb]
      refine ⟨Listener.closed_callOf (Listener.isPlain_callback (Listener.callbackFor_mem _ _ _)) hname hparams, ?_⟩
      exact all_eq_true.2 isPlain_of_mem_idRefs

/-- What bindings are written with is closed where the types of the handlers' parameters are. -/
theorem written_bindingsOf {type} (hfields : ∀ f ∈ type.fields, ∀ c ∈ f.name, isWord c = true)
    (hmethods : ∀ m ∈ type.methods, (∀ c ∈ m.name, isWord c = true) ∧
      ∀ a ∈ m.annotations, recognises unit.imports a = true → ∀ p ∈ m.params, Closed p.type) :
    (bindingsOf unit type).Written := by
  have hempty : BindingSet.Written {} := ⟨by simp, by simp⟩
  refine List.foldlRecOn _ _ (List.foldlRecOn _ _ hempty fun s hs f hf => ?_) fun s hs m hm => ?_
  · refine List.foldlRecOn _ _ hs fun s hs a _ => ?_
    split
    · exact hs.addField (hfields f hf) a
    · exact ⟨hs.fields, hs.handlers⟩
  · refine List.foldlRecOn _ _ hs fun s hs a ha => ?_
    obtain ⟨ha, hrecognised⟩ := mem_filter.1 ha
    split
    · exact hs.addHandler (hmethods m hm).1 ((hmethods m hm).2 a ha hrecognised) a _
    · exact ⟨hs.fields, hs.handlers⟩

theorem closed_refOf {b : HandlerBinding} (h : b.targets.all IdRef.isPlain = true) {id} (hid : id ∈ b.ids) :
    Closed (b.refOf id) := by
  obtain ⟨r, hr, -, href⟩ := BindingSet.exists_refOf hid
  have hplain := all_eq_true.1 h r hr
  simp only [IdRef.isPlain, and_eq_true] at hplain
  exact href ▸ closed_of_plain hplain.2

end Binding

end Rebind
