/-
What the parts of a file were read from. So it is known what names are made of, and that no slash or quote in front of a
member could grow together with something else (`Clear`).
-/
import Rebind.Proofs.Java.Edges

namespace Rebind.Java

open Text List Except

variable {i : Nat} {f : Field} {m : Method}

/-! ## Nothing in front that could grow together with what follows -/

/-- No slash and no quote stands in front of the offset. -/
def Clear (masked : Text) (j : Nat) : Prop := charBefore masked j ≠ some '/' ∧ charBefore masked j ≠ some '"'

instance (masked : Text) (j : Nat) : Decidable (Clear masked j) := inferInstanceAs (Decidable (_ ∧ _))

section Clear

variable {masked : Text} {i j : Nat}

theorem clear_of_last {c} (h : masked[j - 1]? = some c) (hslash : c ≠ '/') (hquote : c ≠ '"') :
    Clear masked j := by
  cases j with
  | zero => exact ⟨by simp [charBefore], by simp [charBefore]⟩
  | succ j =>
    rw [Nat.add_sub_cancel] at h
    exact ⟨by simp [charBefore, h, hslash], by simp [charBefore, h, hquote]⟩

theorem EndsCode.clear (h : EndsCode masked j) : Clear masked j := by
  obtain ⟨c, hc, hget⟩ := h
  simp only [closers, mem_cons, not_mem_nil, or_false] at hc
  rcases hc with rfl | rfl | rfl | rfl <;> exact clear_of_last hget (by decide) (by decide)

theorem Clear.skipBlanks (h : Clear masked i) (stop : Nat) : Clear masked (skipBlanks masked i stop) := by
  rcases Nat.eq_or_lt_of_le (le_skipBlanks masked i stop) with heq | hlt
  · rwa [← heq]
  · have hblank := blankWithin_skipBlanks masked i stop
    cases hget : masked[Text.skipBlanks masked i stop - 1]? with
    | none =>
      generalize Text.skipBlanks masked i stop = k at *
      cases k with
      | zero => omega
      | succ k =>
        rw [Nat.add_sub_cancel] at hget
        exact ⟨by simp [charBefore, hget], by simp [charBefore, hget]⟩
    | some c =>
      have hc := hblank _ c (by omega) (by omega) hget
      exact clear_of_last hget (by rintro rfl; revert hc; decide) (by rintro rfl; revert hc; decide)

end Clear

/-! ## Annotations -/

section Annotations

variable {text masked : Text}

theorem annotationName?_last {t name rest} (h : annotationName? t = some (name, rest)) :
    ∃ front c, t = '@' :: front ++ c :: rest ∧ brackets front = [] ∧ isDotted c = true := by
  simp only [annotationName?] at h
  obtain ⟨u, hu, h⟩ := Option.bind_eq_some_iff.1 h
  rw [after?_eq_some] at hu
  have hsplit := (@List.takeWhile_append_dropWhile _ isBlank u).symm
  have hblanks : brackets (u.takeWhile isBlank) = [] :=
    brackets_eq_nil fun c hc => not_isBracket_of_isBlank (all_eq_true.1 all_takeWhile c hc)
  split at h
  · next c v hv =>
    split at h
    · next hc =>
      simp only [Option.some.injEq, Prod.mk.injEq] at h
      obtain ⟨-, rfl⟩ := h
      have hletter : isDotted c = true := by
        simp only [Bool.or_eq_true, beq_iff_eq] at hc
        rcases hc with hc | rfl
        · simp [isDotted, isWord_of_isAsciiLetter hc]
        · decide
      have hdotted : ∀ {d}, isDotted d = true → isBracket d = false :=
        fun hd => not_isBracket_of_class (by decide +kernel) hd
      have hrun := (@List.takeWhile_append_dropWhile _ isDotted v).symm
      -- the name ends with its first letter or with a character of the run behind that
      rcases eq_nil_or_concat (v.takeWhile isDotted) with hnil | ⟨front, d, hconcat⟩
      · refine ⟨u.takeWhile isBlank, c, ?_, hblanks, hletter⟩
        rw [hnil, nil_append] at hrun
        rw [← hrun, hu]
        conv => lhs; rw [hsplit]
        rw [show u.dropWhile isBlank = c :: v from hv]
        rfl
      · have hall : ∀ e ∈ front ++ [d], isDotted e = true := by
          intro e he
          refine all_eq_true.1 (all_takeWhile (l := v)) e ?_
          rw [hconcat]
          simpa using he
        refine ⟨u.takeWhile isBlank ++ c :: front, d, ?_, ?_, hall d (by simp)⟩
        · rw [hconcat, concat_eq_append] at hrun
          rw [hu]
          conv => lhs; rw [hsplit, show u.dropWhile isBlank = c :: v from hv, hrun]
          simp
        · rw [brackets_append, hblanks, nil_append]
          refine brackets_eq_nil fun e he => ?_
          rcases mem_cons.1 he with rfl | he
          · exact hdotted hletter
          · exact hdotted (hall e (by simp [he]))
    · simp at h
  · simp at h

theorem annotationAt_level {a} (h : annotationAt text masked i = .ok a) :
    Clear masked a.span.stop ∧ (WellBracketed masked → SameLevel masked i a.span.stop) := by
  simp only [annotationAt] at h
  split at h
  · simp at h
  · next name rest hname =>
    obtain ⟨front, c, hsplit, hfront, hc⟩ := annotationName?_last hname
    have hlen := congrArg List.length hsplit
    simp only [length_drop, length_append, length_cons] at hlen
    have hlevel : SameLevel masked i (masked.length - rest.length) := by
      refine level_of_brackets_nil (by omega) ?_
      have hslice : slice masked i (masked.length - rest.length) = '@' :: front ++ [c] := by
        rw [slice, drop_take, hsplit, append_cons, take_left' (by simp; omega)]
      rw [hslice, brackets_append, show brackets ('@' :: front) = brackets front from rfl, hfront]
      exact brackets_eq_nil (t := [c]) fun d hd => by
        rw [mem_singleton.1 hd]
        exact not_isBracket_of_class (by decide +kernel) hc
    split at h
    · obtain ⟨close, hclose, rfl⟩ := bind_pure_eq_ok.1 h
      refine ⟨(endsCode_partner hclose).clear, fun hwell => ?_⟩
      exact (hlevel.trans (level_skipBlanks masked _ _)).trans (level_partner hwell hclose)
    · simp only [ok.injEq] at h
      subst h
      refine ⟨?_, fun _ => hlevel⟩
      have hlast : masked[masked.length - rest.length - 1]? = some c := by
        have hget := congrArg (·[front.length + 1]?) hsplit
        simp only [getElem?_drop, cons_append, getElem?_cons_succ,
          getElem?_append_right (Nat.le_refl _), Nat.sub_self, getElem?_cons_zero] at hget
        rw [← hget]
        congr 1
        omega
      exact clear_of_last hlast (by rintro rfl; revert hc; decide +kernel) (by rintro rfl; revert hc; decide +kernel)

theorem mem_annotationsFrom {stop i k as}
    (h : annotationsFrom text masked stop i = .ok (as, k)) (hi : Clear masked i) :
    ∀ a ∈ as, annotationAt text masked a.span.start = .ok a ∧ Clear masked a.span.start := by
  have hij := le_skipBlanks masked i stop
  rw [annotationsFrom] at h
  split at h
  · next hj =>
    split at h
    · obtain ⟨a, ha, h⟩ := bind_eq_ok.1 h
      obtain ⟨hstart, hlt, -⟩ := annotationAt_spec ha
      rw [dif_pos hlt] at h
      obtain ⟨⟨more, k'⟩, hmore, h⟩ := bind_eq_ok.1 h
      simp only [pure_eq_ok, Prod.mk.injEq] at h
      obtain ⟨rfl, rfl⟩ := h
      intro b hb
      rcases mem_cons.1 hb with rfl | hb
      · rw [hstart]
        exact ⟨ha, hi.skipBlanks stop⟩
      · exact mem_annotationsFrom hmore (annotationAt_level ha).1 b hb
    · simp only [ok.injEq, Prod.mk.injEq] at h
      obtain ⟨rfl, rfl⟩ := h
      simp
  · simp only [ok.injEq, Prod.mk.injEq] at h
    obtain ⟨rfl, rfl⟩ := h
    simp
termination_by stop - i

end Annotations

/-! ## Members -/

section Members

variable {text masked className : Text} {stop start : Nat}

theorem exists_memberAt {ms} (h : membersFrom text masked className stop i = .ok ms)
    (hi : Clear masked i) : ∀ m ∈ ms, ∃ start, Clear masked start ∧
    memberAt text masked className stop start = .ok m := by
  intro m hm
  have hsemicolon : ∀ {j}, masked[j]? = some ';' → EndsCode masked (j + 1) := fun hj => ⟨';', by simp, hj⟩
  obtain ⟨j, hj, -, -, hmember⟩ := mem_membersFrom (fun hj => (hsemicolon hj).clear)
    (fun hm => (memberAt_endsCode hm).clear) hi h m hm
  exact ⟨_, hj.skipBlanks stop, hmember⟩

theorem annotationsFrom_of_field (h : memberAt text masked className stop start = .ok (.field f)) :
    f.span.start = start ∧ ∃ i, annotationsFrom text masked stop start = .ok (f.annotations, i) := by
  obtain ⟨as, i, k, has, -, -, h⟩ := memberAt_cases h
  rcases h with ⟨b, closing, -, -, -, -, h | h⟩ | ⟨method, -, h⟩ | ⟨last, -, ⟨g, hg, h⟩ | h⟩
  · cases h
  · cases h
  · cases h
  · obtain rfl := Member.field.inj h
    obtain ⟨hspan, hannot, -⟩ := fieldOf?_spec hg
    exact ⟨by rw [hspan], i, by rw [hannot]; exact has⟩
  · cases h

theorem methodAt_of_method (h : memberAt text masked className stop start = .ok (.method m)) :
    ∃ i paren, annotationsFrom text masked stop start = .ok (m.annotations, i) ∧
      methodAt masked className stop start i paren m.annotations = .ok m := by
  obtain ⟨as, i, k, has, -, -, h⟩ := memberAt_cases h
  rcases h with ⟨b, closing, -, -, -, -, h | h⟩ | ⟨method, hmethod, h⟩ | ⟨last, -, ⟨g, hg, h⟩ | h⟩
  · cases h
  · cases h
  · obtain rfl := Member.method.inj h
    have hannot := (methodAt_spec hmethod).2.1
    exact ⟨i, k, by rw [hannot]; exact has, by rw [hannot]; exact hmethod⟩
  · cases h
  · cases h

end Members

/-! ## Types -/

structure TypeDecl.ReadFrom (text : Text) (t : TypeDecl) : Prop where
  name : ∀ c ∈ t.name, isWord c = true
  memberIndent : ∀ c ∈ t.memberIndent, isBlank c = true
  members : ∀ m ∈ t.members, ∃ start, Clear (mask text) start ∧
    memberAt text (mask text) t.name t.body.closing start = .ok m
  body : t.kind = .classType →
    membersFrom text (mask text) t.name t.body.closing (t.body.opening + 1) = .ok t.members

/-- Every type, member and annotation of a file comes from a call of its reader. -/
theorem readFrom_of_readUnit {text u} (h : readUnit text = .ok u) :
    ∀ t ∈ u.types, t.ReadFrom text := by
  intro t ht
  obtain ⟨head, hread, hword⟩ := readAt_of_readUnit h ht
  have hname : ∀ c ∈ t.name, isWord c = true := hread.name ▸ hword
  rcases hread.members with hmembers | ⟨hkind, hnone⟩
  · exact ⟨hname, hread.memberIndent,
      exists_memberAt hmembers (clear_of_last (c := '{') hread.brace (by decide) (by decide)), fun _ => hmembers⟩
  · exact ⟨hname, hread.memberIndent, by simp [hnone], fun heq => absurd heq hkind⟩

namespace TypeDecl.ReadFrom

variable {text : Text} {t : TypeDecl} (h : t.ReadFrom text)

include h

theorem field (hf : f ∈ t.fields) : Clear (mask text) f.span.start ∧
    ∀ a ∈ f.annotations, annotationAt text (mask text) a.span.start = .ok a ∧ Clear (mask text) a.span.start := by
  obtain ⟨start, hclear, hm⟩ := h.members _ (mem_members_of_field hf)
  obtain ⟨hstart, i, has⟩ := annotationsFrom_of_field hm
  exact ⟨hstart ▸ hclear, mem_annotationsFrom has hclear⟩

theorem method (hm : m ∈ t.methods) : ((∀ c ∈ m.name, isWord c = true) ∧
    ∀ p ∈ m.params, ∀ c ∈ p.name, isWord c = true) ∧
    ∀ a ∈ m.annotations, annotationAt text (mask text) a.span.start = .ok a ∧ Clear (mask text) a.span.start := by
  obtain ⟨start, hclear, hm⟩ := h.members _ (mem_members_of_method hm)
  obtain ⟨i, paren, has, hmethod⟩ := methodAt_of_method hm
  exact ⟨(methodAt_spec hmethod).2.2.1, mem_annotationsFrom has hclear⟩

end TypeDecl.ReadFrom

end Rebind.Java
