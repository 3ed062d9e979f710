/-
Brackets at the offsets of a text, and of texts put together from pieces.

What is owed at an offset is what the brackets in front of it leave open (`owedAt`). Between two offsets where the same
is owed the code can be replaced by other code that leaves as much open as it finds (`Turns`): the brackets around it
do not notice.
-/
import Rebind.Proofs.Java.Joining
import Rebind.Proofs.Java.Nesting

namespace Rebind.Java

open Text List Option

variable {c : Char} {t : Text}

/-! ## Brackets alone -/

def isBracket (c : Char) : Bool := openers.contains c || closers.contains c

theorem not_isBracket_of_class {p} (hp : "()\x7b\x7d[]".toList.any p = false)
    (hc : p c = true) : isBracket c = false := by
  cases hb : isBracket c with
  | false => rfl
  | true =>
    have hmem : c ∈ "()\x7b\x7d[]".toList := by
      simp only [isBracket, openers, closers, Bool.or_eq_true, contains_iff_mem, mem_cons, not_mem_nil, or_false] at hb
      rcases hb with (rfl | rfl | rfl) | (rfl | rfl | rfl) <;> decide
    have hnot := any_eq_false.1 hp c hmem
    contradiction

theorem not_isBracket_of_isBlank (h : isBlank c = true) : isBracket c = false := not_isBracket_of_class (by decide) h

theorem not_isBracket_of_isNamePart (h : isNamePart c = true) : isBracket c = false :=
  not_isBracket_of_class (by decide +kernel) h

def brackets (t : Text) : Text := t.filter isBracket

theorem brackets_append (t u : Text) : brackets (t ++ u) = brackets t ++ brackets u := filter_append _ _

theorem owedStep_of_not_isBracket (h : isBracket c = false) (owed : List Char) : owedStep owed c = some owed := by
  simp only [isBracket, Bool.or_eq_false_iff] at h
  have hopen : closerOf? c = none := by
    cases hc : closerOf? c with
    | none => rfl
    | some closer =>
      rcases closerOf?_cases hc with ⟨rfl, -⟩ | ⟨rfl, -⟩ | ⟨rfl, -⟩ <;> simp [openers] at h
  simp only [owedStep, hopen, h.2]
  rfl

theorem owedAfter_brackets (owed : List Char) (t : Text) : owedAfter owed (brackets t) = owedAfter owed t := by
  induction t generalizing owed with
  | nil => rfl
  | cons c t ih =>
    by_cases hc : isBracket c = true
    · simp only [brackets, filter_cons_of_pos hc, owedAfter_cons]
      congr 1
      funext owed
      exact ih owed
    · have hstep := owedStep_of_not_isBracket (Bool.eq_false_iff.2 hc) owed
      simp only [brackets, filter_cons_of_neg hc, owedAfter_cons, hstep, bind_some]
      exact ih owed

theorem owedAfter_of_brackets_nil (h : brackets t = []) (owed : List Char) : owedAfter owed t = some owed := by
  rw [← owedAfter_brackets, h]
  rfl

theorem brackets_eq_nil (h : ∀ c ∈ t, isBracket c = false) : brackets t = [] :=
  filter_eq_nil_iff.2 fun c hc => by simp [h c hc]

/-! ## Brackets in front of an offset -/

section Offset

variable {masked : Text} {i j k : Nat}

/-- The closing brackets that are owed at an offset. -/
def owedAt (masked : Text) (i : Nat) : Option (List Char) := owedAfter [] (masked.take i)

def SameLevel (masked : Text) (i j : Nat) : Prop := owedAt masked i = owedAt masked j

theorem SameLevel.refl (masked : Text) (i : Nat) : SameLevel masked i i := rfl

theorem SameLevel.symm (h : SameLevel masked i j) : SameLevel masked j i := Eq.symm h

theorem SameLevel.trans (h : SameLevel masked i j) (h' : SameLevel masked j k) : SameLevel masked i k := Eq.trans h h'

instance (masked : Text) (i j : Nat) : Decidable (SameLevel masked i j) :=
  inferInstanceAs (Decidable (owedAt masked i = owedAt masked j))

theorem owedAt_slice (hij : i ≤ j) :
    owedAt masked j = (owedAt masked i).bind fun owed => owedAfter owed (slice masked i j) := by
  have htake : masked.take j = masked.take i ++ slice masked i j := by
    conv => lhs; rw [← take_append_drop i (masked.take j), take_take, Nat.min_eq_left hij]
    rfl
  rw [owedAt, htake, owedAfter_append]
  rfl

theorem owedAt_succ (h : masked[i]? = some c) :
    owedAt masked (i + 1) = (owedAt masked i).bind fun owed => owedStep owed c := by
  rw [owedAt, owedAt, take_add_one, h, owedAfter_append]
  congr 1
  funext owed
  simp [owedAfter]

theorem level_of_brackets_nil (hij : i ≤ j) (h : brackets (slice masked i j) = []) : SameLevel masked i j := by
  rw [SameLevel, owedAt_slice hij]
  cases owedAt masked i with
  | none => rfl
  | some owed => exact (owedAfter_of_brackets_nil h owed).symm

theorem level_of_blankWithin (hij : i ≤ j) (h : BlankWithin masked i j) : SameLevel masked i j := by
  refine level_of_brackets_nil hij (brackets_eq_nil fun c hc => not_isBracket_of_isBlank ?_)
  obtain ⟨k, hik, hkj, hk⟩ := mem_slice.1 hc
  exact h k c hik hkj hk

theorem level_skipBlanks (masked : Text) (i stop : Nat) : SameLevel masked i (skipBlanks masked i stop) :=
  level_of_blankWithin (le_skipBlanks masked i stop) (blankWithin_skipBlanks masked i stop)

theorem exists_owedAt (hwell : WellBracketed masked) (i : Nat) : ∃ owed, owedAt masked i = some owed := by
  have hall : owedAfter [] (masked.take i ++ masked.drop i) = some [] := by
    rw [take_append_drop]
    exact hwell
  rw [owedAfter_append] at hall
  obtain ⟨owed, howed, -⟩ := bind_eq_some_iff.1 hall
  exact ⟨owed, howed⟩

theorem level_partner (hwell : WellBracketed masked) (h : partner masked i = .ok j) : SameLevel masked i (j + 1) := by
  obtain ⟨closer, below, hbefore, -, hafter⟩ := owedAfter_partner hwell h
  exact hbefore.trans hafter.symm

theorem exists_owedAt_within {o c} (hwell : WellBracketed masked) (h : partner masked o = .ok c) :
    ∃ base, owedAt masked (o + 1) = some base ∧ ∀ m, o < m → m ≤ c → ∃ more, owedAt masked m = some (more ++ base) := by
  obtain ⟨closer, below, hbelow, hwithin, -⟩ := owedAfter_partner hwell h
  obtain ⟨opener, kind, hopener, hkind, hlt, -⟩ := partner_spec h
  have hopen : owedAt masked (o + 1) = some (kind :: below) := by
    rw [owedAt_succ hopener, owedAt, hbelow, bind_some]
    simp [owedStep, hkind]
  obtain ⟨more, hmore⟩ := hwithin (o + 1) (by omega) hlt
  have heq := some.inj (hopen.symm.trans hmore)
  have hlen := congrArg List.length heq
  simp only [length_cons, length_append] at hlen
  obtain rfl : more = [] := length_eq_zero_iff.1 (by omega)
  obtain rfl : kind = closer := by simpa using heq
  exact ⟨kind :: below, hopen, hwithin⟩

theorem level_inside_partner (hwell : WellBracketed masked) (h : partner masked i = .ok j) :
    SameLevel masked (i + 1) j := by
  obtain ⟨opener, closer, hi, hkind, -, hj, -⟩ := partner_spec h
  obtain ⟨owed, howed⟩ := exists_owedAt hwell i
  obtain ⟨owed', howed'⟩ := exists_owedAt hwell j
  have hlevel : owedAt masked i = owedAt masked (j + 1) := level_partner hwell h
  have hopen : owedAt masked (i + 1) = some (closer :: owed) := by
    rw [owedAt_succ hi, howed, bind_some]
    simp [owedStep, hkind]
  rw [howed, owedAt_succ hj, howed', bind_some] at hlevel
  have hclosing := mem_closers hkind
  rcases owedStep_eq_some hlevel.symm with ⟨c, hc, -⟩ | ⟨-, heq⟩ | ⟨-, hnot, -⟩
  · rw [closerOf?_of_mem_closers hclosing] at hc
    cases hc
  · rw [SameLevel, hopen, howed', heq]
  · exact absurd hclosing hnot

end Offset

/-! ## Pieces -/

/-- The text keeps its lexemes whatever follows it, and its brackets turn what is owed into something else. -/
structure Turns (owed : List Char) (u : Text) (owed' : List Char) : Prop where
  whole : Whole u
  owedAfter_eq : owedAfter owed (mask u) = some owed'

namespace Turns

variable {owed owed' owed'' : List Char} {u v : Text}

theorem nil (owed : List Char) : Turns owed [] owed := ⟨whole_nil, by simp [owedAfter]⟩

theorem append (h : Turns owed u owed') (h' : Turns owed' v owed'') : Turns owed (u ++ v) owed'' := by
  refine ⟨h.whole.append h'.whole, ?_⟩
  rw [(h.whole v).mask_append, owedAfter_append, h.owedAfter_eq, bind_some, h'.owedAfter_eq]

end Turns

theorem turns_slice {i j owed owed'} (hi : Boundary t i) (hj : Boundary t j)
    (hij : i ≤ j) (hwhole : Whole (slice t i j)) (howed : owedAt (mask t) i = some owed)
    (howed' : owedAt (mask t) j = some owed') : Turns owed (slice t i j) owed' := by
  refine ⟨hwhole, ?_⟩
  rw [owedAt_slice hij, howed, bind_some, ← hi.mask_slice hj] at howed'
  exact howed'

end Rebind.Java
