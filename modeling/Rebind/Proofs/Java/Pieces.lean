/-
Reading a text that is put together from pieces.

`Stands masked i t` says that `t` is written at offset `i`. Where blanks, a word, a bracketed piece or code that a
semicolon ends stand at an offset, the readers go exactly to the end of that piece (`skipBlanks_of_stands`,
`name?_of_stands`, `partner_of_stands`).
-/
import Rebind.Proofs.Java.Balance

namespace Rebind.Java

open Text List Option

/-! ## What stands at an offset -/

def Stands (masked : Text) (i : Nat) (t : Text) : Prop := t <+: masked.drop i

@[simp] theorem stands_nil (masked : Text) (i : Nat) : Stands masked i [] := nil_prefix

variable {masked t u g : Text} {i stop : Nat} {c opener closer : Char}

theorem stands_append : Stands masked i (t ++ u) ↔ Stands masked i t ∧ Stands masked (i + t.length) u := by
  constructor
  · rintro ⟨rest, h⟩
    refine ⟨⟨u ++ rest, by rw [← h, append_assoc]⟩, rest, ?_⟩
    rw [← drop_drop, ← h, append_assoc, drop_left]
  · rintro ⟨⟨rest, h⟩, rest', h'⟩
    rw [← drop_drop, ← h, drop_left] at h'
    exact ⟨rest', by rw [append_assoc, h', h]⟩

theorem Stands.split {v} (h : Stands masked i (t ++ u ++ v)) :
    Stands masked i t ∧ Stands masked (i + t.length) u ∧ Stands masked (i + (t ++ u).length) v := by
  rwa [stands_append, stands_append, and_assoc] at h

theorem stands_cons : Stands masked i (c :: t) ↔ masked[i]? = some c ∧ Stands masked (i + 1) t := by
  rw [show c :: t = [c] ++ t from rfl, stands_append]
  refine and_congr ?_ Iff.rfl
  rw [Stands, singleton_prefix_iff_head?_eq_some, head?_drop]

theorem Stands.drop (h : Stands masked i t) : masked.drop i = t ++ masked.drop (i + t.length) := by
  obtain ⟨rest, h⟩ := h
  rw [← drop_drop, ← h, drop_left]

theorem Stands.le_length (h : Stands masked i t) (ht : t ≠ []) : i + t.length ≤ masked.length := by
  have hlen := congrArg List.length h.drop
  have hpos := length_pos_iff.2 ht
  rw [length_append, length_drop, length_drop] at hlen
  omega

theorem Stands.slice {masked t i} (h : Stands masked i t) : slice masked i (i + t.length) = t := by
  rw [Text.slice, drop_take, h.drop, Nat.add_sub_cancel_left, take_left]

theorem stands_slice (masked : Text) (i j : Nat) : Stands masked i (slice masked i j) := by
  rw [Text.slice, drop_take]
  exact take_prefix _ _

theorem Stands.slice_stop (h : Stands masked i t) (hstop : i + t.length ≤ stop) :
    Text.slice masked i stop = t ++ Text.slice masked (i + t.length) stop := by
  rw [Text.slice, Text.slice, drop_take, drop_take, h.drop, take_append, take_of_length_le (by omega)]
  congr 2
  omega

/-! ## Blanks and words -/

/-- The limit is reached, or no blank stands there. -/
def Solid (masked : Text) (stop i : Nat) : Prop := i = stop ∨ ∃ c, masked[i]? = some c ∧ isBlank c = false

theorem skipBlanks_of_stands (hg : Stands masked i g) (hblank : isAllBlank g = true) (hstop : i + g.length ≤ stop)
    (hsolid : Solid masked stop (i + g.length)) : skipBlanks masked i stop = i + g.length := by
  have hnext : (Text.slice masked (i + g.length) stop).takeWhile isBlank = [] := by
    cases hslice : Text.slice masked (i + g.length) stop with
    | nil => rfl
    | cons d rest =>
      have hd : (Text.slice masked (i + g.length) stop)[0]? = some d := by rw [hslice, getElem?_cons_zero]
      rw [getElem?_slice, Nat.add_zero] at hd
      split at hd
      · rcases hsolid with hend | ⟨c, hc, hsolid⟩
        · omega
        · obtain rfl : d = c := some.inj (hd.symm.trans hc)
          rw [takeWhile_cons_of_neg (by simp [hsolid])]
      · simp at hd
  rw [skipBlanks, hg.slice_stop hstop, takeWhile_append_of_pos (all_eq_true.1 hblank), hnext, append_nil]

/-- The text is a name that the language's tools find: it starts with an ASCII letter. -/
def isName (t : Text) : Bool := t.head?.any isNameStart && t.all isNamePart

def NameEnds (masked : Text) (i : Nat) : Prop := ∀ c, masked[i]? = some c → isNamePart c = false

theorem takeWhile_of_stands {p} (h : Stands masked i t) (ht : t.all p = true)
    (hend : ∀ c, masked[i + t.length]? = some c → p c = false) :
    (masked.drop i).takeWhile p = t ∧ (masked.drop i).dropWhile p = masked.drop (i + t.length) := by
  have hnext : (masked.drop (i + t.length)).takeWhile p = [] ∧
      (masked.drop (i + t.length)).dropWhile p = masked.drop (i + t.length) := by
    cases hdrop : masked.drop (i + t.length) with
    | nil => simp
    | cons c rest =>
      have hc : masked[i + t.length]? = some c := by rw [← head?_drop, hdrop, head?_cons]
      simp [hend c hc]
  rw [h.drop, takeWhile_append_of_pos (all_eq_true.1 ht), dropWhile_append_of_pos (all_eq_true.1 ht),
    hnext.1, hnext.2, append_nil]
  exact ⟨rfl, rfl⟩

theorem name?_of_stands {masked word i} (h : Stands masked i word) (hword : isName word = true)
    (hend : NameEnds masked (i + word.length)) :
    name? (masked.drop i) = some (word, masked.drop (i + word.length)) := by
  simp only [isName, Bool.and_eq_true] at hword
  obtain ⟨htake, hdrop⟩ := takeWhile_of_stands h hword.2 hend
  cases word with
  | nil => simp at hword
  | cons c word =>
    have hc : isNameStart c = true := by simpa using hword.1
    have hpart : isNamePart c = true := (all_eq_true.1 hword.2) c (by simp)
    rw [h.drop, cons_append, takeWhile_cons_of_pos hpart, List.cons.injEq] at htake
    rw [h.drop, cons_append, dropWhile_cons_of_pos hpart] at hdrop
    rw [h.drop, cons_append, name?, if_pos hc, htake.2, hdrop]

theorem isNamePart_of_isNameStart (h : isNameStart c = true) : isNamePart c = true := by
  simp only [isNameStart, Bool.or_eq_true, beq_iff_eq] at h
  rcases h with (h | rfl) | rfl
  · simp [isNamePart, isWord_of_isAsciiLetter h]
  · decide
  · decide

theorem takeWhile_of_name? {word rest} (h : name? t = some (word, rest)) : t.takeWhile isNamePart = word := by
  cases t with
  | nil => simp [name?] at h
  | cons c t =>
    rw [name?] at h
    split at h
    · next hc =>
      simp only [some.injEq, Prod.mk.injEq] at h
      rw [takeWhile_cons_of_pos (isNamePart_of_isNameStart hc), h.1]
    · simp at h

/-! ## Brackets -/

theorem closeAfter_of_owed {opener closer} (hkind : closerOf? opener = some closer) {rest : Text} :
    ∀ {b extra pos}, owedAfter extra b = some [] →
    closeAfter opener closer (extra.count closer + 1) pos (b ++ closer :: rest) = some (pos + b.length)
  | [], extra, pos, h => by
    obtain rfl : extra = [] := by simpa [owedAfter] using h
    have hne : closer ≠ opener := by
      rintro rfl
      simp [closerOf?_of_mem_closers (mem_closers hkind)] at hkind
    simp [closeAfter, hne]
  | c :: b, extra, pos, h => by
    obtain ⟨owed, hstep, hrest⟩ := bind_eq_some_iff.1 h
    rw [cons_append, closeAfter_of_owedStep hkind hstep, closeAfter_of_owed hkind hrest, length_cons,
      show pos + (b.length + 1) = pos + 1 + b.length by omega]

/-- Code that nests its brackets, between two of one kind. -/
def Enclosed (opener closer : Char) (t : Text) : Prop := ∃ b, WellBracketed b ∧ t = opener :: (b ++ [closer])

theorem Enclosed.length_pos (h : Enclosed opener closer t) : 2 ≤ t.length := by
  obtain ⟨b, -, rfl⟩ := h
  simp

theorem Enclosed.getElem? (h : Enclosed opener closer t) (hat : Stands masked i t) : masked[i]? = some opener := by
  obtain ⟨b, -, rfl⟩ := h
  exact (stands_cons.1 hat).1

theorem partner_of_stands (h : Enclosed opener closer t) (hkind : closerOf? opener = some closer)
    (hat : Stands masked i t) : partner masked i = .ok (i + t.length - 1) := by
  obtain ⟨b, hb, rfl⟩ := h
  have hdrop : masked.drop i = opener :: (b ++ closer :: masked.drop (i + (b.length + 2))) := by
    rw [hat.drop]
    simp
  have hclose := @closeAfter_of_owed opener closer hkind (masked.drop (i + (b.length + 2))) b [] (i + 1) hb
  rw [count_nil, Nat.zero_add] at hclose
  rw [partner, hdrop]
  simp only [hkind, hclose, length_cons, length_append, length_nil, Except.ok.injEq]
  omega

/-! ## Semicolons -/

theorem semicolonAfter?_append {rest depth} : ∀ {b extra pos},
    owedAfter extra b = some [] →
    (∀ u v owed, b = u ++ ';' :: v → owedAfter extra u = some owed → 0 < owed.length + depth) →
    semicolonAfter? ↑(extra.length + depth) pos (b ++ rest) = semicolonAfter? depth (pos + b.length) rest
  | [], extra, pos, h, _ => by
    obtain rfl : extra = [] := by simpa [owedAfter] using h
    simp
  | c :: b, extra, pos, h, hopen => by
    obtain ⟨owed, hstep, hrest⟩ := Option.bind_eq_some_iff.1 h
    have ih := @semicolonAfter?_append rest depth b owed (pos + 1) hrest fun u v owed' hb hu =>
      hopen (c :: u) v owed' (by rw [hb, cons_append]) (by rw [owedAfter_cons, hstep, Option.bind_some, hu])
    have hgoes : ¬(c == ';' && (↑(extra.length + depth) : Int) == 0) = true := by
      simp only [Bool.and_eq_true, beq_iff_eq, not_and]
      rintro rfl hzero
      have := hopen [] b extra rfl rfl
      omega
    rw [cons_append, semicolonAfter?, if_neg hgoes, length_cons,
      show pos + (b.length + 1) = pos + 1 + b.length by omega, ← ih]
    have := length_of_owedStep hstep
    congr 1
    omega

/-- A declaration goes on behind the text: no semicolon in it ends the declaration, and no bracket stays open. -/
def RunsOn (t : Text) : Prop := ∀ pos rest, semicolonAfter? 0 pos (t ++ rest) = semicolonAfter? 0 (pos + t.length) rest

theorem RunsOn.append (ht : RunsOn t) (hu : RunsOn u) : RunsOn (t ++ u) := by
  intro pos rest
  rw [append_assoc, ht, hu, length_append, Nat.add_assoc]

/-- Code that nests its brackets and has no semicolon outside of them. -/
structure Unended (t : Text) : Prop where
  nests : WellBracketed t
  goesOn : ∀ u v, t = u ++ ';' :: v → ¬WellBracketed u

theorem unended_iff : Unended t ↔ WellBracketed t ∧ ∀ k < t.length, t[k]? = some ';' → ¬WellBracketed (t.take k) := by
  constructor
  · rintro ⟨hnests, hgoesOn⟩
    refine ⟨hnests, fun k hk hc => hgoesOn (t.take k) (t.drop (k + 1)) ?_⟩
    rw [getElem?_eq_getElem hk, some.injEq] at hc
    rw [← hc, ← drop_eq_getElem_cons hk, take_append_drop]
  · rintro ⟨hnests, hgoesOn⟩
    refine ⟨hnests, ?_⟩
    rintro u v rfl
    have hnot := hgoesOn u.length (by simp) (by simp)
    rwa [take_left] at hnot

instance (t : Text) : Decidable (Unended t) := decidable_of_iff _ unended_iff.symm

theorem Unended.runsOn (h : Unended t) : RunsOn t := by
  intro pos rest
  refine @semicolonAfter?_append rest 0 t [] pos h.nests fun u v owed ht hu => ?_
  cases owed with
  | nil => exact absurd hu (h.goesOn u v ht)
  | cons c owed => simp

theorem Enclosed.runsOn (h : Enclosed opener closer t) (hkind : closerOf? opener = some closer) : RunsOn t := by
  intro pos rest
  obtain ⟨b, hb, rfl⟩ := h
  have hinner := @semicolonAfter?_append (closer :: rest) 1 b [] (pos + 1) hb fun u v owed _ _ => by omega
  have hends : semicolonAfter? 1 (pos + 1 + b.length) (closer :: rest) =
      semicolonAfter? 0 (pos + 1 + b.length + 1) rest := by
    rcases closerOf?_cases hkind with ⟨-, rfl⟩ | ⟨-, rfl⟩ | ⟨-, rfl⟩ <;>
      simp [semicolonAfter?, bracketStep, openers, closers]
  have hopens : semicolonAfter? 0 pos (opener :: (b ++ closer :: rest)) =
      semicolonAfter? 1 (pos + 1) (b ++ closer :: rest) := by
    rcases closerOf?_cases hkind with ⟨rfl, -⟩ | ⟨rfl, -⟩ | ⟨rfl, -⟩ <;>
      simp [semicolonAfter?, bracketStep, openers]
  rw [cons_append, append_assoc, singleton_append, hopens]
  refine (hinner.trans hends).trans ?_
  simp only [length_cons, length_append, length_nil]
  congr 1
  omega

theorem unended_of_forall (h : ∀ c ∈ t, isBracket c = false ∧ c ≠ ';') : Unended t where
  nests := owedAfter_of_brackets_nil (brackets_eq_nil fun c hc => (h c hc).1) []
  goesOn := by
    rintro u v rfl
    exact absurd rfl (h ';' (by simp)).2

theorem unended_of_blank (h : isAllBlank g = true) : Unended g := by
  refine unended_of_forall fun c hc => ⟨not_isBracket_of_isBlank (all_eq_true.1 h c hc), ?_⟩
  rintro rfl
  have hblank := all_eq_true.1 h ';' hc
  revert hblank
  decide

theorem declarationEnd_of_stands (ht : RunsOn t) (hat : Stands masked i (t ++ [';'])) (hstop : i + t.length < stop) :
    declarationEnd masked i stop = .ok (i + t.length + 1) := by
  have hslice : Text.slice masked i stop = t ++ [';'] ++ Text.slice masked (i + (t ++ [';']).length) stop :=
    hat.slice_stop (by rw [length_append, length_singleton]; omega)
  rw [declarationEnd, hslice, append_assoc, ht]
  simp [semicolonAfter?]

end Rebind.Java
