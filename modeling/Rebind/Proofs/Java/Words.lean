/-
Reading a text word by word.

`WordFree words t` says that none of the given words is a whole word of `t`.
-/
import Rebind.Proofs.Java.StatementGrammar

namespace Rebind.Java

open Text List

/-! ## Where words end -/

def endsInWord (t : Text) : Bool := t.getLast?.any isWord

variable {t g u w rest : Text} {c : Char} {prev : Option Char} {pos : Nat}

theorem wordEnds_iff : wordEnds t = true ↔ ∀ c, t.head? = some c → isWord c = false := by
  cases t <;> simp [wordEnds]

theorem wordEnds_append (h : wordEnds t = true) (ht : t ≠ []) (u : Text) : wordEnds (t ++ u) = true := by
  cases t with
  | nil => exact absurd rfl ht
  | cons c t => exact h

theorem wordEnds_blanks (hg : isAllBlank g = true) (hu : wordEnds u = true) : wordEnds (g ++ u) = true :=
  wordEnds_iff.2 (not_isNamePart_of_blanks (fun _ => isWord_of_isBlank) hg (wordEnds_iff.1 hu))

theorem wordEnds_of_blank (hg : isAllBlank g = true) : wordEnds g = true := by
  have h := wordEnds_blanks (u := []) hg rfl
  rwa [append_nil] at h

theorem endsInWord_append (hu : u ≠ []) : endsInWord (t ++ u) = endsInWord u := by
  cases hlast : u.getLast? with
  | none => exact absurd (getLast?_eq_none_iff.1 hlast) hu
  | some c => simp [endsInWord, getLast?_append, hlast]

theorem endsInWord_cons (h : endsInWord t = true) : endsInWord (c :: t) = true := by
  cases t with
  | nil => cases h
  | cons d t => exact (endsInWord_append (t := [c]) (cons_ne_nil d t)).trans h

theorem endsInWord_of_word (hne : w ≠ []) (hw : w.all isWord = true) : endsInWord w = true := by
  rw [endsInWord, getLast?_eq_getLast_of_ne_nil hne]
  exact all_eq_true.1 hw _ (getLast_mem hne)

theorem endsInWord_of_blank (hg : isAllBlank g = true) : endsInWord g = false := by
  cases hlast : g.getLast? with
  | none => simp [endsInWord, hlast]
  | some c => simp [endsInWord, hlast, isWord_of_isBlank (all_eq_true.1 hg c (mem_of_getLast? hlast))]

theorem isBlank_of_isWord (h : isWord c = true) : isBlank c = false := by
  cases hblank : isBlank c with
  | false => rfl
  | true => rw [isWord_of_isBlank hblank] at h; cases h

/-! ## Words that a text does not hold -/

/-- None of the words is a whole word of the text, and no at sign stands in it. -/
inductive WordFree (words : List Text) : Text → Prop where
  | nil : WordFree words []
  | mark {c : Char} {t : Text} (hc : isWord c = false) (hat : c ≠ '@') (ht : WordFree words t) :
      WordFree words (c :: t)
  | word {w t : Text} (hne : w ≠ []) (hw : w.all isWord = true) (hword : w ∉ words) (hends : wordEnds t = true)
      (ht : WordFree words t) : WordFree words (w ++ t)

theorem WordFree.append {words} (ht : WordFree words t) (hu : WordFree words u)
    (hmeet : endsInWord t = true → wordEnds u = true) : WordFree words (t ++ u) := by
  induction ht with
  | nil => exact hu
  | mark hc hat _ ih =>
    exact .mark hc hat (ih fun h => hmeet (endsInWord_cons h))
  | @word w t hne hw hword hends _ ih =>
    rw [append_assoc]
    cases t with
    | nil =>
      rw [append_nil] at hmeet
      exact .word hne hw hword (hmeet (endsInWord_of_word hne hw)) hu
    | cons d t =>
      have hne' := cons_ne_nil d t
      exact .word hne hw hword (wordEnds_append hends hne' u)
        (ih fun h => hmeet ((endsInWord_append hne').trans h))

theorem WordFree.mono {words words'} (h : WordFree words t) (hsub : words' ⊆ words) :
    WordFree words' t := by
  induction h with
  | nil => exact .nil
  | mark hc hat _ ih => exact .mark hc hat ih
  | word hne hw hword hends _ ih => exact .word hne hw (fun h => hword (hsub h)) hends ih

theorem wordFree_of_word {words} (hne : w ≠ []) (hw : w.all isWord = true) (hword : w ∉ words) :
    WordFree words w := by
  have h := WordFree.word hne hw hword rfl .nil
  rwa [append_nil] at h

theorem wordFree_of_blank {words} : ∀ {g}, isAllBlank g = true → WordFree words g
  | [], _ => .nil
  | c :: g, h => by
    obtain ⟨hc, hg⟩ : isBlank c = true ∧ isAllBlank g = true := by simpa [isAllBlank] using h
    refine .mark (isWord_of_isBlank hc) ?_ (wordFree_of_blank hg)
    rintro rfl
    exact absurd hc (by decide)

theorem WordFree.not_mem_at {words} (h : WordFree words t) : '@' ∉ t := by
  induction h with
  | nil => simp
  | mark _ hat _ ih => simpa [Ne.symm hat] using ih
  | word _ hw _ _ _ ih =>
    rw [mem_append, not_or]
    exact ⟨fun hmem => absurd (all_eq_true.1 hw _ hmem) (by decide), ih⟩

/-! ## Searching for whole words -/

variable {α : Type} {before : Before} {r : Recogniser α} {words : List Text}

/-- The recogniser is tried at the start of words only, and accepts nothing that starts with another word or with
a character that is in no word. -/
structure Wordwise (before : Before) (r : Recogniser α) (words : List Text) : Prop where
  start : ∀ c, isWord c = true → before (some c) = false
  nil : r [] = none
  mark : ∀ c t, isWord c = false → c ≠ '@' → r (c :: t) = none
  word : ∀ w t, w ≠ [] → w.all isWord = true → w ∉ words → wordEnds t = true → r (w ++ t) = none

theorem matchHere_eq_none (h : before prev = false ∨ r t = none) : matchHere before r prev pos t = none := by
  rcases h with h | h
  · simp [matchHere, h]
  · simp [matchHere, h]

theorem searchFrom_cons_of_none (h : before prev = false ∨ r (c :: t) = none) :
    searchFrom before r prev pos (c :: t) = searchFrom before r (some c) (pos + 1) t := by
  rw [searchFrom, matchHere_eq_none h]

theorem searchFrom_within_word (hr : Wordwise before r words) {u} : ∀ {w c pos},
    isWord c = true → w.all isWord = true →
    searchFrom before r (some c) pos (w ++ u) = searchFrom before r (some (w.getLast?.getD c)) (pos + w.length) u
  | [], c, pos, _, _ => rfl
  | d :: w, c, pos, hc, hw => by
    rw [all_cons, Bool.and_eq_true] at hw
    rw [cons_append, searchFrom_cons_of_none (.inl (hr.start c hc)), searchFrom_within_word hr hw.1 hw.2,
      getLast?_cons, Option.getD_some, length_cons, Nat.add_assoc, Nat.add_comm 1]

/-- A search for such words goes past the text, whatever follows it. -/
theorem searchFrom_of_wordFree (hr : Wordwise before r words) {t} (ht : WordFree words t) :
    ∀ {prev pos u}, (endsInWord t = true → wordEnds u = true) →
    searchFrom before r prev pos (t ++ u) = searchFrom before r (t.getLast?.or prev) (pos + t.length) u := by
  induction ht with
  | nil => intros; rfl
  | @mark c t hc hat _ ih =>
    intro prev pos u hmeet
    rw [cons_append, searchFrom_cons_of_none (.inr (hr.mark c _ hc hat)), ih fun h => hmeet (endsInWord_cons h),
      length_cons, getLast?_cons]
    cases t.getLast? <;> simp [Nat.add_assoc, Nat.add_comm 1]
  | @word w t hne hw hword hends _ ih =>
    intro prev pos u hmeet
    have hends' : wordEnds (t ++ u) = true := by
      cases t with
      | nil => exact hmeet (by rw [append_nil]; exact endsInWord_of_word hne hw)
      | cons d t => exact hends
    have hmeet' : endsInWord t = true → wordEnds u = true := by
      cases t with
      | nil => simp [endsInWord]
      | cons d t => exact fun h => hmeet ((endsInWord_append (cons_ne_nil d t)).trans h)
    cases w with
    | nil => exact absurd rfl hne
    | cons c w =>
      have hnone := hr.word (c :: w) (t ++ u) hne hw hword hends'
      rw [cons_append] at hnone
      rw [all_cons, Bool.and_eq_true] at hw
      rw [append_assoc, cons_append, searchFrom_cons_of_none (.inr hnone),
        searchFrom_within_word hr hw.1 hw.2, ih hmeet']
      rw [getLast?_append, getLast?_cons, length_append, length_cons]
      cases t.getLast? <;> simp [Nat.add_assoc, Nat.add_comm 1]

theorem searchFrom_eq_none (hr : Wordwise before r words) {t} (ht : WordFree words t) {prev pos} :
    searchFrom before r prev pos t = none := by
  have h := @searchFrom_of_wordFree α before r words hr t ht prev pos [] fun _ => rfl
  rw [append_nil] at h
  rw [h, searchFrom, matchHere_eq_none (.inr hr.nil)]

theorem searchFrom_of_match {v} (hbefore : before prev = true) (h : r t = some (v, rest)) :
    searchFrom before r prev pos t = some ⟨pos, pos + (t.length - rest.length), v⟩ := by
  have hhere : matchHere before r prev pos t = some ⟨pos, pos + (t.length - rest.length), v⟩ := by
    simp [matchHere, hbefore, h]
  cases t with
  | nil => exact hhere
  | cons c t => rw [searchFrom, hhere]

theorem replaceFrom_eq_self {r new} : ∀ {t prev pos},
    searchFrom before r prev pos t = none → replaceFrom before r new 0 prev t = t
  | [], _, _, _ => rfl
  | c :: t, prev, pos, h => by
    rw [searchFrom] at h
    split at h
    · cases h
    · next hnone =>
      have hnone' : matchHere before r prev 0 (c :: t) = none := by
        refine matchHere_eq_none ?_
        cases hbefore : before prev with
        | false => exact .inl rfl
        | true => exact .inr (by simpa [matchHere, hbefore] using hnone)
      rw [replaceFrom, hnone']
      rw [replaceFrom_eq_self h]

theorem searchFrom_eq_none_of_not_mem {c} (hr : ∀ d t, d ≠ c → r (d :: t) = none) (hnil : r [] = none) :
    ∀ {t prev pos}, c ∉ t → searchFrom before r prev pos t = none
  | [], _, _, _ => by rw [searchFrom, matchHere_eq_none (.inr hnil)]
  | d :: t, prev, pos, h => by
    rw [mem_cons, not_or] at h
    rw [searchFrom_cons_of_none (.inr (hr d t (Ne.symm h.1))), searchFrom_eq_none_of_not_mem hr hnil h.2]

/-- A word in front of other word characters: what follows it there is the rest of a longer word. -/
theorem wordEnds_after? {kw} (hkw : kw.all isWord = true) (hw : w.all isWord = true) (hne : w ≠ kw)
    (hends : wordEnds t = true) (h : after? kw (w ++ t) = some rest) : wordEnds rest = false := by
  cases hrest : wordEnds rest with
  | false => rfl
  | true =>
    have heq := congrArg (List.takeWhile isWord) (after?_eq_some.1 h)
    rw [takeWhile_word hw (wordEnds_iff.1 hends), takeWhile_word hkw (wordEnds_iff.1 hrest)] at heq
    exact absurd heq hne

theorem run?_of_word {p} (hne : w ≠ []) (hw : w.all p = true)
    (hrest : ∀ c, rest.head? = some c → p c = false) : run? p (w ++ rest) = some (w, rest) := by
  cases w with
  | nil => exact absurd rfl hne
  | cons c w =>
    rw [all_cons, Bool.and_eq_true] at hw
    have hdrop : (w ++ rest).dropWhile p = rest := by
      rw [dropWhile_append_of_pos (all_eq_true.1 hw.2)]
      cases rest with
      | nil => rfl
      | cons d rest => simp [hrest d rfl]
    rw [cons_append, run?, if_pos hw.1, takeWhile_word hw.2 hrest, hdrop]

theorem someBlanks?_of_word (h : wordEnds t = false) : someBlanks? t = none := by
  cases t with
  | nil => rfl
  | cons c t =>
    have hc : isWord c = true := by simpa [wordEnds] using h
    simp [someBlanks?, isBlank_of_isWord hc]

def typeWords : List Text := TypeKind.all.map TypeKind.keyword

theorem keyword_mem_typeWords (kind : TypeKind) : kind.keyword ∈ typeWords := by cases kind <;> decide

theorem all_isWord_keyword (kind : TypeKind) : kind.keyword.all isWord = true := by cases kind <;> decide

theorem after?_cons_of_ne {a b} {p : Text} (h : a ≠ b) : after? (a :: p) (b :: t) = none := by
  simp [after?, h]

theorem after?_keyword_mark (hc : isWord c = false) (kind : TypeKind) : after? kind.keyword (c :: t) = none := by
  cases h : after? kind.keyword (c :: t) with
  | none => rfl
  | some rest =>
    have heq := after?_eq_some.1 h
    have hall := all_isWord_keyword kind
    cases hkw : kind.keyword with
    | nil => cases kind <;> cases hkw
    | cons d kw =>
      rw [hkw] at heq hall
      obtain ⟨rfl, -⟩ := List.cons.inj heq
      simp [hc] at hall

/-- The word of a type kind, blanks behind it and more: only whole words of `typeWords` begin so. -/
theorem someBlanks?_after?_keyword (hw : w.all isWord = true) (hword : w ∉ typeWords) (hends : wordEnds t = true)
    {kind : TypeKind} (h : after? kind.keyword (w ++ t) = some rest) : someBlanks? rest = none :=
  someBlanks?_of_word (wordEnds_after? (all_isWord_keyword kind) hw
    (fun heq => hword (heq ▸ keyword_mem_typeWords kind)) hends h)

theorem wordwise_typeHead? : Wordwise Before.wordStart typeHead? typeWords where
  start c hc := by simp [Before.wordStart, hc]
  nil := by decide
  mark c t hc _ := by
    rw [typeHead?, findSome?_eq_none_iff]
    intro kind _
    rw [after?_keyword_mark hc]
    rfl
  word w t hne hw hword hends := by
    rw [typeHead?, findSome?_eq_none_iff]
    intro kind _
    cases h : after? kind.keyword (w ++ t) with
    | none => rfl
    | some rest =>
      simp only [bind, Option.bind, someBlanks?_after?_keyword hw hword hends h]

def nestedStart : Before := fun c => c.all fun d => isBlank d || d == '>'

theorem declaresNestedType_eq (head : Text) :
    declaresNestedType head = (searchFrom nestedStart nestedHead? none 0 head).isSome := by
  rw [declaresNestedType, search, Text.slice, take_length, drop_zero]
  rfl

theorem wordwise_nestedHead? : Wordwise nestedStart nestedHead? typeWords where
  start c hc := by
    have hne : c ≠ '>' := by
      rintro rfl
      exact absurd hc (by decide)
    simp [nestedStart, isBlank_of_isWord hc, hne]
  nil := by decide
  mark c t hc hat := by
    have hkinds : (TypeKind.all.findSome? fun kind => after? kind.keyword (c :: t)) = none :=
      findSome?_eq_none_iff.2 fun kind _ => after?_keyword_mark hc kind
    have hnone : after? "@" (c :: t) = none := after?_cons_of_ne (Ne.symm hat)
    simp only [nestedHead?, hnone, hkinds, bind, Option.bind]
  word w t hne hw hword hends := by
    have hat : after? "@" (w ++ t) = none := by
      cases w with
      | nil => exact absurd rfl hne
      | cons c w =>
        have hc : '@' ≠ c := by
          rintro rfl
          exact absurd (all_eq_true.1 hw '@' (by simp)) (by decide)
        exact after?_cons_of_ne hc
    simp only [nestedHead?, hat, bind, Option.bind]
    cases hkinds : TypeKind.all.findSome? fun kind => after? kind.keyword (w ++ t) with
    | none => rfl
    | some rest =>
      obtain ⟨kind, -, hkind⟩ := exists_of_findSome?_eq_some hkinds
      simp only [someBlanks?_after?_keyword hw hword hends hkind]

theorem wordwise_finalWord? : Wordwise Before.wordStart finalWord? ["final"] where
  start c hc := by simp [Before.wordStart, hc]
  nil := by decide
  mark c t hc _ := by
    have hnone : after? "final" (c :: t) = none := after?_cons_of_ne (by
      rintro rfl
      exact absurd hc (by decide))
    simp only [finalWord?, hnone, bind, Option.bind]
  word w t hne hw hword hends := by
    simp only [finalWord?, bind, Option.bind]
    cases h : after? "final" (w ++ t) with
    | none => rfl
    | some rest =>
      simp [wordEnds_after? (by decide) hw (by simpa using hword) hends h]

end Rebind.Java
