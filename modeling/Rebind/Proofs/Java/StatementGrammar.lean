/-
Statements and their grammar.

An `else` may be read as part of any of the `if` statements before it; `Settled` is the grammar in which it belongs to
the last one, and every statement has such a reading (`exists_settled`). By it the reader finds the end of a statement
(`statementEnd_of_settled`).
-/
import Rebind.Java.Statement
import Rebind.Proofs.Java.Members
import Rebind.Proofs.Java.Pieces

namespace Rebind.Java

open Text List Option

variable {f word : Text} {p : Char → Bool}

/-! ## The grammar -/

def IsHead (t : Text) : Prop := Enclosed '(' ')' t

def IsBlock (t : Text) : Prop := Enclosed '{' '}' t

def clauseWords : List Text := ["catch", "finally"]

def followWords : List Text := "else" :: clauseWords

/-- The words that a statement starts or goes on with. -/
def statementWords : List Text := controlWords ++ (["do", "try"] : List Text) ++ followWords

/-- Code that its first semicolon outside of brackets ends; the empty statement has none. -/
structure IsSimple (code : Text) : Prop where
  unended : Unended code
  word : code.takeWhile isWord ∉ statementWords
  first : code.head?.all (fun c => !isBlank c && c != '{') = true

/-- A word, code in round brackets, and blanks behind both. -/
inductive IsFront (word : Text) : Text → Prop where
  | mk {g head g' : Text} (hg : isAllBlank g = true) (hhead : IsHead head) (hg' : isAllBlank g' = true) :
      IsFront word (word ++ g ++ head ++ g')

/-- What comes before the block of a `try` statement. -/
inductive IsTryFront : Text → Prop where
  | bare {g : Text} (hg : isAllBlank g = true) : IsTryFront ("try" ++ g)
  | resources {f : Text} (hf : IsFront "try" f) : IsTryFront f

inductive IsClauses : Text → Prop where
  | nil : IsClauses []
  | caught {g f block more : Text} (hg : isAllBlank g = true) (hf : IsFront "catch" f) (hblock : IsBlock block)
      (hmore : IsClauses more) : IsClauses (g ++ f ++ block ++ more)
  | last {g g' block : Text} (hg : isAllBlank g = true) (hg' : isAllBlank g' = true) (hblock : IsBlock block) :
      IsClauses (g ++ "finally" ++ g' ++ block)

inductive IsBasic : Text → Prop where
  | block {t : Text} (ht : IsBlock t) : IsBasic t
  | simple {code : Text} (hcode : IsSimple code) : IsBasic (code ++ [';'])
  | tried {f block clauses : Text} (hf : IsTryFront f) (hblock : IsBlock block) (hclauses : IsClauses clauses) :
      IsBasic (f ++ block ++ clauses)

/-- The word `else` between blanks, apart from the text that follows. -/
inductive IsElse (next : Text) : Text → Prop where
  | mk {g g' : Text} (hg : isAllBlank g = true) (hg' : isAllBlank g' = true) (hends : nameEnds (g' ++ next) = true) :
      IsElse next (g ++ "else" ++ g')

/-- The texts that are statements. -/
inductive IsStatement : Text → Prop where
  | basic {t : Text} (ht : IsBasic t) : IsStatement t
  | control {word f t : Text} (hword : word ∈ controlWords) (hf : IsFront word f) (ht : IsStatement t) :
      IsStatement (f ++ t)
  | ifElse {f t e u : Text} (hf : IsFront "if" f) (ht : IsStatement t) (he : IsElse u e) (hu : IsStatement u) :
      IsStatement (f ++ t ++ e ++ u)
  | doWhile {g t g' f : Text} (hg : isAllBlank g = true) (hends : nameEnds (g ++ t) = true) (ht : IsStatement t)
      (hg' : isAllBlank g' = true) (hf : IsFront "while" f) :
      IsStatement ("do" ++ g ++ t ++ g' ++ f ++ [';'])

/-! ## To which `if` an `else` belongs -/

/-- The statements with every `else` at the last `if` that it can belong to. An `else` may follow an open one:
it ends with an `if` statement that has none. -/
inductive Settled : (isOpen : Bool) → Text → Prop where
  | basic {t : Text} (ht : IsBasic t) : Settled false t
  | control {o : Bool} {word f t : Text} (hword : word ∈ controlWords) (hif : word ≠ "if") (hf : IsFront word f)
      (ht : Settled o t) : Settled o (f ++ t)
  | ifOnly {o : Bool} {f t : Text} (hf : IsFront "if" f) (ht : Settled o t) : Settled true (f ++ t)
  | ifElse {o : Bool} {f t e u : Text} (hf : IsFront "if" f) (ht : Settled false t) (he : IsElse u e)
      (hu : Settled o u) : Settled o (f ++ t ++ e ++ u)
  | doWhile {o : Bool} {g t g' f : Text} (hg : isAllBlank g = true) (hends : nameEnds (g ++ t) = true)
      (ht : Settled o t) (hg' : isAllBlank g' = true) (hf : IsFront "while" f) :
      Settled false ("do" ++ g ++ t ++ g' ++ f ++ [';'])

variable {t word rest : Text} {opener closer c : Char} {o : Bool}

theorem nameEnds_append (h : nameEnds t = true) (ht : t ≠ []) (u : Text) : nameEnds (t ++ u) = true := by
  cases t with
  | nil => exact absurd rfl ht
  | cons c t => exact h

theorem Enclosed.ne_nil (h : Enclosed opener closer t) : t ≠ [] := by
  obtain ⟨b, -, rfl⟩ := h
  simp

theorem IsFront.ne_nil (h : IsFront word f) : f ≠ [] := by
  cases h with
  | mk hg hhead hg' => simp [Enclosed.ne_nil hhead]

theorem Settled.ne_nil (h : Settled o t) : t ≠ [] := by
  induction h with
  | basic ht =>
    cases ht with
    | block ht => exact Enclosed.ne_nil ht
    | simple hcode => simp
    | tried hf hblock hclauses => simp [Enclosed.ne_nil hblock]
  | control _ _ _ _ ih | ifOnly _ _ ih | ifElse _ _ _ _ ih => simp [ih]
  | doWhile => simp

/-- An `else` behind an open statement goes to an `if` within it. -/
theorem Settled.attach {o' e u} (h : Settled o t) (hopen : o = true) (he : IsElse u e)
    (hu : Settled o' u) : ∃ o'', Settled o'' (t ++ e ++ u) := by
  induction h with
  | basic | doWhile => cases hopen
  | control hword hif hf _ ih =>
    obtain ⟨o'', h⟩ := ih hopen
    exact ⟨o'', by simpa only [append_assoc] using Settled.control hword hif hf h⟩
  | @ifOnly o f t hf ht ih =>
    cases o with
    | false => exact ⟨o', .ifElse hf ht he hu⟩
    | true =>
      obtain ⟨o'', h⟩ := ih rfl
      exact ⟨true, by simpa only [append_assoc] using Settled.ifOnly hf h⟩
  | @ifElse o f t e' u' hf ht he' hu' _ ih =>
    obtain ⟨o'', h⟩ := ih hopen
    have he'' : IsElse (u' ++ e ++ u) e' := by
      cases he' with
      | mk hg hg' hends =>
        refine .mk hg hg' ?_
        rw [append_assoc, ← append_assoc]
        exact nameEnds_append hends (by simp [hu'.ne_nil]) _
    exact ⟨o'', by simpa only [append_assoc] using Settled.ifElse hf ht he'' h⟩

/-- Every statement can be read with its `else` words settled. -/
theorem exists_settled (h : IsStatement t) : ∃ o, Settled o t := by
  induction h with
  | basic ht => exact ⟨false, .basic ht⟩
  | @control word f t hword hf _ ih =>
    obtain ⟨o, ht⟩ := ih
    by_cases hif : word = "if"
    · subst hif
      exact ⟨true, .ifOnly hf ht⟩
    · exact ⟨o, .control hword hif hf ht⟩
  | @ifElse f t e u hf _ he _ iht ihu =>
    obtain ⟨o, ht⟩ := iht
    obtain ⟨o', hu⟩ := ihu
    cases o with
    | false => exact ⟨o', .ifElse hf ht he hu⟩
    | true => exact (Settled.ifOnly hf ht).attach rfl he hu
  | doWhile hg hends _ hg' hf ih =>
    obtain ⟨o, ht⟩ := ih
    exact ⟨false, .doWhile hg hends ht hg' hf⟩

/-! ## How statements start and end -/

theorem takeWhile_word {rest} (hword : word.all p = true)
    (hrest : ∀ c, rest.head? = some c → p c = false) : (word ++ rest).takeWhile p = word := by
  rw [takeWhile_append_of_pos (all_eq_true.1 hword)]
  cases rest with
  | nil => simp
  | cons c rest => simp [hrest c rfl]

theorem takeWhile_before {p c} (hc : p c = false) (rest : Text) : ∀ code : Text,
    (code ++ c :: rest).takeWhile p = code.takeWhile p
  | [] => by simp [hc]
  | d :: code => by
    by_cases hd : p d = true
    · simp [hd, takeWhile_before hc rest code]
    · simp [hd]

theorem isNamePart_of_isWord (h : isWord c = true) : isNamePart c = true := by simp [isNamePart, h]

theorem isNamePart_of_isBlank (h : isBlank c = true) : isNamePart c = false := by
  have hword := isWord_of_isBlank h
  have hdollar : c ≠ '$' := by
    rintro rfl
    revert h
    decide
  simp [isNamePart, hword, hdollar]

theorem isNamePart_of_nameEnds (h : nameEnds t = true) (hc : t.head? = some c) : isNamePart c = false := by
  cases t with
  | nil => simp at hc
  | cons d t =>
    obtain rfl : d = c := by simpa using hc
    simpa [nameEnds] using h

theorem isWord_of_nameEnds (h : nameEnds t = true) (hc : t.head? = some c) : isWord c = false := by
  have hpart := isNamePart_of_nameEnds h hc
  simp only [isNamePart, Bool.or_eq_false_iff] at hpart
  exact hpart.1

theorem not_isNamePart_of_blanks (hp : ∀ c, isBlank c = true → p c = false) {g}
    (hg : isAllBlank g = true) (hrest : ∀ c, rest.head? = some c → p c = false) :
    ∀ c, (g ++ rest).head? = some c → p c = false := by
  cases g with
  | nil => exact hrest
  | cons d g =>
    intro c hc
    obtain rfl : d = c := by simpa using hc
    exact hp d (all_eq_true.1 hg d (by simp))

/-- A statement starts with code, and not with a word that one goes on with. -/
structure Starts (t : Text) : Prop where
  solid : ∃ c, t.head? = some c ∧ isBlank c = false
  word : t.takeWhile isWord ∉ followWords

theorem Enclosed.head? (h : Enclosed opener closer t) (rest : Text) : (t ++ rest).head? = some opener := by
  obtain ⟨b, -, rfl⟩ := h
  rfl

theorem starts_of_word (hname : isName word = true) (hword : word.all isWord = true) (hfollow : word ∉ followWords)
    (hrest : ∀ c, rest.head? = some c → isWord c = false) : Starts (word ++ rest) where
  solid := by
    cases word with
    | nil => simp [isName] at hname
    | cons c word =>
      refine ⟨c, rfl, ?_⟩
      have hc : isWord c = true := all_eq_true.1 hword c (by simp)
      cases hblank : isBlank c with
      | false => rfl
      | true => rw [isWord_of_isBlank hblank] at hc; cases hc
  word := by rwa [takeWhile_word hword hrest]

theorem IsFront.starts (h : IsFront word f) (hname : isName word = true) (hword : word.all isWord = true)
    (hfollow : word ∉ followWords) (rest : Text) : Starts (f ++ rest) := by
  cases h with
  | @mk g head g' hg hhead hg' =>
    have hopen : ∀ c, (head ++ (g' ++ rest)).head? = some c → isWord c = false := by
      intro c hc
      rw [Enclosed.head? hhead] at hc
      obtain rfl : '(' = c := some.inj hc
      decide
    have hstarts := starts_of_word hname hword hfollow (not_isNamePart_of_blanks (fun _ => isWord_of_isBlank) hg hopen)
    simpa only [append_assoc] using hstarts

theorem controlWords_spec (h : word ∈ controlWords) :
    isName word = true ∧ word.all isWord = true ∧ word ∉ followWords := by
  simp only [controlWords, mem_cons, not_mem_nil, or_false] at h
  rcases h with rfl | rfl | rfl | rfl | rfl <;> exact ⟨by decide, by decide, by decide⟩

theorem Settled.starts {o t} (h : Settled o t) (rest : Text) : Starts (t ++ rest) := by
  cases h with
  | basic ht =>
    cases ht with
    | block ht =>
      obtain ⟨inner, -, rfl⟩ := ht
      exact ⟨⟨'{', rfl, by decide⟩, by simp [followWords, clauseWords, show isWord '{' = false by decide]⟩
    | @simple code hcode =>
      cases code with
      | nil => exact ⟨⟨';', rfl, by decide⟩, by simp [followWords, clauseWords, show isWord ';' = false by decide]⟩
      | cons c code =>
        have hfirst := hcode.first
        simp only [head?_cons, all_some, Bool.and_eq_true, Bool.not_eq_true'] at hfirst
        refine ⟨⟨c, rfl, hfirst.1⟩, fun hmem => hcode.word ?_⟩
        rw [append_assoc, singleton_append, takeWhile_before (by decide)] at hmem
        exact mem_append_right _ hmem
    | @tried f b clauses hf hblock hclauses =>
      cases hf with
      | @bare g hg =>
        have hopen : ∀ c, (b ++ (clauses ++ rest)).head? = some c → isWord c = false := by
          intro c hc
          rw [Enclosed.head? hblock] at hc
          obtain rfl : '{' = c := some.inj hc
          decide
        have hstarts : Starts ("try" ++ (g ++ (b ++ (clauses ++ rest)))) :=
          starts_of_word (by decide) (by decide) (by decide)
            (not_isNamePart_of_blanks (fun _ => isWord_of_isBlank) hg hopen)
        simpa only [append_assoc] using hstarts
      | resources hf =>
        simpa only [append_assoc] using hf.starts (by decide) (by decide) (by decide) (b ++ (clauses ++ rest))
  | control hword _ hf _ =>
    obtain ⟨hname, hall, hfollow⟩ := controlWords_spec hword
    simpa only [append_assoc] using hf.starts hname hall hfollow _
  | ifOnly hf _ | ifElse hf _ _ _ => simpa only [append_assoc] using hf.starts (by decide) (by decide) (by decide) _
  | @doWhile o g t g' f hg hends ht hg' hf =>
    have hends' := nameEnds_append hends (by simp [ht.ne_nil]) (g' ++ f ++ [';'] ++ rest)
    have hstarts : Starts ("do" ++ (g ++ t ++ (g' ++ f ++ [';'] ++ rest))) :=
      starts_of_word (by decide) (by decide) (by decide) fun c hc => isWord_of_nameEnds hends' hc
    simpa only [append_assoc] using hstarts

end Rebind.Java
