/-
Where the lexemes of a text begin and end. Between two of them a text can be cut and its ends be read on their own.
-/
import Rebind.Proofs.Java.Mask

namespace Rebind.Java

open Text List

/-! ## What a lexeme is made of -/

/-- What can stand at the front of a text: the lexeme that starts with the character, and the rest. -/
inductive Reads (c : Char) (t : Text) : Lexeme → Text → Prop where
  | code (hquote : c ≠ '"') (hquote' : c ≠ '\'')
      (hslash : c = '/' → t.head? ≠ some '/' ∧ t.head? ≠ some '*') : Reads c t (.code c) t
  | line {body rest : Text} (hc : c = '/') (ht : t = '/' :: body ++ rest) (hbody : '\n' ∉ body)
      (hrest : ∀ d, rest.head? = some d → d = '\n') : Reads c t (.comment ('/' :: '/' :: body)) rest
  | block {body rest : Text} (hc : c = '/') (ht : t = '*' :: body ++ "*/" ++ rest) :
      Reads c t (.comment ("/*" ++ body ++ "*/")) rest
  | openBlock {body : Text} (hc : c = '/') (ht : t = '*' :: body) :
      Reads c t (.comment ("/*" ++ body)) []
  | quoted {body closing rest : Text} (hc : c = '"' ∨ c = '\'') (ht : t = body ++ closing ++ rest)
      (hclosing : closing = [c] ∨ closing = ['\n'] ∨ closing = [] ∧ rest = []) :
      Reads c t (.literal [c] body closing) rest
  | text {body rest : Text} (hc : c = '"') (ht : t = '"' :: '"' :: body ++ blockQuote ++ rest) :
      Reads c t (.literal blockQuote body blockQuote) rest
  | openText {body closing : Text} (hc : c = '"') (ht : t = '"' :: '"' :: body ++ closing) :
      Reads c t (.literal blockQuote body closing) []

theorem quotedBody_rest (q : Char) (t : Text) : ∀ d, (quotedBody q t).2.head? = some d → d = q ∨ d = '\n' := by
  fun_induction quotedBody q t with
  | case1 | case2 => simp
  | case3 c t body rest h ih => simpa [h] using ih
  | case4 c t hne hne' h =>
    intro d hd
    simp only [head?_cons, Option.some.injEq] at hd
    subst hd
    simpa using h
  | case5 c t hne hne' h body rest heq ih => simpa [heq] using ih

theorem reads_lexemeAt (c : Char) (t : Text) : Reads c t (lexemeAt c t).1 (lexemeAt c t).2 := by
  unfold lexemeAt
  split
  · next t =>
    refine .line rfl (by simp [takeWhile_append_dropWhile]) (fun h => ?_) fun d hd => ?_
    · simpa using all_eq_true.1 all_takeWhile _ h
    · have := head?_dropWhile_not (· != '\n') t
      rw [hd] at this
      simpa using this
  · next t =>
    split
    · next body rest h => exact .block rfl (by simp [eq_append_of_cut? h])
    · exact .openBlock rfl rfl
  · next t =>
    split
    · next body rest h => exact .text rfl (by simp [eq_append_of_cut? h])
    · exact .openText rfl (by simp)
  · next h1 h2 h3 =>
    split
    · next hc =>
      simp only [Bool.or_eq_true, beq_iff_eq] at hc
      have happend := quotedBody_append c t
      have hrest := quotedBody_rest c t
      generalize quotedBody c t = p at happend hrest ⊢
      obtain ⟨body, rest⟩ := p
      cases rest with
      | nil => exact .quoted hc (by simp [← happend]) (.inr (.inr ⟨rfl, rfl⟩))
      | cons d rest =>
        refine .quoted hc (by simp [← happend]) ?_
        rcases hrest d rfl with rfl | rfl
        · exact .inl rfl
        · exact .inr (.inl rfl)
    · next hc =>
      simp only [Bool.or_eq_true, beq_iff_eq, not_or] at hc
      refine .code hc.1 hc.2 fun hslash => ?_
      cases t with
      | nil => simp
      | cons d t =>
        constructor
        · intro hd
          exact h1 t hslash (by simpa using hd)
        · intro hd
          exact h2 t hslash (by simpa using hd)

@[simp] theorem lexemes_nil : lexemes [] = [] := by rw [lexemes]

theorem lexemes_cons (c : Char) (t : Text) :
    lexemes (c :: t) = (lexemeAt c t).1 :: lexemes (lexemeAt c t).2 := by rw [lexemes]

@[simp] theorem mask_nil : mask [] = [] := by simp [mask]

theorem mask_cons (c : Char) (t : Text) : mask (c :: t) = (lexemeAt c t).1.masked ++ mask (lexemeAt c t).2 := by
  simp [mask, lexemes_cons]

@[simp] theorem Lexeme.length_masked (l : Lexeme) : l.masked.length = l.text.length := l.forall₂_shows.length_eq

/-! ## Boundaries -/

/-- The offset stands between two lexemes: what comes behind it is read as if nothing stood before. -/
def Boundary (t : Text) (i : Nat) : Prop :=
  ∃ front, lexemes t = front ++ lexemes (t.drop i) ∧ front.flatMap Lexeme.text = t.take i

/-- The offset stands inside a comment or a literal. -/
def Cuts (t : Text) (i : Nat) : Prop :=
  ∃ front l back, lexemes t = front ++ l :: back ∧ (front.flatMap Lexeme.text).length < i ∧
    i < (front.flatMap Lexeme.text).length + l.text.length

theorem boundary_zero (t : Text) : Boundary t 0 := ⟨[], rfl, by simp⟩

variable {t u rest : Text} {i j a : Nat} {c : Char} {l : Lexeme}

theorem boundary_of_length_le (h : t.length ≤ i) : Boundary t i :=
  ⟨lexemes t, by simp [drop_eq_nil_of_le h], by rw [flatMap_text_lexemes, take_of_length_le h]⟩

theorem drop_lexeme (c : Char) (t : Text) : (c :: t).drop (lexemeAt c t).1.text.length = (lexemeAt c t).2 := by
  conv => lhs; rw [← text_lexemeAt c t]
  exact drop_left

theorem boundary_lexeme (c : Char) (t : Text) : Boundary (c :: t) (lexemeAt c t).1.text.length := by
  refine ⟨[(lexemeAt c t).1], by rw [drop_lexeme, lexemes_cons]; rfl, ?_⟩
  conv => rhs; rw [← text_lexemeAt c t]
  simp

theorem Boundary.trans (h : Boundary t i) (h' : Boundary (t.drop i) j) : Boundary t (i + j) := by
  obtain ⟨front, h1, h2⟩ := h
  obtain ⟨front', h1', h2'⟩ := h'
  refine ⟨front ++ front', ?_, ?_⟩
  · rw [h1, h1', drop_drop, append_assoc]
  · rw [flatMap_append, h2, h2', take_add]

theorem Boundary.next {t u : Text} {i c} (h : Boundary t i) (hi : t.drop i = c :: u) :
    Boundary t (i + (lexemeAt c u).1.text.length) :=
  h.trans (hi ▸ boundary_lexeme c u)

theorem boundary_of_lexemes_eq : ∀ {front back t}, lexemes t = front ++ back →
    Boundary t (front.flatMap Lexeme.text).length ∧ back = lexemes (t.drop (front.flatMap Lexeme.text).length)
  | [], back, t, h => ⟨boundary_zero t, by simpa using h.symm⟩
  | l :: front, back, [], h => by simp at h
  | l :: front, back, c :: t, h => by
    rw [lexemes_cons, cons_append, List.cons.injEq] at h
    obtain ⟨rfl, h⟩ := h
    obtain ⟨h1, h2⟩ := boundary_of_lexemes_eq h
    rw [← drop_lexeme] at h1 h2
    rw [flatMap_cons, length_append]
    exact ⟨(boundary_lexeme c t).trans h1, by rw [h2, drop_drop]⟩

theorem exists_lexeme (t : Text) (h : i < t.length) :
    ∃ a c u, Boundary t a ∧ t.drop a = c :: u ∧ a ≤ i ∧ i < a + (lexemeAt c u).1.text.length := by
  fun_induction lexemes t generalizing i with
  | case1 => simp at h
  | case2 c t ih =>
    by_cases hi : i < (lexemeAt c t).1.text.length
    · exact ⟨0, c, t, boundary_zero _, rfl, Nat.zero_le _, by omega⟩
    · have hlen := congrArg List.length (text_lexemeAt c t)
      rw [length_append] at hlen
      obtain ⟨a, d, u, h1, h2, h3, h4⟩ := ih (i := i - (lexemeAt c t).1.text.length) (by omega)
      rw [← drop_lexeme] at h1 h2
      rw [drop_drop] at h2
      exact ⟨_, d, u, (boundary_lexeme c t).trans h1, h2, by omega, by omega⟩

/-- Two boundaries: the second is one of the text behind the first. -/
theorem Boundary.drop (hi : Boundary t i) (hj : Boundary t j) (hij : i ≤ j) : Boundary (t.drop i) (j - i) := by
  obtain ⟨f, hf, hft⟩ := hi
  obtain ⟨g, hg, hgt⟩ := hj
  rcases Nat.lt_or_ge t.length j with hlt | hle
  · exact boundary_of_length_le (by rw [length_drop]; omega)
  have hlen : (f.flatMap Lexeme.text).length = i := by rw [hft, length_take]; omega
  have hlen' : (g.flatMap Lexeme.text).length = j := by rw [hgt, length_take]; omega
  rcases append_eq_append_iff.1 (hf.symm.trans hg) with ⟨m, rfl, hm⟩ | ⟨m, rfl, hm⟩
  · obtain ⟨h1, -⟩ := boundary_of_lexemes_eq hm
    rw [flatMap_append, length_append, hlen] at hlen'
    rwa [show j - i = (m.flatMap Lexeme.text).length by omega]
  · rw [flatMap_append, length_append, hlen'] at hlen
    rw [show j - i = 0 by omega]
    exact boundary_zero _

theorem not_boundary_of_lt (h0 : 0 < i) (hi : i < (lexemeAt c t).1.text.length) : ¬ Boundary (c :: t) i := by
  rintro ⟨front, h1, h2⟩
  have hle : i ≤ (c :: t).length := by
    have := congrArg List.length (text_lexemeAt c t)
    rw [length_append] at this
    omega
  have hlen : (front.flatMap Lexeme.text).length = i := by rw [h2, length_take]; omega
  cases front with
  | nil =>
    simp at hlen
    omega
  | cons l front =>
    rw [lexemes_cons, cons_append, List.cons.injEq] at h1
    rw [flatMap_cons, length_append, ← h1.1] at hlen
    omega

theorem not_boundary_of_within (ha : Boundary t a) (hdrop : t.drop a = c :: u) (hai : a < i)
    (hi : i < a + (lexemeAt c u).1.text.length) : ¬ Boundary t i := by
  intro hb
  have := ha.drop hb (Nat.le_of_lt hai)
  rw [hdrop] at this
  exact not_boundary_of_lt (by omega) (by omega) this

/-- Every offset but the boundaries stands inside a comment or a literal. -/
theorem cuts_iff_not_boundary : Cuts t i ↔ ¬ Boundary t i := by
  constructor
  · rintro ⟨front, l, back, h, h1, h2⟩
    obtain ⟨ha, hback⟩ := boundary_of_lexemes_eq h
    cases hdrop : t.drop (front.flatMap Lexeme.text).length with
    | nil =>
      rw [hdrop] at hback
      simp at hback
    | cons c u =>
      rw [hdrop, lexemes_cons, List.cons.injEq] at hback
      exact not_boundary_of_within ha hdrop h1 (hback.1 ▸ h2)
  · intro h
    have hlt : i < t.length := Nat.lt_of_not_le fun hle => h (boundary_of_length_le hle)
    obtain ⟨a, c, u, ha, hdrop, hai, hi⟩ := exists_lexeme t hlt
    have hne : a ≠ i := by
      rintro rfl
      exact h ha
    obtain ⟨front, h1, h2⟩ := ha
    have hlen : (front.flatMap Lexeme.text).length = a := by rw [h2, length_take]; omega
    rw [hdrop, lexemes_cons] at h1
    exact ⟨front, _, _, h1, by omega, by omega⟩

/-! ## What the mask shows -/

theorem Boundary.drop_mask (h : Boundary t i) : (mask t).drop i = mask (t.drop i) := by
  obtain ⟨front, h1, h2⟩ := h
  have hlen : (front.flatMap Lexeme.masked).length = (t.take i).length := by
    rw [← h2]
    simp only [length_flatMap, Lexeme.length_masked]
  conv => lhs; rw [mask, h1, flatMap_append]
  rcases Nat.lt_or_ge t.length i with hlt | hle
  · have hnil : t.drop i = [] := drop_eq_nil_of_le (by omega)
    rw [hnil, lexemes_nil, flatMap_nil, append_nil, mask_nil]
    refine drop_eq_nil_of_le ?_
    rw [hlen, length_take]
    omega
  · exact drop_left' (by rw [hlen, length_take]; omega)

theorem Boundary.getElem?_mask {k} (h : Boundary t a) (hdrop : t.drop a = c :: u)
    (hk : k < (lexemeAt c u).1.text.length) : (mask t)[a + k]? = (lexemeAt c u).1.masked[k]? := by
  rw [← getElem?_drop, h.drop_mask, hdrop, mask_cons, getElem?_append_left (by simpa using hk)]

theorem isBlank_of_mem_blanked (h : c ∈ blanked t) : isBlank c = true := by
  simp only [blanked, mem_map] at h
  obtain ⟨d, -, rfl⟩ := h
  split
  · next hd =>
    simp only [beq_iff_eq] at hd
    rw [hd]
    exact isBlank_newline
  · decide

/-- The lexeme is no block literal without its closing quotes. -/
def Lexeme.isClosed : Lexeme → Bool
  | literal opening _ closing => opening != blockQuote || closing == blockQuote
  | _ => true

/-- Block literals are closed. One that is not shows its last three characters as if they closed it. -/
def BlocksClosed (t : Text) : Prop := ∀ l ∈ lexemes t, l.isClosed = true

instance (t : Text) : Decidable (BlocksClosed t) := inferInstanceAs (Decidable (∀ l ∈ lexemes t, l.isClosed = true))

theorem lexemeAt_mem (h : Boundary t a) (hdrop : t.drop a = c :: u) : (lexemeAt c u).1 ∈ lexemes t := by
  obtain ⟨front, h1, -⟩ := h
  rw [h1, hdrop, lexemes_cons]
  simp

theorem isBlank_or_quote_of_mem_masked (h : Reads c t l rest) (hclosed : l.isClosed = true) {d}
    (hd : d ∈ l.masked) : l = .code c ∨ isBlank d = true ∨ d = '"' ∨ d = '\'' := by
  have hblock {body : Text} (hd : d ∈ (Lexeme.literal blockQuote body blockQuote).masked) : isBlank d = true ∨
      d = '"' := by
    simp only [Lexeme.masked, mem_append, blockQuote, mem_cons, not_mem_nil, or_false] at hd
    rcases hd with (hd | hd) | hd
    · exact .inr (by tauto)
    · exact .inl (isBlank_of_mem_blanked hd)
    · exact .inr (by tauto)
  cases h with
  | code => exact .inl rfl
  | line | block | openBlock => exact .inr (.inl (isBlank_of_mem_blanked hd))
  | quoted hc _ hclosing =>
    simp only [Lexeme.masked, mem_append, mem_singleton] at hd
    rcases hd with (rfl | hd) | hd
    · exact .inr (.inr hc)
    · exact .inr (.inl (isBlank_of_mem_blanked hd))
    · rcases hclosing with rfl | rfl | ⟨rfl, -⟩
      · rw [mem_singleton.1 hd]
        exact .inr (.inr hc)
      · rw [mem_singleton.1 hd]
        exact .inr (.inl isBlank_newline)
      · simp at hd
  | text => exact .inr ((hblock hd).imp_right .inl)
  | openText =>
    simp only [Lexeme.isClosed, bne_self_eq_false, Bool.false_or, beq_iff_eq] at hclosed
    subst hclosed
    exact .inr ((hblock hd).imp_right .inl)

def isCode (c : Char) : Bool := !isBlank c && c != '"' && c != '\''

theorem isWord_of_isBlank (h : isBlank c = true) : isWord c = false := by
  have hblanks : ∀ r ∈ blankTable, ∀ n ∈ List.range' r.1 (r.2 + 1 - r.1), isWord (Char.ofNat n) = false := by
    unfold isWord isAlnum wordTable letterTable Table.spelled numbersOf
    simp only [flatMap_cons, flatMap_nil]
    repeat rewrite [String.toList_ofList]
    decide +kernel
  simp only [isBlank, Table.holds, any_eq_true, Bool.and_eq_true, decide_eq_true_eq] at h
  obtain ⟨r, hr, h1, h2⟩ := h
  have := hblanks r hr c.toNat (mem_range'_1.2 ⟨h1, by omega⟩)
  rwa [Char.ofNat_toNat] at this

theorem isCode_of_isWord (h : isWord c = true) : isCode c = true := by
  have hblank : isBlank c = false := by
    cases hb : isBlank c with
    | false => rfl
    | true => simp [isWord_of_isBlank hb] at h
  simp only [isCode, hblank, Bool.not_false, Bool.true_and, Bool.and_eq_true, bne_iff_ne]
  constructor
  · rintro rfl
    exact absurd h (by decide)
  · rintro rfl
    exact absurd h (by decide)

theorem isCode_of_isDotted (h : isDotted c = true) : isCode c = true := by
  simp only [isDotted, Bool.or_eq_true, beq_iff_eq] at h
  rcases h with h | rfl
  · exact isCode_of_isWord h
  · decide

theorem isWord_of_isAsciiLetter (h : isAsciiLetter c = true) : isWord c = true := by
  have hlt : c.toNat < 0x80 := by
    delta isAsciiLetter Char.isAlpha Char.isUpper Char.isLower at h
    simp only [Bool.or_eq_true, Bool.and_eq_true, decide_eq_true_eq, UInt32.le_iff_toNat_le] at h
    rcases h with ⟨-, h⟩ | ⟨-, h⟩
    · exact Nat.lt_of_le_of_lt h (by decide)
    · exact Nat.lt_of_le_of_lt h (by decide)
  simp only [isAsciiLetter] at h
  simp [isWord, isAlnum, hlt, Char.isAlphanum, h]

theorem isCode_of_letter (h : isAsciiLetter c = true ∨ c = '_') : isCode c = true := by
  rcases h with h | rfl
  · exact isCode_of_isWord (isWord_of_isAsciiLetter h)
  · decide

/-- Code that the mask shows is a lexeme of its own, so spans that start and end with code cut nothing. -/
theorem boundary_of_code (hclosed : BlocksClosed t) (hi : (mask t)[i]? = some c) (hc : isCode c = true) :
    Boundary t i ∧ Boundary t (i + 1) := by
  have hlt : i < t.length := by
    have := (List.getElem?_eq_some_iff.1 hi).1
    simpa using this
  obtain ⟨a, d, u, ha, hdrop, hai, hi'⟩ := exists_lexeme t hlt
  have hget := ha.getElem?_mask hdrop (k := i - a) (by omega)
  rw [show a + (i - a) = i by omega, hi] at hget
  have hmem := lexemeAt_mem ha hdrop
  simp only [isCode, Bool.and_eq_true, Bool.not_eq_true', bne_iff_ne] at hc
  rcases isBlank_or_quote_of_mem_masked (reads_lexemeAt d u) (hclosed _ hmem)
      (mem_of_getElem? hget.symm) with h | h | h | h
  · have hnext := ha.next hdrop
    rw [h] at hi' hnext
    simp only [Lexeme.text, length_singleton] at hi' hnext
    obtain rfl : a = i := by omega
    exact ⟨ha, hnext⟩
  · simp [h] at hc
  · exact absurd h hc.1.2
  · exact absurd h hc.2

/-! ## Blanks next to boundaries -/

theorem lexemeAt_of_isBlank (h : isBlank c = true) : (lexemeAt c t).1 = .code c := by
  have hreads := reads_lexemeAt c t
  generalize lexemeAt c t = p at hreads
  obtain ⟨l, rest⟩ := p
  have hslash : c ≠ '/' := by rintro rfl; revert h; decide
  have hquote : c ≠ '"' := by rintro rfl; revert h; decide
  have hquote' : c ≠ '\'' := by rintro rfl; revert h; decide
  cases hreads with
  | code => rfl
  | line hc | block hc | openBlock hc => exact absurd hc hslash
  | quoted hc => exact (hc.elim hquote hquote').elim
  | text hc | openText hc => exact absurd hc hquote

theorem Boundary.of_blankWithin (h : Boundary t i) (hij : i ≤ j) (hblank : BlankWithin t i j) : Boundary t j := by
  obtain ⟨n, rfl⟩ := Nat.exists_eq_add_of_le hij
  induction n with
  | zero => exact h
  | succ n ih =>
    have ih := ih (by omega) fun k c hk hlt => hblank k c hk (by omega)
    cases hdrop : t.drop (i + n) with
    | nil => exact boundary_of_length_le (by have := drop_eq_nil_iff.1 hdrop; omega)
    | cons c u =>
      have hget : t[i + n]? = some c := by
        have := congrArg (·[0]?) hdrop
        simpa using this
      have hnext := ih.next hdrop
      rw [lexemeAt_of_isBlank (hblank _ c (by omega) (by omega) hget)] at hnext
      exact hnext

theorem Boundary.skipBlanks {t i e} (h : Boundary t i) (he : skipBlanks (mask t) i e < e) :
    Boundary t (skipBlanks (mask t) i e) := by
  have hle := le_skipBlanks (mask t) i e
  have hcode := @not_isBlank_skipBlanks (mask t) i e he
  have hblank : ∀ k, i ≤ k → k < Text.skipBlanks (mask t) i e → ∃ c, (mask t)[k]? = some c ∧ isBlank c = true := by
    intro k hik hk
    obtain ⟨c, hc, hb⟩ := (takeWhile_run isBlank (slice (mask t) i e)).1 (k - i)
      (by simp only [Text.skipBlanks] at hk; omega)
    rw [getElem?_slice, show i + (k - i) = k by omega, if_pos (by omega)] at hc
    exact ⟨c, hc, hb⟩
  generalize Text.skipBlanks (mask t) i e = j at hle hcode hblank ⊢
  rcases Nat.lt_or_ge j t.length with hlt | hge
  · obtain ⟨a, c, u, ha, hdrop, haj, hj⟩ := exists_lexeme t hlt
    rcases Nat.eq_or_lt_of_le haj with rfl | haj
    · exact ha
    -- the lexeme around `j` starts behind `i` with a blank, so it is a comment, and `j` is blank too
    have hia : i ≤ a := Nat.le_of_not_lt fun hai => not_boundary_of_within ha hdrop hai (by omega) h
    obtain ⟨d, hd, hdb⟩ := hblank a hia haj
    have hfirst := ha.getElem?_mask hdrop (k := 0) (by omega)
    have hthere := ha.getElem?_mask hdrop (k := j - a) (by omega)
    rw [Nat.add_zero, hd] at hfirst
    rw [show a + (j - a) = j by omega] at hthere
    obtain ⟨f, hf⟩ : ∃ f, (mask t)[j]? = some f := ⟨_, getElem?_eq_getElem (by simpa using hlt)⟩
    have hfb := hcode hf
    rw [hf] at hthere
    have hreads := reads_lexemeAt c u
    generalize lexemeAt c u = p at hreads hfirst hthere hj
    obtain ⟨l, rest⟩ := p
    cases hreads with
    | code =>
      simp only [Lexeme.text, length_singleton] at hj
      omega
    | line | block | openBlock =>
      have := isBlank_of_mem_blanked (mem_of_getElem? hthere.symm)
      simp [hfb] at this
    | quoted hc =>
      simp only [Lexeme.masked, cons_append, getElem?_cons_zero, Option.some.injEq] at hfirst
      subst hfirst
      rcases hc with rfl | rfl <;> exact absurd hdb (by decide)
    | text | openText =>
      simp only [Lexeme.masked, blockQuote, cons_append, getElem?_cons_zero, Option.some.injEq] at hfirst
      subst hfirst
      exact absurd hdb (by decide)
  · exact boundary_of_length_le hge

theorem Reads.getLast? (h : Reads c t l rest) (hrest : rest ≠ []) (hbreak : '\n' ∈ l.text) :
    ∃ d, l.text.getLast? = some d ∧ (isBlank d = false ∨ d = '\n') := by
  cases h with
  | code => exact ⟨c, rfl, .inr (by simpa [Lexeme.text, eq_comm] using hbreak)⟩
  | line _ _ hbody => simp [Lexeme.text, hbody] at hbreak
  | block => exact ⟨'/', by simp [Lexeme.text, getLast?_cons], .inl (by decide)⟩
  | openBlock | openText => exact absurd rfl hrest
  | text => exact ⟨'"', by simp [Lexeme.text, blockQuote, getLast?_cons], .inl (by decide)⟩
  | quoted hc _ hclosing =>
    rcases hclosing with rfl | rfl | ⟨-, rfl⟩
    · refine ⟨c, by simp [Lexeme.text, getLast?_cons], .inl ?_⟩
      rcases hc with rfl | rfl <;> decide
    · exact ⟨'\n', by simp [Lexeme.text, getLast?_cons], .inr rfl⟩
    · exact absurd rfl hrest

theorem Reads.getLast?_comment {body} (h : Reads c t (.comment body) rest) (hrest : rest ≠ [])
    (hbreak : '\n' ∈ body) : body.getLast? = some '/' := by
  cases h with
  | line _ _ hbody => simp [hbody] at hbreak
  | block => simp [getLast?_cons]
  | openBlock => exact absurd rfl hrest

/-- Blanks on a line in front of a boundary are code, back to the start of the line: what could hold them and ends
on the line does not end with a blank. -/
theorem boundary_lineStart (h : Boundary t i) (hi : i < t.length) (hblank : BlankWithin t (lineStart t i) i) :
    Boundary t (lineStart t i) := by
  obtain ⟨hle, hline, hbreak⟩ := lineStart_spec t i
  generalize lineStart t i = s at hle hline hbreak hblank ⊢
  apply Classical.byContradiction
  intro hnot
  obtain ⟨a, c, u, ha, hdrop, has, hs⟩ := exists_lexeme t (i := s) (by omega)
  have has : a < s := by
    rcases Nat.eq_or_lt_of_le has with rfl | has
    · exact absurd ha hnot
    · exact has
  have hend : a + (lexemeAt c u).1.text.length ≤ i :=
    Nat.le_of_not_lt fun hlt => not_boundary_of_within ha hdrop (by omega) hlt h
  -- the characters of the lexeme, as they stand in the text
  have hget : ∀ k, k < (lexemeAt c u).1.text.length → t[a + k]? = (lexemeAt c u).1.text[k]? := by
    intro k hk
    rw [← getElem?_drop, hdrop, ← text_lexemeAt c u, getElem?_append_left hk]
  have hbreak : '\n' ∈ (lexemeAt c u).1.text := by
    have := hget (s - 1 - a) (by omega)
    rw [show a + (s - 1 - a) = s - 1 by omega, hbreak (by omega)] at this
    exact mem_of_getElem? this.symm
  have hrest : (lexemeAt c u).2 ≠ [] := by
    intro hnil
    have := congrArg List.length (text_lexemeAt c u)
    rw [length_append, hnil, ← hdrop, length_drop, length_nil] at this
    omega
  obtain ⟨d, hd, hlast⟩ := (reads_lexemeAt c u).getLast? hrest hbreak
  rw [getLast?_eq_getElem?, ← hget _ (by omega)] at hd
  rcases hlast with hlast | rfl
  · have := hblank _ d (by omega) (by omega) hd
    simp [hlast] at this
  · exact hline _ (by omega) (by omega) hd

end Rebind.Java
