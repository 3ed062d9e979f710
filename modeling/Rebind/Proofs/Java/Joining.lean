/-
Texts put together from pieces.

Where no lexeme of a piece grows together with the next piece, the mask of the whole is put together from those of the
pieces (`Joins`, `joins_slice`).
-/
import Rebind.Proofs.Java.Lexing
import Rebind.Proofs.Text.Matching

namespace Rebind.Java

open Text List

variable {d : Char} {t v : Text}

/-! ## A lexeme in front of something else -/

theorem after?_congr : ∀ {p t t'}, t.take p.length = t'.take p.length → after? p t = none → after? p t' = none
  | [], t, t', _, h => by simp [after?] at h
  | a :: p, [], t', htake, _ => by
    cases t' with
    | nil => rfl
    | cons b t' => simp at htake
  | a :: p, b :: t, [], htake, _ => by simp at htake
  | a :: p, b :: t, b' :: t', htake, h => by
    simp only [length_cons, take_succ_cons, List.cons.injEq] at htake
    obtain ⟨rfl, htake⟩ := htake
    simp only [after?] at h ⊢
    split
    · next hab =>
      rw [if_pos hab] at h
      exact after?_congr htake h
    · rfl

theorem cut?_swap {p : Text} (hp : p ≠ []) : ∀ {t before rest}, cut? p t = some (before, rest) →
    ∀ rest', cut? p (before ++ p ++ rest') = some (before, rest')
  | [], before, rest, h, _ => by
    simp only [cut?] at h
    split at h
    · next hnil => exact absurd (List.isEmpty_iff.1 hnil) hp
    · simp at h
  | c :: t, before, rest, h, rest' => by
    simp only [cut?] at h
    split at h
    · next r hr =>
      obtain ⟨rfl, rfl⟩ := h
      obtain ⟨a, p', rfl⟩ := exists_cons_of_ne_nil hp
      have hafter : after? (a :: p') (a :: (p' ++ rest')) = some rest' := after?_eq_some.2 rfl
      simp only [nil_append, cons_append, cut?, hafter]
    · next hnone =>
      obtain ⟨⟨before', rest''⟩, hcut, heq⟩ := Option.map_eq_some_iff.1 h
      obtain ⟨rfl, rfl⟩ := heq
      have ih := cut?_swap hp hcut rest'
      have hnone' : after? p (c :: (before' ++ p ++ rest')) = none := by
        refine after?_congr ?_ hnone
        have hle : p.length ≤ (c :: (before' ++ p)).length := by
          simp only [length_cons, length_append]
          omega
        have htake : ∀ r, (c :: (before' ++ p ++ r)).take p.length = (c :: (before' ++ p)).take p.length := by
          intro r
          rw [← cons_append, take_append_of_le_length hle]
        rw [eq_append_of_cut? hcut, htake, htake]
      simp only [cons_append, cut?, hnone', ih, Option.map_some]

variable {c : Char} {l : Lexeme} {v u : Text}

theorem quotedBody_of_ne {q} (hc : c ≠ '\\') (t : Text) : quotedBody q (c :: t) =
    if c == q || c == '\n' then ([], c :: t) else (c :: (quotedBody q t).1, (quotedBody q t).2) := by
  rw [quotedBody]
  · intro h
    exact absurd h hc
  · intro d u h
    exact absurd h hc

theorem quotedBody_swap (q : Char) (t : Text) {body rest : Text} (h : quotedBody q t = (body, d :: rest))
    (rest' : Text) : quotedBody q (body ++ d :: rest') = (body, d :: rest') := by
  fun_induction quotedBody q t generalizing body with
  | case1 | case2 => simp at h
  | case3 c t body' r hr ih =>
    obtain ⟨rfl, rfl⟩ := h
    simp only [cons_append, quotedBody, ih hr]
  | case4 c t hne hne' hc =>
    simp only [Prod.mk.injEq, List.cons.injEq] at h
    obtain ⟨rfl, rfl, rfl⟩ := h
    have hback : c ≠ '\\' := by
      intro hback
      cases t with
      | nil => exact hne hback rfl
      | cons e u => exact hne' e u hback rfl
    rw [nil_append, quotedBody_of_ne hback, if_pos hc]
  | case5 c t hne hne' hc body' r hr ih =>
    obtain ⟨rfl, rfl⟩ := h
    have hback : c ≠ '\\' := by
      intro hback
      cases t with
      | nil => exact hne hback rfl
      | cons e u => exact hne' e u hback rfl
    rw [cons_append, quotedBody_of_ne hback, if_neg hc, ih hr]

theorem head?_quotedBody (q : Char) (hq : q ≠ '\\') (t : Text) : (quotedBody q t).1.head? ≠ some q := by
  fun_cases quotedBody q t with
  | case1 => simp
  | case2 | case3 c t => simpa using hq.symm
  | case4 c t hne hne' hc => simp
  | case5 c t hne hne' hc =>
    simp only [Bool.or_eq_true, beq_iff_eq, not_or] at hc
    simpa using hc.1

/-- Read in front of `v`, the text of the lexeme is that lexeme. -/
def Lexeme.Parts (l : Lexeme) (v : Text) : Prop := ∃ c u, l.text = c :: u ∧ lexemeAt c (u ++ v) = (l, v)

theorem parts_lexemeAt (c : Char) (t : Text) : (lexemeAt c t).1.Parts (lexemeAt c t).2 := by
  have htext := text_lexemeAt c t
  have hlength := one_le_length_text_lexemeAt c t
  cases hl : (lexemeAt c t).1.text with
  | nil => simp [hl] at hlength
  | cons d u =>
    rw [hl, cons_append, List.cons.injEq] at htext
    obtain ⟨rfl, htext⟩ := htext
    exact ⟨d, u, hl, by rw [htext]⟩

def Lexeme.isLineComment : Lexeme → Bool
  | comment ('/' :: '/' :: _) => true
  | _ => false

theorem lexemeAt_quote (hc : c = '"' ∨ c = '\'') (hblock : c = '"' → ∀ u, t ≠ '"' :: '"' :: u) :
    lexemeAt c t = (.literal [c] (quotedBody c t).1 ((quotedBody c t).2.take 1), (quotedBody c t).2.drop 1) := by
  unfold lexemeAt
  split
  · simp at hc
  · simp at hc
  · next u => exact absurd rfl (hblock rfl u)
  · rw [if_pos (by simpa using hc)]

theorem lexemeAt_code (hc : c ≠ '"') (hc' : c ≠ '\'')
    (hslash : c = '/' → t.head? ≠ some '/' ∧ t.head? ≠ some '*') : lexemeAt c t = (.code c, t) := by
  unfold lexemeAt
  split
  · simp at hslash
  · simp at hslash
  · simp at hc
  · rw [if_neg (by simp [hc, hc'])]

/-- The lexeme ends before the character, or at the end of a text. -/
structure Lexeme.Meets (l : Lexeme) (d : Option Char) : Prop where
  slash : l = .code '/' → d ≠ some '/' ∧ d ≠ some '*'
  line : l.isLineComment = true → ∀ c, d = some c → c = '\n'
  empty : l = .literal ['"'] [] ['"'] → d ≠ some '"'

theorem Lexeme.meets_none (l : Lexeme) : l.Meets none := ⟨by simp, by simp, by simp⟩

theorem Reads.of_isLineComment {rest} (h : Reads c t l rest) (hline : l.isLineComment = true) :
    '\n' ∉ l.text ∧ ∀ d, rest.head? = some d → d = '\n' := by
  cases h with
  | line _ _ hbody hrest => exact ⟨by simpa [Lexeme.text] using hbody, hrest⟩
  | _ => simp [Lexeme.isLineComment] at hline

theorem Lexeme.Parts.meets (h : l.Parts v) : l.Meets v.head? := by
  obtain ⟨c, u, htext, hl⟩ := h
  have hreads := reads_lexemeAt c (u ++ v)
  rw [hl] at hreads
  refine ⟨?_, ?_, ?_⟩
  · rintro rfl
    obtain rfl : [] = u := by simpa [Lexeme.text] using (List.cons.inj htext).2
    cases hreads with
    | code _ _ hslash => exact hslash rfl
  · exact fun hline => (hreads.of_isLineComment hline).2
  · rintro rfl hquote
    simp only [Lexeme.text, cons_append, nil_append, List.cons.injEq] at htext
    obtain ⟨rfl, rfl⟩ := htext
    cases v with
    | nil => simp at hquote
    | cons d v =>
      obtain rfl : d = '"' := by simpa using hquote
      simp only [cons_append, nil_append, lexemeAt] at hl
      split at hl <;> simp [blockQuote] at hl

theorem Lexeme.Parts.newline_notMem (h : l.Parts v) (hline : l.isLineComment = true) : '\n' ∉ l.text := by
  obtain ⟨c, u, -, hl⟩ := h
  have hreads := reads_lexemeAt c (u ++ v)
  rw [hl] at hreads
  exact (hreads.of_isLineComment hline).1

/-- A lexeme depends on what follows it by one character at most: a slash may begin a comment, an empty literal a block,
and a line comment goes on to the end of its line. -/
theorem Lexeme.Parts.swap {v' : Text} (h : l.Parts v) (hend : v = [] → v' = []) (hmeets : l.Meets v'.head?) :
    l.Parts v' := by
  obtain ⟨hslash, hline, hempty⟩ := hmeets
  obtain ⟨c, u, htext, hl⟩ := h
  refine ⟨c, u, htext, ?_⟩
  by_cases hv : v = []
  · rw [hv] at hl
    rw [hend hv, hl]
  · have hreads := hl
    unfold lexemeAt at hreads
    split at hreads
    · next t heq =>
      simp only [Prod.mk.injEq] at hreads
      obtain ⟨rfl, rfl⟩ := hreads
      obtain rfl : '/' :: t.takeWhile (· != '\n') = u := by simpa [Lexeme.text] using htext
      have hall : ∀ d ∈ t.takeWhile (· != '\n'), (d != '\n') = true := fun d hd => all_eq_true.1 all_takeWhile d hd
      have htake : v'.takeWhile (· != '\n') = [] ∧ v'.dropWhile (· != '\n') = v' := by
        cases v' with
        | nil => simp
        | cons d v' =>
          obtain rfl := hline rfl d rfl
          simp
      simp only [cons_append, lexemeAt, takeWhile_append_of_pos hall, dropWhile_append_of_pos hall, htake, append_nil]
    · next t heq =>
      split at hreads
      · next body rest hcut =>
        obtain ⟨rfl, rfl⟩ := hreads
        obtain rfl : '*' :: (body ++ "*/") = u := by simpa [Lexeme.text] using htext
        simp only [cons_append, lexemeAt, cut?_swap (by simp) hcut v']
      · simp only [Prod.mk.injEq] at hreads
        exact absurd hreads.2.symm hv
    · next t heq =>
      split at hreads
      · next body rest hcut =>
        obtain ⟨rfl, rfl⟩ := hreads
        obtain rfl : '"' :: '"' :: (body ++ blockQuote) = u := by simpa [Lexeme.text, blockQuote] using htext
        simp only [cons_append, lexemeAt, cut?_swap (by simp [blockQuote]) hcut v']
      · simp only [Prod.mk.injEq] at hreads
        exact absurd hreads.2.symm hv
    · next c _ _ _ _ _ =>
      split at hreads
      · next hc =>
        have hquote : c = '"' ∨ c = '\'' := by simpa using hc
        have hhead := head?_quotedBody c (by rcases hquote with rfl | rfl <;> decide) (u ++ v)
        cases hbody : quotedBody c (u ++ v) with
        | mk body rest =>
          rw [hbody] at hreads hhead
          simp only [Prod.mk.injEq] at hreads
          obtain ⟨rfl, hrest⟩ := hreads
          cases rest with
          | nil => exact absurd hrest.symm hv
          | cons d r =>
            obtain rfl : r = v := hrest
            obtain rfl : body ++ [d] = u := by simpa [Lexeme.text] using htext
            have hblock : c = '"' → ∀ w, body ++ [d] ++ v' ≠ '"' :: '"' :: w := by
              rintro rfl w hw
              cases body with
              | nil =>
                simp only [nil_append, cons_append, List.cons.injEq] at hw
                obtain ⟨rfl, hw⟩ := hw
                exact hempty rfl (by rw [hw]; rfl)
              | cons b body =>
                simp only [cons_append, List.cons.injEq] at hw
                exact hhead (by rw [hw.1]; rfl)
            rw [lexemeAt_quote hquote hblock, append_assoc, singleton_append, quotedBody_swap c _ hbody v']
            rfl
      · next hc =>
        simp only [Prod.mk.injEq] at hreads
        obtain ⟨rfl, -⟩ := hreads
        obtain rfl : [] = u := by simpa [Lexeme.text] using htext
        simp only [Bool.or_eq_true, beq_iff_eq, not_or] at hc
        exact lexemeAt_code hc.1 hc.2 fun hcode => hslash (by rw [hcode])

/-! ## Lexemes in a row -/

/-- Read in front of `v`, the texts of the lexemes are those lexemes. -/
def PartsAll : List Lexeme → Text → Prop
  | [], _ => True
  | l :: ls, v => l.Parts (ls.flatMap Lexeme.text ++ v) ∧ PartsAll ls v

theorem lexemes_of_partsAll : ∀ {ls v}, PartsAll ls v →
    lexemes (ls.flatMap Lexeme.text ++ v) = ls ++ lexemes v
  | [], v, _ => rfl
  | l :: ls, v, h => by
    obtain ⟨⟨c, u, htext, hl⟩, hrest⟩ := h
    rw [flatMap_cons, htext, append_assoc, cons_append, lexemes_cons, hl, lexemes_of_partsAll hrest]
    rfl

theorem partsAll_of_lexemes : ∀ {ls t v}, lexemes t = ls ++ lexemes v → PartsAll ls v
  | [], _, _, _ => trivial
  | l :: ls, [], v, h => by simp at h
  | l :: ls, c :: t, v, h => by
    rw [lexemes_cons, cons_append, List.cons.injEq] at h
    obtain ⟨rfl, h⟩ := h
    have hrest : (lexemeAt c t).2 = ls.flatMap Lexeme.text ++ v := by
      rw [← flatMap_text_lexemes (lexemeAt c t).2, h, flatMap_append, flatMap_text_lexemes]
    exact ⟨hrest ▸ parts_lexemeAt c t, partsAll_of_lexemes h⟩

theorem PartsAll.swap : ∀ {ls} {v v' : Text}, PartsAll ls v → (v = [] → v' = []) →
    (∀ l, ls.getLast? = some l → l.Meets v'.head?) → PartsAll ls v'
  | [], _, _, _, _, _ => trivial
  | [l], v, v', h, hend, hmeets => ⟨h.1.swap hend (hmeets l rfl), trivial⟩
  | l :: l' :: ls, v, v', h, hend, hmeets => by
    obtain ⟨hl, hrest⟩ := h
    obtain ⟨c, u, htext, -⟩ := hrest.1
    refine ⟨hl.swap ?_ ?_, hrest.swap hend fun l hlast => hmeets l (by rw [getLast?_cons_cons, hlast])⟩
    · simp [htext]
    · have := hl.meets
      simpa [htext] using this

theorem PartsAll.last : ∀ {ls v l}, PartsAll ls v → ls.getLast? = some l → l.Parts v
  | [], _, _, _, hl => by simp at hl
  | [l'], v, l, h, hl => by
    obtain rfl : l' = l := by simpa using hl
    exact h.1
  | l' :: l'' :: ls, v, l, h, hl => h.2.last (by rwa [getLast?_cons_cons] at hl)

/-- Two texts put together have their lexemes one after the other. -/
def Joins (u v : Text) : Prop := lexemes (u ++ v) = lexemes u ++ lexemes v

theorem Joins.mask_append (h : Joins u v) : mask (u ++ v) = mask u ++ mask v := by
  rw [mask, h, flatMap_append]
  rfl

theorem nil_joins (v : Text) : Joins [] v := by simp [Joins]

section Boundary

variable {t : Text} {i j : Nat}

theorem Boundary.lexemes_take (h : Boundary t j) : lexemes t = lexemes (t.take j) ++ lexemes (t.drop j) ∧
    PartsAll (lexemes (t.take j)) (t.drop j) := by
  obtain ⟨front, hfront, htext⟩ := h
  have hparts := partsAll_of_lexemes hfront
  have hnil : PartsAll front [] := hparts.swap (fun _ => rfl) fun l _ => l.meets_none
  have htake : lexemes (t.take j) = front := by
    rw [← htext]
    simpa using lexemes_of_partsAll hnil
  rw [htake]
  exact ⟨hfront, hparts⟩

theorem Boundary.joins (h : Boundary t j) (hend : t.length ≤ j → v = [])
    (hmeets : ∀ l, (lexemes (t.take j)).getLast? = some l → l.Meets v.head?) : Joins (t.take j) v := by
  have hparts := h.lexemes_take.2.swap (fun hnil => hend (drop_eq_nil_iff.1 hnil)) hmeets
  have hjoin := lexemes_of_partsAll hparts
  rwa [flatMap_text_lexemes] at hjoin

theorem Boundary.mask_take (h : Boundary t j) : mask (t.take j) = (mask t).take j := by
  have hmask : mask t = mask (t.take j) ++ mask (t.drop j) := by
    rw [mask, h.lexemes_take.1, flatMap_append]
    rfl
  rcases Nat.le_total t.length j with hle | hle
  · rw [take_of_length_le hle, take_of_length_le (by rwa [length_mask])]
  · rw [hmask, take_left' (by rw [length_mask, length_take, Nat.min_eq_left hle])]

theorem Boundary.mask_slice (hi : Boundary t i) (hj : Boundary t j) : mask (slice t i j) = slice (mask t) i j := by
  rcases Nat.le_total i j with hij | hij
  · rw [slice, slice, drop_take, drop_take, (hi.drop hj hij).mask_take, hi.drop_mask]
  · have hnil : ∀ u : Text, slice u i j = [] := by
      intro u
      refine drop_eq_nil_of_le ?_
      rw [length_take]
      omega
    rw [hnil, hnil, mask_nil]

theorem Boundary.lexemes_slice (hi : Boundary t i) (hj : Boundary t j) (hij : i ≤ j) :
    lexemes (t.take j) = lexemes (t.take i) ++ lexemes (slice t i j) := by
  have h := hj.lexemes_take.1
  rw [hi.lexemes_take.1, (hi.drop hj hij).lexemes_take.1, drop_drop, Nat.add_sub_cancel' hij, ← append_assoc] at h
  rw [slice, drop_take]
  exact (append_cancel_right h).symm

theorem Boundary.joins_slice (hi : Boundary t i) (hj : Boundary t j) (hij : i ≤ j)
    (hend : t.length ≤ j → v = []) (hmeets : ∀ l, (lexemes (t.take j)).getLast? = some l → l.Meets v.head?) :
    Joins (slice t i j) v := by
  have hlast := hi.lexemes_slice hj hij
  rw [slice, drop_take] at hlast ⊢
  refine (hi.drop hj hij).joins (fun hle => hend ?_) fun l hl => hmeets l ?_
  · rw [length_drop] at hle
    omega
  · rw [hlast, getLast?_append, hl]
    rfl

/-! ## What the mask shows in front of a boundary -/

theorem getLast?_charBefore : ∀ {u j}, j ≤ u.length → charBefore u j = (u.take j).getLast?
  | u, 0, _ => by simp [charBefore]
  | u, n + 1, hle => by
    rw [charBefore, getLast?_take, if_neg (by omega), Nat.add_sub_cancel,
      getElem?_eq_getElem (by omega), Option.some_or]

variable {l : Lexeme}

theorem Boundary.charBefore_mask (hj : Boundary t j) (hle : j ≤ t.length) (hl : (lexemes (t.take j)).getLast? = some l)
    : charBefore (mask t) j = l.masked.getLast? := by
  obtain ⟨front, hfront⟩ := getLast?_eq_some_iff.1 hl
  obtain ⟨c, u, htext, -⟩ := hj.lexemes_take.2.last hl
  have hne : l.masked ≠ [] := by
    intro hnil
    have hlength := l.length_masked
    rw [hnil, htext] at hlength
    simp at hlength
  rw [getLast?_charBefore (by rwa [length_mask]), ← hj.mask_take, mask, hfront, flatMap_append,
    getLast?_append, flatMap_singleton, getLast?_eq_getLast_of_ne_nil hne, Option.some_or]

def OffLine (t : Text) (j : Nat) : Prop :=
  (∃ c, charBefore (mask t) j = some c ∧ (isBlank c = false ∨ c = '\n')) ∨ ∃ c, t[j]? = some c ∧ c ≠ '\n'

theorem Boundary.not_isLineComment (hj : Boundary t j) (hle : j ≤ t.length) (hline : OffLine t j)
    (hl : (lexemes (t.take j)).getLast? = some l) : l.isLineComment = false := by
  apply Bool.eq_false_iff.2
  intro hcomment
  rcases hline with ⟨c, hc, hblank⟩ | ⟨c, hc, hbreak⟩
  · rw [hj.charBefore_mask hle hl] at hc
    have hmem := mem_of_getLast? hc
    cases l with
    | comment body =>
      rcases hblank with hblank | rfl
      · rw [isBlank_of_mem_blanked hmem] at hblank
        cases hblank
      · refine (hj.lexemes_take.2.last hl).newline_notMem hcomment ?_
        obtain ⟨d, hd, heq⟩ := mem_map.1 hmem
        split at heq
        · next hbreak => exact eq_of_beq hbreak ▸ hd
        · simp at heq
    | code d | literal opening body closing => simp [Lexeme.isLineComment] at hcomment
  · refine hbreak ((hj.lexemes_take.2.last hl).meets.line hcomment c ?_)
    rw [head?_drop, hc]

theorem Boundary.meets (hj : Boundary t j) (hle : j ≤ t.length) (hline : OffLine t j)
    (hslash : charBefore (mask t) j ≠ some '/') (hquote : charBefore (mask t) j ≠ some '"') (d : Option Char)
    (hl : (lexemes (t.take j)).getLast? = some l) : l.Meets d := by
  have hmask := hj.charBefore_mask hle hl
  refine ⟨fun h => ?_, fun h => ?_, fun h => ?_⟩
  · rw [hmask, h] at hslash
    exact absurd rfl hslash
  · rw [hj.not_isLineComment hle hline hl] at h
    cases h
  · rw [hmask, h] at hquote
    exact absurd rfl hquote

theorem Boundary.meets_some (hj : Boundary t j) (hle : j ≤ t.length) (hline : OffLine t j) (hslash : d ≠ '/')
    (hstar : d ≠ '*') (hquote : d ≠ '"') (hl : (lexemes (t.take j)).getLast? = some l) : l.Meets (some d) := by
  refine ⟨fun _ => ⟨by simpa using hslash, by simpa using hstar⟩, fun h => ?_, fun _ => by simpa using hquote⟩
  rw [hj.not_isLineComment hle hline hl] at h
  cases h

end Boundary

/-! ## Whole texts -/

/-- The text keeps its lexemes whatever follows it. -/
def Whole (u : Text) : Prop := ∀ v, Joins u v

theorem whole_nil : Whole [] := nil_joins

theorem Whole.append {w} (hu : Whole u) (hw : Whole w) : Whole (u ++ w) := by
  intro v
  rw [Joins, append_assoc, hu (w ++ v), hw v, hu w, append_assoc]

theorem whole_cons (hc : c ≠ '"') (hc' : c ≠ '\'') (hslash : c ≠ '/') (hu : Whole u) : Whole (c :: u) := by
  intro v
  have hcode : ∀ w, lexemeAt c w = (.code c, w) := fun w => lexemeAt_code hc hc' fun h => absurd h hslash
  rw [Joins, cons_append, lexemes_cons, lexemes_cons, hcode, hcode, hu v]
  rfl

section Slice

variable {t : Text} {i j : Nat} (hi : Boundary t i) (hj : Boundary t j) (hij : i ≤ j) (hlt : j < t.length)
  (hline : OffLine t j)

include hi hj hij hlt hline

theorem whole_slice (hslash : charBefore (mask t) j ≠ some '/') (hquote : charBefore (mask t) j ≠ some '"') :
    Whole (slice t i j) := by
  intro v
  refine hi.joins_slice hj hij (fun hle => by omega) fun l hl => ?_
  exact hj.meets (Nat.le_of_lt hlt) hline hslash hquote _ hl

theorem whole_slice_append {u : Text} (hslash : d ≠ '/') (hstar : d ≠ '*') (hquote : d ≠ '"')
    (hu : Whole (d :: u)) : Whole (slice t i j ++ d :: u) ∧ Joins (slice t i j) (d :: u) := by
  have hjoins : ∀ v, Joins (slice t i j) (d :: v) := by
    intro v
    refine hi.joins_slice hj hij (fun hle => by omega) fun l hl => ?_
    exact hj.meets_some (Nat.le_of_lt hlt) hline hslash hstar hquote hl
  refine ⟨fun v => ?_, hjoins u⟩
  rw [Joins, append_assoc, cons_append, hjoins (u ++ v), ← cons_append, hu v, hjoins u, append_assoc]

end Slice

end Rebind.Java
