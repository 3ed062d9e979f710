/-
What the mask shows of comments and literals.
 A text of code, comments and closed literals in turn (`Alternates`) is masked piece by piece (`mask_alternates`). A
block literal ends at the first three quotes in a row, escaped or not (`mask_block_iff`).
-/
import Rebind.Proofs.Java.Joining

namespace Rebind.Java

open Text List

/-! ## Pieces of a text -/

/-- Code without quotes, in which no comment opens. -/
structure Bare (t : Text) : Prop where
  quote : '"' ∉ t ∧ '\'' ∉ t
  comment : ¬"//" <:+: t ∧ ¬"/*" <:+: t

/-- What can stand between two quotes `q`: escaped pairs, and characters that end no literal. -/
inductive Quotable (q : Char) : Text → Prop where
  | nil : Quotable q []
  | escaped {c : Char} {t : Text} (hc : c ≠ '\n') (ht : Quotable q t) : Quotable q ('\\' :: c :: t)
  | plain {c : Char} {t : Text} (hc : c ≠ '\\' ∧ c ≠ q ∧ c ≠ '\n') (ht : Quotable q t) : Quotable q (c :: t)

/-- Comments, and literals that are closed on their line. -/
inductive IsToken : Lexeme → Prop where
  | line {body : Text} (hbody : '\n' ∉ body) : IsToken (.comment ('/' :: '/' :: body))
  | block {body : Text} (hbody : ¬"*/" <:+: body) : IsToken (.comment ('/' :: '*' :: (body ++ "*/")))
  | quoted {q : Char} {body : Text} (hq : q = '"' ∨ q = '\'') (hbody : Quotable q body) :
      IsToken (.literal [q] body [q])

/-- Code, and behind it tokens with more code behind each. Only behind the last one may there be none. -/
inductive Alternates : (code : Text) → (rest : List (Lexeme × Text)) → Prop where
  | code {c : Text} (hc : Bare c) : Alternates c []
  | token {c c' : Text} {l : Lexeme} {rest : List (Lexeme × Text)} (hc : Bare c) (hslash : c.getLast? ≠ some '/')
      (hl : IsToken l) (hline : l.isLineComment = true → c'.head?.all (· == '\n') = true) (hgap : c' = [] → rest = [])
      (hrest : Alternates c' rest) : Alternates c ((l, c') :: rest)

variable {c c' v body a z : Text} {l : Lexeme} {q : Char}

/-! ## Code -/

theorem Bare.tail {d} (h : Bare (d :: c)) : Bare c where
  quote := ⟨fun hc => h.quote.1 (by simp [hc]), fun hc => h.quote.2 (by simp [hc])⟩
  comment := ⟨fun hc => h.comment.1 (infix_cons hc), fun hc => h.comment.2 (infix_cons hc)⟩

theorem mask_bare_append (h : Bare c)
    (hslash : c.getLast? = some '/' → v.head? ≠ some '/' ∧ v.head? ≠ some '*') : mask (c ++ v) = c ++ mask v := by
  induction c with
  | nil => rfl
  | cons d c ih =>
    have hcode : lexemeAt d (c ++ v) = (.code d, c ++ v) := by
      refine lexemeAt_code (fun hd => h.quote.1 (by simp [hd])) (fun hd => h.quote.2 (by simp [hd])) ?_
      rintro rfl
      cases c with
      | nil => exact hslash rfl
      | cons e c =>
        refine ⟨?_, ?_⟩
        · intro he
          obtain rfl : e = '/' := by simpa using he
          exact h.comment.1 ⟨[], c, rfl⟩
        · intro he
          obtain rfl : e = '*' := by simpa using he
          exact h.comment.2 ⟨[], c, rfl⟩
    have hrest : mask (c ++ v) = c ++ mask v := by
      refine ih h.tail fun hlast => hslash ?_
      rw [getLast?_cons, hlast]
      rfl
    rw [cons_append, mask_cons, hcode, hrest]
    rfl

/-! ## Tokens -/

theorem quotedBody_of_quotable (hq : q ≠ '\\') (h : Quotable q body) (v : Text) :
    quotedBody q (body ++ q :: v) = (body, q :: v) := by
  induction h with
  | nil => simp [quotedBody_of_ne hq]
  | escaped _ _ ih => simp [quotedBody, ih]
  | plain hc _ ih => simp [quotedBody_of_ne hc.1, ih, hc.2]

/-- The first `p` of a text is found behind `body`, unless one begins in it. -/
theorem cut?_eq_some_iff {p : Text} (hp : p ≠ []) (v : Text) : ∀ body : Text,
    cut? p (body ++ p ++ v) = some (body, v) ↔ ¬p <:+: body ++ p.dropLast
  | [] => by
    obtain ⟨a, p, rfl⟩ := exists_cons_of_ne_nil hp
    have hafter : after? (a :: p) (a :: (p ++ v)) = some v := after?_eq_some.2 rfl
    simp only [nil_append, cons_append, cut?, hafter, true_iff]
    intro h
    have := h.length_le
    rw [length_dropLast, length_cons] at this
    omega
  | c :: body => by
    have ih := cut?_eq_some_iff hp v body
    have hwhole : c :: (body ++ p.dropLast) <+: c :: (body ++ p ++ v) := by
      refine ⟨[p.getLast hp] ++ v, ?_⟩
      rw [← append_assoc, cons_append, append_assoc body, dropLast_append_getLast, cons_append]
    rw [cons_append, cons_append, cons_append, infix_cons_iff, not_or, ← ih]
    simp only [cut?]
    split
    · next rest hrest =>
      -- the text begins with `p`, and this `p` ends before the other one does
      have hbegins : p <+: c :: (body ++ p.dropLast) := by
        refine prefix_of_prefix_length_le ⟨rest, (after?_eq_some.1 hrest).symm⟩ hwhole ?_
        simp only [length_cons, length_append, length_dropLast]
        omega
      simp [hbegins]
    · next hnone =>
      have hnot : ¬p <+: c :: (body ++ p.dropLast) := by
        intro h
        obtain ⟨rest, hrest⟩ := h.trans hwhole
        rw [after?_eq_some.2 hrest.symm] at hnone
        cases hnone
      simp [hnot]

theorem exists_cut? {p : Text} (hp : p ≠ []) (v : Text) : ∀ body : Text,
    ∃ front rest, cut? p (body ++ p ++ v) = some (front, rest) ∧ front.length ≤ body.length
  | [] => by
    obtain ⟨a, p, rfl⟩ := exists_cons_of_ne_nil hp
    have hafter : after? (a :: p) (a :: (p ++ v)) = some v := after?_eq_some.2 rfl
    exact ⟨[], v, by simp only [nil_append, cons_append, cut?, hafter], Nat.le_refl _⟩
  | c :: body => by
    obtain ⟨front, rest, hcut, hle⟩ := exists_cut? hp v body
    simp only [cons_append, cut?]
    split
    · next rest' _ => exact ⟨[], rest', rfl, Nat.zero_le _⟩
    · exact ⟨c :: front, rest, by rw [hcut]; rfl, Nat.succ_le_succ hle⟩

theorem mask_token_append (hl : IsToken l) (hline : l.isLineComment = true → v.head?.all (· == '\n') = true)
    (hquote : v.head? ≠ some '"') : mask (l.text ++ v) = l.masked ++ mask v := by
  have one : ∀ {d : Char} {u : Text}, l.text = d :: u → lexemeAt d (u ++ v) = (l, v) →
      mask (l.text ++ v) = l.masked ++ mask v := by
    intro d u htext hread
    rw [htext, cons_append, mask_cons, hread]
  cases hl with
  | @line body hbody =>
    refine one rfl ?_
    have hall : ∀ d ∈ body, (d != '\n') = true := fun d hd => bne_iff_ne.2 fun h => hbody (h ▸ hd)
    have hend : v.takeWhile (· != '\n') = [] ∧ v.dropWhile (· != '\n') = v := by
      cases v with
      | nil => simp
      | cons d v =>
        obtain rfl : d = '\n' := by simpa using hline rfl
        simp
    simp only [cons_append, lexemeAt, takeWhile_append_of_pos hall, dropWhile_append_of_pos hall, hend, append_nil]
  | @block body hbody =>
    refine one rfl ?_
    have hcut : cut? "*/" (body ++ "*/" ++ v) = some (body, v) := by
      refine (cut?_eq_some_iff (by simp) v body).2 fun h => ?_
      obtain ⟨s, t, hst⟩ := h
      rcases eq_nil_or_concat t with rfl | ⟨t, d, rfl⟩
      · have := congrArg getLast? hst
        simp at this
      · refine hbody ⟨s, t, ?_⟩
        have := congrArg List.dropLast hst
        simpa [← append_assoc] using this
    simp only [cons_append, lexemeAt, hcut]
    rfl
  | @quoted q body hq hbody =>
    refine one (u := body ++ [q]) rfl ?_
    have hread : quotedBody q (body ++ [q] ++ v) = (body, q :: v) := by
      rw [append_assoc]
      exact quotedBody_of_quotable (by rcases hq with rfl | rfl <;> decide) hbody v
    rw [lexemeAt_quote hq, hread]
    · rfl
    · -- no block literal opens: the contents do not start with a quote, nor does what follows
      rintro rfl u hu
      cases hbody with
      | nil =>
        have := congrArg (·[1]?) hu
        exact hquote (by rwa [head?_eq_getElem?])
      | escaped => simp at hu
      | plain hc => simp only [cons_append, List.cons.injEq] at hu; exact hc.2.1 hu.1

/-- Comments, strings and characters between code are masked each by its kind, and the code stays. -/
theorem mask_alternates {rest : List (Lexeme × Text)} (h : Alternates c rest) :
    mask (c ++ rest.flatMap fun p => p.1.text ++ p.2) = c ++ rest.flatMap fun p => p.1.masked ++ p.2 := by
  induction h with
  | code hc => simpa using @mask_bare_append _ [] hc (by simp)
  | @token c c' l rest hc hslash hl hline hgap hrest ih =>
    have hhead : (c' ++ rest.flatMap fun p => p.1.text ++ p.2).head? = c'.head? := by
      cases c' with
      | nil => rw [hgap rfl]; rfl
      | cons d c' => rfl
    have hbare : Bare c' := by cases hrest <;> assumption
    rw [flatMap_cons, append_assoc, mask_bare_append hc fun h => absurd h hslash,
      mask_token_append hl (hhead ▸ hline) fun hd => hbare.quote.1 (mem_of_head? (hhead ▸ hd)), ih,
      flatMap_cons, append_assoc]

theorem mask_alternates_remarked :
    mask "s = \"\\\"/*\" + '\"'; // \"a\n/* '//' */" = "s = \"    \" + ' ';      \n          ".toList := by
  have bare : ∀ t : Text, '"' ∉ t → '\'' ∉ t → ¬"//".toList <:+: t → ¬"/*".toList <:+: t → Bare t :=
    fun _ h1 h2 h3 h4 => ⟨⟨h1, h2⟩, h3, h4⟩
  refine @mask_alternates "s = " [(.literal ['"'] "\\\"/*" ['"'], " + "), (.literal ['\''] "\"" ['\''], "; "),
    (.comment "// \"a", "\n"), (.comment "/* '//' */", [])] ?_
  refine .token (bare _ (by decide) (by decide) (by decide) (by decide)) (by decide)
    (.quoted (.inl rfl) (.escaped (by decide) (.plain (by decide) (.plain (by decide) .nil)))) (by decide)
    (by decide) ?_
  refine .token (bare _ (by decide) (by decide) (by decide) (by decide)) (by decide)
    (.quoted (.inr rfl) (.plain (by decide) .nil)) (by decide) (by decide) ?_
  refine .token (bare _ (by decide) (by decide) (by decide) (by decide)) (by decide)
    (@IsToken.line " \"a" (by decide)) (by decide) (by decide) ?_
  refine .token (bare _ (by decide) (by decide) (by decide) (by decide)) (by decide)
    (@IsToken.block " '//' " (by decide)) (by decide) (by decide) ?_
  exact .code (bare _ (by decide) (by decide) (by decide) (by decide))

/-! ## Block literals -/

/-- The contents of a block literal behind some quotes: a backslash escapes the next character, and no three quotes
without one stand in a row. The closing quotes are not among them. -/
def isBlockBody : (quotes : Nat) → (t : Text) → Bool
  | quotes, [] => quotes == 0
  | _, ['\\'] => false
  | _, '\\' :: _ :: t => isBlockBody 0 t
  | quotes, c :: t => if c == '"' then quotes < 2 && isBlockBody (quotes + 1) t else isBlockBody 0 t

theorem mask_blockQuote_append {front rest} (hcut : cut? blockQuote v = some (front, rest)) :
    mask (blockQuote ++ v) = blockQuote ++ (blanked front ++ (blockQuote ++ mask rest)) := by
  have hread : lexemeAt '"' ('"' :: '"' :: v) = (.literal blockQuote front blockQuote, rest) := by
    simp only [lexemeAt, hcut]
  rw [show blockQuote ++ v = '"' :: '"' :: '"' :: v from rfl, mask_cons, hread]
  simp only [Lexeme.masked, append_assoc]

/-- A block literal is masked as a whole if and only if no three quotes in a row, escaped or not, begin in it. -/
theorem mask_block_iff (ha : Bare a) (body z : Text) :
    mask (a ++ (blockQuote ++ (body ++ blockQuote ++ z))) =
        a ++ (blockQuote ++ (blanked body ++ (blockQuote ++ mask z))) ↔
      ¬blockQuote <:+: body ++ ['"', '"'] := by
  have hne : blockQuote ≠ [] := by simp [blockQuote]
  obtain ⟨front, rest, hcut, hle⟩ := exists_cut? hne z body
  rw [show ['"', '"'] = blockQuote.dropLast from rfl, ← cut?_eq_some_iff hne z body,
    mask_bare_append ha (by simp [blockQuote]), mask_blockQuote_append hcut, hcut, append_cancel_left_eq,
    append_cancel_left_eq]
  constructor
  · intro h
    rcases Nat.lt_or_eq_of_le hle with hlt | heq
    · -- the mask shows a quote where the contents are blank
      have hquote := congrArg (·[front.length]?) h
      have hlen : ∀ t : Text, (blanked t).length = t.length := fun t => length_map _
      simp only [getElem?_append_left (show front.length < (blanked body).length by rwa [hlen]),
        getElem?_append_right (Nat.le_of_eq (hlen front)), hlen, Nat.sub_self, blockQuote, cons_append,
        getElem?_cons_zero] at hquote
      exact absurd (isBlank_of_mem_blanked (mem_of_getElem? hquote.symm)) (by decide)
    · have hsplit := eq_append_of_cut? hcut
      rw [append_assoc, append_assoc] at hsplit
      obtain ⟨rfl, hrest⟩ := append_inj hsplit heq.symm
      rw [append_cancel_left hrest]
  · intro h
    obtain ⟨rfl, rfl⟩ := Prod.mk.inj (Option.some.inj h)
    rfl

theorem mask_block_iff_quoted : ¬blockQuote <:+: "\n \"\" x\n".toList ++ ['"', '"'] ∧
    mask ("s = " ++ (blockQuote ++ ("\n \"\" x\n" ++ blockQuote ++ ";"))) =
      "s = ".toList ++ (blockQuote ++ ("\n     \n" ++ (blockQuote ++ mask ";"))) := by
  have hrow : ¬blockQuote <:+: "\n \"\" x\n".toList ++ ['"', '"'] := by decide +kernel
  exact ⟨hrow, (@mask_block_iff "s = " ⟨by decide, by decide⟩ "\n \"\" x\n" ";").2 hrow⟩

/-- Three quotes in a block literal, of which the first is escaped. -/
def escapedQuotes : Text := "\n \\\"\"\" x\n "

theorem mask_escapedQuotes : isBlockBody 0 escapedQuotes = true ∧
    mask ("s = " ++ (blockQuote ++ (escapedQuotes ++ blockQuote ++ ";\n"))) =
      "s = \"\"\"\n  \"\"\" x\n \"\"\";\n".toList ∧
    "s = ".toList ++ (blockQuote ++ (blanked escapedQuotes ++ (blockQuote ++ mask ";\n"))) =
      "s = \"\"\"\n       \n \"\"\";\n".toList := by
  decide +kernel

end Rebind.Java
