/-
Spans that cut no comment and no literal.

The members of a class and the statements of a method end with code, and each starts with the first code behind the one
before it.
-/
import Rebind.Proofs.Java.Statements

namespace Rebind.Java

open Text List

structure Uncut (t : Text) (s : Span) : Prop where
  start : Boundary t s.start
  stop : Boundary t s.stop

def CodeAt (t : Text) (i : Nat) : Prop := ∃ c, (mask t)[i]? = some c ∧ isCode c = true

variable {t text masked : Text} {i stop : Nat}

theorem CodeAt.boundary (h : CodeAt t i) (hclosed : BlocksClosed t) : Boundary t i := by
  obtain ⟨c, hc, hcode⟩ := h
  exact (boundary_of_code hclosed hc hcode).1

theorem CodeAt.boundary_stop (h : CodeAt t (i - 1)) (hclosed : BlocksClosed t) : Boundary t i := by
  obtain ⟨c, hc, hcode⟩ := h
  cases i with
  | zero => exact boundary_zero t
  | succ i => exact (boundary_of_code hclosed hc hcode).2

theorem codeAt_of_mem_closers {c} (h : (mask t)[i]? = some c) (hc : c ∈ ';' :: closers) : CodeAt t i := by
  refine ⟨c, h, ?_⟩
  rcases mem_cons.1 hc with rfl | hc
  · decide
  · exact isCode_of_mem_closers hc

theorem codeAt_partner {j} (h : partner (mask t) i = .ok j) : CodeAt t j := by
  obtain ⟨_, closer, -, hkind, -, hcloser, -⟩ := partner_spec h
  exact codeAt_of_mem_closers hcloser (mem_cons_of_mem _ (mem_closers hkind))

/-! ## Members -/

theorem EndsCode.codeAt (h : EndsCode (mask t) i) : CodeAt t (i - 1) := by
  obtain ⟨c, hc, hget⟩ := h
  exact codeAt_of_mem_closers hget hc

theorem memberAt_endsCode {className start m}
    (h : memberAt text masked className stop start = .ok m) : EndsCode masked m.span.stop := by
  obtain ⟨as, i, k, -, -, -, h⟩ := memberAt_cases h
  rcases h with ⟨b, closing, -, -, -, hclosing, rfl | rfl⟩ | ⟨method, hm, rfl⟩ | ⟨last, hlast, h⟩
  · exact endsCode_partner hclosing
  · exact endsCode_partner hclosing
  · obtain ⟨-, -, -, k', -, -, h⟩ := methodAt_spec hm
    rcases h with ⟨-, hsemicolon, hstop⟩ | ⟨closing, -, hclosing, -, hstop⟩
    · exact ⟨';', by simp, by rw [Member.span, hstop]; exact hsemicolon⟩
    · rw [Member.span, hstop]
      exact endsCode_partner hclosing
  · have hsemicolon : EndsCode masked last := ⟨';', by simp, (declarationEnd_spec hlast).2.2.2⟩
    rcases h with ⟨f, hf, rfl⟩ | rfl
    · rw [Member.span, (fieldOf?_spec hf).1]
      exact hsemicolon
    · exact hsemicolon

/-- The members of a class start at boundaries of the text. -/
theorem boundary_of_readUnit {u} (hclosed : BlocksClosed text) (h : readUnit text = .ok u) :
    ∀ type ∈ u.types, ∀ m ∈ type.members, Boundary text m.span.start := by
  intro type htype m hm
  obtain ⟨head, hread, -⟩ := readAt_of_readUnit h htype
  rcases hread.members with hmembers | ⟨-, hnone⟩
  · have hbrace : CodeAt text (type.body.opening + 1 - 1) := ⟨'{', hread.brace, by decide⟩
    obtain ⟨j, hj, hij, hlt, hmember⟩ := mem_membersFrom (P := Boundary text)
      (fun hsemicolon => CodeAt.boundary_stop ⟨';', hsemicolon, by decide⟩ hclosed)
      (fun hm => (memberAt_endsCode hm).codeAt.boundary_stop hclosed) (hbrace.boundary_stop hclosed) hmembers m hm
    have hskip := le_skipBlanks (mask text) j type.body.closing
    rw [(memberAt_spec hread.braces hread.brace (by omega) hmember).1]
    exact hj.skipBlanks hlt
  · rw [hnone] at hm
    cases hm

/-! ## Statements -/

/-- The ends of statements are boundaries of the text. -/
theorem statementsFrom_boundary {ss} (hclosed : BlocksClosed t) (hi : Boundary t i)
    (h : statementsFrom t (mask t) stop i = .ok ss) : ∀ s ∈ ss, Uncut t s.span := by
  intro s hs
  have hends := fun {i last} (hlast : statementEnd (mask t) stop i = .ok last) =>
    (statementEnd_spec hlast).2.2.codeAt.boundary_stop hclosed
  obtain ⟨j, hj, -, hstart, hlt, hend, -⟩ := mem_statementsFrom (fun _ _ => hends) hi h s hs
  rw [hstart] at hlt
  exact ⟨hstart ▸ hj.skipBlanks hlt, hends hend⟩

/-! ## Imports -/

/-- An import starts a line. Behind its semicolon it holds blanks only, and it ends with its line break unless
something else stands on the line. -/
structure Import.Lined (masked : Text) (i : Import) : Prop where
  start : i.span.start = 0 ∨ masked[i.span.start - 1]? = some '\n'
  stop : ∃ k, masked[k]? = some ';' ∧ i.span.start ≤ k ∧ k < i.span.stop ∧ BlankWithin masked (k + 1) i.span.stop ∧
    (masked[i.span.stop - 1]? = some '\n' ∨
      ∀ c, masked[i.span.stop]? = some c → isInlineBlank c = false ∧ c ≠ '\n')

theorem lined_of_mem_imports {i} (h : i ∈ imports masked) : i.Lined masked := by
  simp only [imports, mem_map] at h
  obtain ⟨m, hm, rfl⟩ := h
  have hwithin := allMatches_spec hm (Nat.zero_le _) (Nat.le_refl _)
  have hstop := hwithin.stop_le
  obtain ⟨rest, haccept, hend⟩ := hwithin.accepts
  obtain ⟨front, blanks, tail, hsplit, -, hblanks, htail⟩ := headEnds_import? haccept
  have hlen := congrArg List.length hsplit
  simp only [length_append, length_cons] at hlen
  -- the characters from the start of the match on
  have hget : ∀ k, masked[m.start + k]? = (front ++ ';' :: blanks ++ tail ++ rest)[k]? := by
    intro k
    rw [← hsplit, slice, take_length, getElem?_drop]
  refine ⟨?_, m.start + front.length, ?_, by simp only; omega, by simp only; omega, fun k c hk hlt hc => ?_, ?_⟩
  · have hbefore := before_of_mem_allMatches hm (by omega)
    cases hpos : m.start with
    | zero => exact .inl rfl
    | succ n =>
      have hlt : n < masked.length := by omega
      rw [hpos, charBefore, Before.lineStart, getElem?_eq_getElem hlt] at hbefore
      refine .inr ?_
      simp only [Nat.add_sub_cancel, getElem?_eq_getElem hlt]
      simpa using hbefore
  · rw [hget]
    simp
  · obtain ⟨j, rfl⟩ := Nat.exists_eq_add_of_le hk
    rw [show m.start + front.length + 1 + j = m.start + (front.length + (1 + j)) by omega, hget] at hc
    simp only at hlt
    have hmem : c ∈ blanks ++ tail := by
      rw [append_assoc, append_assoc, getElem?_append_right (by omega),
        show front.length + (1 + j) - front.length = j + 1 by omega, cons_append,
        getElem?_cons_succ, ← append_assoc, getElem?_append_left (by simp; omega)] at hc
      exact mem_of_getElem? hc
    rcases mem_append.1 hmem with hmem | hmem
    · exact isBlank_of_isInlineBlank (hblanks c hmem)
    · rcases htail with rfl | ⟨rfl, -⟩
      · rw [mem_singleton.1 hmem]
        exact isBlank_newline
      · simp at hmem
  · rcases htail with rfl | ⟨rfl, hrest⟩
    · refine .inl ?_
      simp only [length_singleton] at hlen
      simp only
      rw [show m.stop - 1 = m.start + (front.length + 1 + blanks.length) by omega, hget,
        getElem?_append_left (by simp; omega), getElem?_append_right (by simp; omega),
        show front.length + 1 + blanks.length - (front ++ ';' :: blanks).length = 0 by simp; omega]
      rfl
    · refine .inr fun c hc => hrest c ?_
      simp only [length_nil, Nat.add_zero] at hlen
      rw [show m.stop = m.start + (front.length + 1 + blanks.length) by omega, hget,
        getElem?_append_right (by simp; omega)] at hc
      rw [head?_eq_getElem?, ← hc]
      congr 1
      simp
      omega

theorem Import.Lined.comment_of_cut {i : Import} (h : i.Lined (mask t)) (hclosed : BlocksClosed t)
    (hcut : ¬ Boundary t i.span.stop) : t[i.span.stop - 1]? = some '\n' ∧ ∃ a c u body, Boundary t a ∧
      t.drop a = c :: u ∧ a < i.span.stop ∧ i.span.stop < a + (lexemeAt c u).1.text.length ∧
      (lexemeAt c u).1 = .comment body := by
  obtain ⟨k, hk, -, hlt, hblank, hend⟩ := h.stop
  have hsemicolon := (boundary_of_code hclosed hk (by decide)).2
  have hlength : i.span.stop < t.length := Nat.lt_of_not_le fun hle => hcut (boundary_of_length_le hle)
  obtain ⟨a, c, u, ha, hdrop, hle, hstop⟩ := exists_lexeme t hlength
  have hlt' : a < i.span.stop := by
    rcases Nat.eq_or_lt_of_le hle with rfl | hlt'
    · exact absurd ha hcut
    · exact hlt'
  -- the lexeme starts behind the semicolon, and with a blank
  have hka : k + 1 ≤ a := Nat.le_of_not_lt fun hak => not_boundary_of_within ha hdrop hak (by omega) hsemicolon
  have hfirst := ha.getElem?_mask hdrop (k := 0) (by omega)
  have hthere := ha.getElem?_mask hdrop (k := i.span.stop - a) (by omega)
  rw [show a + (i.span.stop - a) = i.span.stop by omega] at hthere
  have hblank : ∀ d, (lexemeAt c u).1.masked[0]? = some d → isBlank d = true :=
    fun d hd => hblank a d hka hlt' (hfirst.trans hd)
  have hcomment : ∃ body, (lexemeAt c u).1 = .comment body := by
    have hreads := reads_lexemeAt c u
    generalize lexemeAt c u = p at hreads hblank hstop
    obtain ⟨l, rest⟩ := p
    cases hreads with
    | code =>
      simp only [Lexeme.text, length_singleton] at hstop
      omega
    | line | block | openBlock => exact ⟨_, rfl⟩
    | quoted hc =>
      have := hblank c rfl
      rcases hc with rfl | rfl <;> exact absurd this (by decide)
    | text | openText => exact absurd (hblank '"' rfl) (by decide)
  obtain ⟨body, hbody⟩ := hcomment
  refine ⟨?_, a, c, u, body, ha, hdrop, hlt', hstop, hbody⟩
  rw [← getElem?_mask_newline]
  rcases hend with hend | hend
  · exact hend
  · -- what the mask shows of a comment is spaces and line breaks
    rw [hbody, Lexeme.masked, blanked, getElem?_map] at hthere
    obtain ⟨d, hd⟩ : ∃ d, body[i.span.stop - a]? = some d := by
      refine ⟨_, getElem?_eq_getElem ?_⟩
      rw [hbody, Lexeme.text] at hstop
      omega
    rw [hd, Option.map_some] at hthere
    obtain ⟨h1, h2⟩ := hend _ hthere
    by_cases hd : d = '\n'
    · simp [hd] at h2
    · simp [hd, isInlineBlank] at h1

theorem Import.Lined.lineStart_eq {i : Import} (h : i.Lined (mask t)) : lineStart t i.span.start = i.span.start := by
  obtain ⟨hle, hline, -⟩ := lineStart_spec t i.span.start
  rcases h.start with h0 | hbreak
  · omega
  · rcases Nat.eq_or_lt_of_le hle with heq | hlt
    · exact heq
    · exact absurd (getElem?_mask_newline.1 hbreak) (hline _ (by omega) (by omega))

end Rebind.Java
