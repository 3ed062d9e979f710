/-
How far a variable that is declared in a head is in scope.

It is taken to be in scope up to the first comma, semicolon or closing bracket behind the head and outside of brackets.
The statement behind the head ends there exactly if it is a block, if its last character is the only such comma or
semicolon, or if it has none and one follows at once (`head_scope_iff`).
-/
import Rebind.Proofs.Java.Scopes

namespace Rebind.Java

open Text List Option Except

/-! ## Expressions -/

/-- Code that nests its brackets and has no comma or semicolon outside of them. -/
structure Unstopped (t : Text) : Prop where
  nests : WellBracketed t
  goesOn : ∀ u c v, t = u ++ c :: v → c = ',' ∨ c = ';' → ¬WellBracketed u

variable {t rest : Text} {pos k : Nat}

theorem expressionEnd?_append : ∀ {b extra pos}, owedAfter extra b = some [] →
    (∀ u c v, b = u ++ c :: v → c = ',' ∨ c = ';' → owedAfter extra u ≠ some []) →
    expressionEnd? extra.length pos (b ++ rest) = expressionEnd? 0 (pos + b.length) rest
  | [], extra, pos, h, _ => by
    obtain rfl : extra = [] := by simpa [owedAfter] using h
    rfl
  | c :: b, extra, pos, h, hopen => by
    rw [owedAfter_cons] at h
    obtain ⟨owed, hstep, hrest⟩ := bind_eq_some_iff.1 h
    have ih := @expressionEnd?_append b owed (pos + 1) hrest fun u d v hb hd hu =>
      hopen (c :: u) d v (by rw [hb, cons_append]) hd (by rw [owedAfter_cons, hstep, bind_some, hu])
    rw [cons_append, expressionEnd?, length_cons, show pos + (b.length + 1) = pos + 1 + b.length by omega, ← ih,
      isOpener_iff]
    rcases owedStep_eq_some hstep with ⟨closer, hc, rfl⟩ | ⟨hc, rfl⟩ | ⟨hc, hc', rfl⟩
    · rw [hc]
      rfl
    · rw [closerOf?_of_mem_closers hc, contains_iff_mem.2 hc]
      rfl
    · have hgoes : ¬(owed.length = 0 ∧ (c = ',' ∨ c = ';')) := by
        rintro ⟨hnil, hsign⟩
        rw [length_eq_zero_iff] at hnil
        exact hopen [] c b rfl hsign (by rw [hnil]; rfl)
      rw [hc, if_neg (by simp), if_neg (by simpa using hc'), if_neg hgoes]

theorem Unstopped.expressionEnd?_eq (h : Unstopped t) (pos : Nat) (rest : Text) :
    expressionEnd? 0 pos (t ++ rest) = expressionEnd? 0 (pos + t.length) rest :=
  @expressionEnd?_append rest t [] pos h.nests h.goesOn

theorem le_of_expressionEnd? : ∀ {t depth pos k}, expressionEnd? depth pos t = some k → pos ≤ k
  | [], depth, pos, k, h => by cases h
  | c :: t, depth, pos, k, h => by
    have later : ∀ {depth}, expressionEnd? depth (pos + 1) t = some k → pos ≤ k :=
      fun h => Nat.le_of_succ_le (le_of_expressionEnd? h)
    simp only [expressionEnd?] at h
    split at h
    · exact later h
    · split at h
      · split at h
        · exact (some.inj h).le
        · exact later h
      · split at h
        · exact (some.inj h).le
        · exact later h

theorem expressionEnd?_eq_pos {c} : expressionEnd? 0 pos (c :: t) = some pos ↔ c = ',' ∨ c = ';' ∨ c ∈ closers := by
  have later : ∀ {depth}, expressionEnd? depth (pos + 1) t ≠ some pos :=
    fun h => absurd (le_of_expressionEnd? h) (by omega)
  rw [expressionEnd?]
  split
  · next hopener =>
    refine iff_of_false later ?_
    rw [contains_iff_mem] at hopener
    simp only [openers, closers, mem_cons, not_mem_nil, or_false] at hopener ⊢
    rcases hopener with rfl | rfl | rfl <;> decide
  · split
    · next hcloser => simp [contains_iff_mem.1 hcloser]
    · next hcloser =>
      rw [contains_iff_mem] at hcloser
      split
      · next hstop => simpa using hstop.2.imp_right .inl
      · next hstop => simpa [later, hcloser] using hstop

/-- Code that nests its brackets goes on or has a first comma or semicolon outside of brackets. -/
theorem unstopped_or_stop {t} (ht : WellBracketed t) :
    Unstopped t ∨ ∃ u c v, t = u ++ c :: v ∧ (c = ',' ∨ c = ';') ∧ Unstopped u := by
  by_cases hstop : ∃ u c v, t = u ++ c :: v ∧ (c = ',' ∨ c = ';') ∧ WellBracketed u
  · obtain ⟨u, c, v, rfl, hc, hu⟩ := hstop
    rcases unstopped_or_stop hu with hu | ⟨u, d, w, rfl, hd, hu⟩
    · exact .inr ⟨u, c, v, rfl, hc, hu⟩
    · exact .inr ⟨u, d, w ++ c :: v, by simp, hd, hu⟩
  · exact .inl ⟨ht, fun u c v heq hc hu => hstop ⟨u, c, v, heq, hc, hu⟩⟩
termination_by t.length
decreasing_by
  subst_vars
  simp

/-! ## Statements -/

theorem IsFront.wellBracketed {word f} (h : IsFront word f) (hword : word.all isWord = true) :
    WellBracketed f := by
  cases h with
  | mk hg hhead hg' =>
    exact (((wellBracketed_of_word hword).append (wellBracketed_of_blank hg)).append (hhead.wellBracketed rfl)).append
      (wellBracketed_of_blank hg')

theorem IsClauses.wellBracketed (h : IsClauses t) : WellBracketed t := by
  induction h with
  | nil => rfl
  | caught hg hf hblock _ ih =>
    exact (((wellBracketed_of_blank hg).append (hf.wellBracketed rfl)).append (hblock.wellBracketed rfl)).append ih
  | last hg hg' hblock =>
    exact (((wellBracketed_of_blank hg).append (wellBracketed_of_word rfl)).append (wellBracketed_of_blank hg')).append
      (hblock.wellBracketed rfl)

theorem wellBracketed_semicolon : WellBracketed [';'] := rfl

theorem IsStatement.wellBracketed (h : IsStatement t) : WellBracketed t := by
  induction h with
  | basic ht =>
    cases ht with
    | block ht => exact ht.wellBracketed rfl
    | simple hcode => exact hcode.unended.nests.append wellBracketed_semicolon
    | tried hf hblock hclauses =>
      refine (WellBracketed.append ?_ (hblock.wellBracketed rfl)).append hclauses.wellBracketed
      cases hf with
      | bare hg => exact (wellBracketed_of_word rfl).append (wellBracketed_of_blank hg)
      | resources hf => exact hf.wellBracketed rfl
  | control hword hf _ ih => exact (hf.wellBracketed (controlWords_spec hword).2.1).append ih
  | ifElse hf _ he _ iht ihu =>
    refine (((hf.wellBracketed rfl).append iht).append ?_).append ihu
    cases he with
    | mk hg hg' =>
        exact ((wellBracketed_of_blank hg).append (wellBracketed_of_word rfl)).append (wellBracketed_of_blank hg')
  | doWhile hg _ _ hg' hf ih =>
    exact (((((wellBracketed_of_word rfl).append (wellBracketed_of_blank hg)).append ih).append
      (wellBracketed_of_blank hg')).append (hf.wellBracketed rfl)).append wellBracketed_semicolon

theorem IsFront.head? {word f} (h : IsFront word f) (hne : word ≠ []) (rest : Text) :
    (f ++ rest).head? = word.head? := by
  cases h with
  | mk =>
    cases word with
    | nil => exact absurd rfl hne
    | cons => rfl

/-- A statement that starts with a brace is a block. -/
theorem IsStatement.isBlock (h : IsStatement t) (hhead : t.head? = some '\x7b') : IsBlock t := by
  cases h with
  | basic ht =>
    cases ht with
    | block ht => exact ht
    | @simple code hcode =>
      have hfirst := hcode.first
      cases code with
      | nil => exact absurd hhead (by decide)
      | cons c code =>
        obtain rfl : c = '\x7b' := by simpa using hhead
        exact absurd hfirst (by simp)
    | tried hf =>
      cases hf with
      | bare => exact absurd hhead (by simp)
      | resources hf =>
        rw [append_assoc, hf.head? (by decide)] at hhead
        exact absurd hhead (by decide)
  | control hword hf =>
    rw [hf.head? (by rintro rfl; revert hword; decide)] at hhead
    simp only [controlWords, mem_cons, not_mem_nil, or_false] at hword
    rcases hword with rfl | rfl | rfl | rfl | rfl <;> exact absurd hhead (by decide)
  | ifElse hf =>
    rw [append_assoc, append_assoc, hf.head? (by decide)] at hhead
    exact absurd hhead (by decide)
  | doWhile => exact absurd hhead (by simp)

/-! ## Heads -/

variable {masked name : Text} {s e q i j b : Nat} {d : Char}

/-- The body behind an offset ends where the statement there does. -/
def EndsWith (masked : Text) (b k : Nat) : Prop :=
  IsBlock (slice masked b k) ∨ (∃ u, slice masked b k = u ++ [';'] ∧ Unstopped u) ∨
    Unstopped (slice masked b k) ∧ ∃ c, masked[k]? = some c ∧ (c = ',' ∨ c ∈ closers)

theorem Body.closes (h : Body masked s e) : masked[e]? = some '\x7d' := by
  obtain ⟨_, ⟨t, -, rfl⟩, hat, hlen⟩ := h
  rw [length_cons, length_append, length_singleton] at hlen
  rw [stands_cons, stands_append, stands_cons, show s + 1 + t.length = e by omega] at hat
  exact hat.2.2.1

theorem bodyEnd_eq_iff (h : Body masked s e) (hb : skipBlanks masked i e = b)
    (hstatement : IsStatement (slice masked b k))
    (hle : b < k) (hk : k ≤ e) {stop} (hstop : bodyEnd masked i e = .ok stop) :
    stop = k ↔ EndsWith masked b k := by
  have hbody := h.le_length
  have hlen : b + (slice masked b k).length = k := by
    rw [length_slice]
    omega
  have hslice := (stands_slice masked b k).slice_stop (hlen.le.trans hk)
  rw [hlen] at hslice
  simp only [bodyEnd, codeFrom_eq hbody.2.le, ok_bind, hb] at hstop
  simp only [EndsWith]
  have hat := stands_slice masked b k
  generalize slice masked b k = t at hstatement hlen hslice hat ⊢
  have hwell := hstatement.wellBracketed
  split at hstop
  · next hbrace =>
    have hhead : t.head? = some '\x7b' := by
      cases t with
      | nil => exact absurd hlen hle.ne
      | cons c t => exact (stands_cons.1 hat).1.symm.trans hbrace.2
    have hblock := hstatement.isBlock hhead
    rw [partner_of_stands hblock rfl hat] at hstop
    obtain rfl := ok.inj hstop
    exact iff_of_true (by omega) (.inl hblock)
  · next hnot =>
    have hblock : ¬IsBlock t := fun hblock => hnot ⟨by omega, hblock.getElem? hat⟩
    rw [hslice] at hstop
    rcases unstopped_or_stop hwell with hgoes | ⟨u, c, v, rfl, hc, hu⟩
    · have hsemi : ¬∃ u, t = u ++ [';'] ∧ Unstopped u := by
        rintro ⟨u, rfl, hu⟩
        exact hgoes.goesOn u ';' [] rfl (.inr rfl) hu.nests
      simp only [hblock, hsemi, hgoes, true_and, false_or]
      rw [hgoes.expressionEnd?_eq, hlen] at hstop
      -- the first character behind the statement is where an expression ends, or lies before
      have hnext : k < e → ∃ c, masked[k]? = some c ∧
          (expressionEnd? 0 k (slice masked k e) = some k ↔ c = ',' ∨ c = ';' ∨ c ∈ closers) := by
        intro hlt
        have hget := getElem?_eq_getElem (hlt.trans hbody.2)
        have hstands : Stands masked k [masked[k]] := stands_cons.2 ⟨hget, stands_nil _ _⟩
        refine ⟨_, hget, ?_⟩
        rw [hstands.slice_stop hlt]
        exact expressionEnd?_eq_pos
      have hsemi : ';' ∉ closers := by decide
      cases hfound : expressionEnd? 0 k (slice masked k e) with
      | none =>
        simp only [hfound] at hstop hnext
        rw [if_neg (by omega)] at hstop
        obtain rfl := ok.inj hstop
        rcases hk.eq_or_lt with rfl | hlt
        · exact iff_of_true rfl ⟨_, h.closes, by decide⟩
        · obtain ⟨c, hc, hiff⟩ := hnext hlt
          refine iff_of_false hlt.ne' ?_
          rintro ⟨d, hd, hsign⟩
          obtain rfl := some.inj (hc.symm.trans hd)
          exact absurd (hiff.2 (hsign.imp_right .inr)) (by simp)
      | some k' =>
        simp only [hfound] at hstop hnext
        have hkk := le_of_expressionEnd? hfound
        obtain rfl := ok.inj hstop
        rcases hk.eq_or_lt with rfl | hlt
        · simp [slice, expressionEnd?] at hfound
        · obtain ⟨c, hc, hiff⟩ := hnext hlt
          rw [some.injEq] at hiff
          constructor
          · intro heq
            split at heq
            · omega
            · next hnotSemi =>
              subst heq
              refine ⟨c, hc, (hiff.1 rfl).imp_right (Or.resolve_left · ?_)⟩
              rintro rfl
              exact hnotSemi hc
          · rintro ⟨d, hd, hsign⟩
            obtain rfl := some.inj (hc.symm.trans hd)
            obtain rfl := hiff.2 (hsign.imp_right .inr)
            refine if_neg fun heq => ?_
            obtain rfl := some.inj (hc.symm.trans heq)
            exact hsign.elim (by decide) hsemi
    · have hnotUnstopped : ¬Unstopped (u ++ c :: v) := fun h => h.goesOn u c v rfl hc hu.nests
      have hcAt : masked[b + u.length]? = some c := (stands_cons.1 (stands_append.1 hat).2).1
      have hfound : expressionEnd? 0 (b + u.length) (c :: (v ++ slice masked k e)) = some (b + u.length) :=
        expressionEnd?_eq_pos.2 (by tauto)
      rw [append_assoc, cons_append, hu.expressionEnd?_eq, hfound] at hstop
      simp only [hblock, hnotUnstopped, false_and, false_or, or_false]
      rw [length_append, length_cons] at hlen
      obtain rfl := ok.inj hstop
      simp only [hcAt, some.injEq]
      constructor
      · intro heq
        obtain ⟨rfl, hv⟩ : c = ';' ∧ v.length = 0 := by
          split at heq
          · exact ⟨‹_›, by omega⟩
          · omega
        rw [length_eq_zero_iff] at hv
        exact ⟨u, by rw [hv], hu⟩
      · rintro ⟨u', heq, hu'⟩
        rcases eq_nil_or_concat v with rfl | ⟨v, x, rfl⟩
        · obtain ⟨-, heq⟩ := append_inj' heq rfl
          rw [if_pos (List.cons.inj heq).1]
          exact hlen
        · obtain ⟨rfl, -⟩ : u ++ c :: v = u' ∧ [x] = [';'] := append_inj' (by simpa using heq) rfl
          exact absurd hu.nests (hu'.goesOn u c v rfl hc)

/-- The variable that a head declares is in scope up to the end of the statement behind it exactly if that statement is
a block or ends where the expression there would. -/
theorem head_scope_iff (h : Body masked s e) (hs : s ≤ i)
    (hin : Directly masked i q '(') (hname : NameAt masked e q name)
    (htype : endsInType (codeBefore masked q) = true) (hnext : skipBlanks masked (q + name.length) e < e)
    (hd : masked[skipBlanks masked (q + name.length) e]? = some d) (hmark : d ∈ ['=', ';', ',', ':', ')'])
    (hpartner : partner masked i = .ok j) (hb : skipBlanks masked (j + 1) e = b) (harrow : arrowAt masked b = false)
    (hend : statementEnd masked e b = .ok k) (hk : k ≤ e) (hstatement : IsStatement (slice masked b k)) :
    ∃ scopes stop, shadowingScopes masked s e name = .ok scopes ∧ (∀ stop', ⟨q, stop'⟩ ∈ scopes ↔ stop' = stop) ∧
      (stop = k ↔ EndsWith masked b k) := by
  have hlt := hin.lt
  obtain ⟨scopes, hscopes⟩ := h.exists_scopes name
  have hj := (partner_lt_length hpartner).1
  obtain ⟨stop, hstop⟩ := h.exists_bodyEnd (show s ≤ j + 1 by omega)
  refine ⟨scopes, stop, hscopes, fun stop' => ?_, bodyEnd_eq_iff h hb hstatement (statementEnd_spec hend).1 hk hstop⟩
  rw [hname.mem_scopes_iff (by omega) h.le_length.2.le hscopes,
    scopeAt?_of_head h hs hpartner hnext hd hmark (Nat.le_add_right _ _) hin (hb ▸ harrow) hstop htype]
  simp [eq_comm]

def loopOfCalls : Text := "\x7bfor (V n : vs) n.a();\x7d"

theorem head_scope_iff_loopOfCalls :
    ∃ scopes stop, shadowingScopes loopOfCalls 0 22 "n" = .ok scopes ∧ (∀ stop', ⟨8, stop'⟩ ∈ scopes ↔ stop' = stop) ∧
      (stop = 22 ↔ EndsWith loopOfCalls 16 22) :=
  @head_scope_iff 22 loopOfCalls "n" 0 22 8 5 14 16 ':'
    ⟨loopOfCalls, ⟨"for (V n : vs) n.a();", rfl, rfl⟩, prefix_refl _, rfl⟩ (Nat.zero_le 5) ⟨rfl, by decide, rfl⟩
    ⟨by decide, rfl, ⟨" : vs) n.a();\x7d", rfl⟩, by decide,
      fun _ hc => some.inj (show some ' ' = _ from hc) ▸ rfl,
      fun _ hc => some.inj (show some ' ' = _ from hc) ▸ rfl⟩ rfl
    (by decide) rfl (by decide) rfl rfl rfl
    (by decide +kernel) (Nat.le_refl 22)
    (.basic (@IsBasic.simple "n.a()" ⟨by decide, by decide, rfl⟩))

/-- A loop around an `if` statement with an `else`. -/
def loopOfChoices : Text := "\x7bfor (V n : vs) if (c) a(); else n.b();\x7d"

theorem scope_loopOfChoices :
    shadowingScopes loopOfChoices 0 39 "n" = .ok [⟨8, 27⟩] ∧ statementEnd loopOfChoices 39 16 = .ok 39 := by
  decide +kernel

end Rebind.Java
