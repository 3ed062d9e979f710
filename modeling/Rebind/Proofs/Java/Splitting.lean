/-
Cutting a body into its statements: a sequence of statements with blanks between them is cut into just these
(`statements_of_sequence`).
-/
import Rebind.Proofs.Java.StatementGrammar

namespace Rebind.Java

open Text List Option

variable {masked : Text} {stop i j : Nat}

/-! ## Words and fronts -/

def nextWord (masked : Text) (stop i : Nat) : Text := (masked.drop (skipBlanks masked i stop)).takeWhile isWord

variable {word rest t g f block : Text} {o : Bool} {c : Char}

theorem head_of_name? (h : name? (masked.drop i) = some (word, rest)) :
    ∃ c, masked[i]? = some c ∧ isNameStart c = true := by
  cases hdrop : masked.drop i with
  | nil => simp [hdrop, name?] at h
  | cons c t =>
    rw [hdrop, name?] at h
    split at h
    · next hc => exact ⟨c, by rw [← head?_drop, hdrop, head?_cons], hc⟩
    · simp at h

theorem solid_of_name? (h : name? (masked.drop i) = some (word, rest)) : Solid masked stop i := by
  obtain ⟨c, hc, hstart⟩ := head_of_name? h
  refine .inr ⟨c, hc, ?_⟩
  cases hblank : isBlank c with
  | false => rfl
  | true =>
    have hpart := isNamePart_of_isNameStart hstart
    rw [isNamePart_of_isBlank hblank] at hpart
    cases hpart

theorem takeWhile_isWord_of_name? (h : name? t = some (word, rest)) (hword : word.all isWord = true) :
    t.takeWhile isWord = word := by
  have htake := takeWhile_of_name? h
  have hsplit := @List.takeWhile_append_dropWhile _ isNamePart t
  rw [htake] at hsplit
  rw [← hsplit]
  refine takeWhile_word hword fun c hc => ?_
  have hnot := head?_dropWhile_not isNamePart t
  rw [hc] at hnot
  simp only [isNamePart, Bool.or_eq_false_iff] at hnot
  exact hnot.1

theorem nextWord_of_name? (h : name? (masked.drop (skipBlanks masked i stop)) = some (word, rest))
    (hword : word.all isWord = true) : nextWord masked stop i = word :=
  takeWhile_isWord_of_name? h hword

theorem takeWhile_isWord_eq_iff (hword : word.all isWord = true) :
    t.takeWhile isWord = word ↔ ∃ rest, after? word t = some rest ∧ wordEnds rest = true := by
  constructor
  · rintro rfl
    refine ⟨t.dropWhile isWord, after?_eq_some.2 takeWhile_append_dropWhile.symm, ?_⟩
    have hnot := head?_dropWhile_not isWord t
    cases hrest : t.dropWhile isWord with
    | nil => rfl
    | cons c rest => simpa [hrest, wordEnds] using hnot
  · rintro ⟨rest, hafter, hends⟩
    rw [after?_eq_some.1 hafter]
    refine takeWhile_word hword fun c hc => ?_
    cases rest with
    | nil => simp at hc
    | cons d rest =>
      obtain rfl : d = c := by simpa using hc
      simpa [wordEnds] using hends

theorem Settled.solid (h : Settled o t) (hat : Stands masked i t) : Solid masked stop i := by
  have hstarts := h.starts []
  rw [append_nil] at hstarts
  obtain ⟨c, hc, hsolid⟩ := hstarts.solid
  obtain ⟨rest, rfl⟩ := head?_eq_some_iff.1 hc
  exact .inr ⟨c, (stands_cons.1 hat).1, hsolid⟩

theorem nameEnds_of_blanks (hat : Stands masked i g) (hg : isAllBlank g = true) (hnext : NameEnds masked (i + g.length))
    : NameEnds masked i := by
  cases g with
  | nil => exact hnext
  | cons d g =>
    intro c hc
    obtain rfl : d = c := some.inj ((stands_cons.1 hat).1.symm.trans hc)
    exact isNamePart_of_isBlank (all_eq_true.1 hg d (by simp))

theorem nameEnds_of_stands (hat : Stands masked i t) (hends : nameEnds t = true) (ht : t ≠ []) : NameEnds masked i := by
  cases t with
  | nil => exact absurd rfl ht
  | cons d t =>
    intro c hc
    obtain rfl : d = c := some.inj ((stands_cons.1 hat).1.symm.trans hc)
    simpa [nameEnds] using hends

theorem nameEnds_of_getElem? (hc : masked[i]? = some c) (hpart : isNamePart c = false) : NameEnds masked i := by
  intro d hd
  obtain rfl : d = c := some.inj (hd.symm.trans hc)
  exact hpart

theorem read_word {word g} (hname : isName word = true) (hat : Stands masked i (word ++ g))
    (hg : isAllBlank g = true) (hends : NameEnds masked (i + word.length)) (hstop : i + word.length + g.length ≤ stop)
    (hsolid : Solid masked stop (i + word.length + g.length)) :
    ∃ rest, name? (masked.drop i) = some (word, rest) ∧ masked.length - rest.length = i + word.length ∧
      i + word.length ≤ masked.length ∧ 0 < word.length ∧
      skipBlanks masked (i + word.length) stop = i + word.length + g.length := by
  obtain ⟨hatword, hatg⟩ := stands_append.1 hat
  have hne : word ≠ [] := by
    rintro rfl
    simp [isName] at hname
  have hlen := hatword.le_length hne
  exact ⟨_, name?_of_stands hatword hname hends, by rw [length_drop]; omega, hlen, length_pos_iff.2 hne,
    skipBlanks_of_stands hatg hg hstop hsolid⟩

theorem IsFront.read {word f} (h : IsFront word f) (hname : isName word = true) (hat : Stands masked i f)
    (hstop : i + f.length ≤ stop) (hsolid : Solid masked stop (i + f.length)) :
    ∃ rest k close, name? (masked.drop i) = some (word, rest) ∧ masked.length - rest.length = i + word.length ∧
      skipBlanks masked (i + word.length) stop = k ∧ i < k ∧ k < stop ∧ masked[k]? = some '(' ∧
      partner masked k = .ok close ∧ k < close ∧ skipBlanks masked (close + 1) stop = i + f.length := by
  obtain @⟨g, head, g', hg, hhead, hg'⟩ := h
  have hpos := hhead.length_pos
  obtain ⟨hat, hathead, hatg'⟩ := hat.split
  obtain ⟨-, hatg⟩ := stands_append.1 hat
  simp only [length_append, ← Nat.add_assoc] at hathead hatg' hstop hsolid ⊢
  have hparen := hhead.getElem? hathead
  have hends := nameEnds_of_blanks hatg hg (nameEnds_of_getElem? hparen (by decide))
  obtain ⟨rest, hfound, hwordEnd, -, hword, hskip⟩ :=
    @read_word masked stop i word g hname hat hg hends (by omega) (.inr ⟨'(', hparen, by decide⟩)
  refine ⟨rest, _, _, hfound, hwordEnd, hskip, by omega, by omega, hparen, partner_of_stands hhead rfl hathead,
    by omega, ?_⟩
  rw [show i + word.length + g.length + head.length - 1 + 1 = i + word.length + g.length + head.length by omega]
  exact skipBlanks_of_stands hatg' hg' hstop hsolid

theorem IsFront.runsOn (h : IsFront word f) (hword : word.all isNamePart = true) : RunsOn f := by
  obtain @⟨g, head, g', hg, hhead, hg'⟩ := h
  have hname : Unended word := unended_of_forall fun c hc => by
    have hpart := all_eq_true.1 hword c hc
    refine ⟨not_isBracket_of_isNamePart hpart, ?_⟩
    rintro rfl
    revert hpart
    decide
  exact ((hname.runsOn.append (unended_of_blank hg).runsOn).append (hhead.runsOn rfl)).append
    (unended_of_blank hg').runsOn

/-! ## One statement -/

/-- The end of the statement behind an offset, which is part of the one at `i`. -/
def innerEnd (masked : Text) (stop i j : Nat) : Except ReadError Nat :=
  if i < skipBlanks masked j stop ∧ i < masked.length then statementEnd masked stop (skipBlanks masked j stop)
  else .error .endOfText

theorem not_block_of_name? (h : name? (masked.drop i) = some (word, rest)) :
    masked[i]? ≠ none ∧ masked[i]? ≠ some '{' ∧ masked[i]? ≠ some ';' := by
  obtain ⟨c, hc, hstart⟩ := head_of_name? h
  rw [hc]
  refine ⟨by simp, ?_, ?_⟩
  · rintro heq
    obtain rfl := some.inj heq
    exact absurd hstart (by decide)
  · rintro heq
    obtain rfl := some.inj heq
    exact absurd hstart (by decide)

/-- A controlled statement ends with the one inside of it, or goes on with `else`. -/
theorem statementEnd_control (hword : word ∈ controlWords) (hf : IsFront word f) (hat : Stands masked i f)
    (hstop : i + f.length ≤ stop) (hsolid : Solid masked stop (i + f.length))
    (hj : statementEnd masked stop (i + f.length) = .ok j) :
    statementEnd masked stop i = if word = "if" ∧ nextWord masked stop j = "else" then
        innerEnd masked stop i (skipBlanks masked j stop + 4)
      else .ok j := by
  obtain ⟨rest, k, close, hname, hwordEnd, hk, hik, hkstop, hparen, hclose, hkclose, hnext⟩ :=
    hf.read (controlWords_spec hword).1 hat hstop hsolid
  obtain ⟨hsome, hbrace, hsemi⟩ := not_block_of_name? hname
  have hlen : i < masked.length := by
    obtain ⟨c, hc, -⟩ := head_of_name? hname
    exact (List.getElem?_eq_some_iff.1 hc).1
  have hle := le_skipBlanks masked (close + 1) stop
  rw [statementEnd]
  split
  · next h => exact absurd h hsome
  · next h => exact absurd h hbrace
  · next h => exact absurd h hsemi
  · simp only [hname, hwordEnd, hk, contains_iff_mem.2 hword, if_true]
    rw [if_pos ⟨hkstop, hparen⟩, hclose]
    simp only [bind, Except.bind, pure, Except.pure]
    rw [hnext, dif_pos ⟨by omega, hlen⟩, hj]
    have helse : nextWord masked stop j = "else" ↔
        ∃ rest, after? "else" (masked.drop (skipBlanks masked j stop)) = some rest ∧ wordEnds rest = true :=
      takeWhile_isWord_eq_iff (by decide)
    by_cases hif : word = "if"
    · subst hif
      simp only [beq_self_eq_true, if_true, true_and]
      split
      · next rest' hafter =>
        by_cases hends : wordEnds rest' = true
        · rw [if_pos hends, if_pos (helse.2 ⟨rest', hafter, hends⟩), innerEnd]
          rfl
        · rw [if_neg hends, if_neg]
          intro heq
          obtain ⟨rest'', hafter', hends'⟩ := helse.1 heq
          obtain rfl : rest' = rest'' := Option.some.inj (hafter.symm.trans hafter')
          exact hends hends'
      · next hafter =>
        rw [if_neg]
        intro heq
        obtain ⟨rest'', hafter', -⟩ := helse.1 heq
        exact absurd (hafter.symm.trans hafter') (by simp)
    · have hne : (word == "if") = false := by simpa using hif
      simp only [hne, hif, false_and, if_false, Bool.false_eq_true]

theorem statementEnd_do (hat : Stands masked i ("do" ++ g)) (hg : isAllBlank g = true)
    (hends : NameEnds masked (i + 2)) (hstop : i + 2 + g.length ≤ stop) (hsolid : Solid masked stop (i + 2 + g.length))
    (hj : statementEnd masked stop (i + 2 + g.length) = .ok j) :
    statementEnd masked stop i = declarationEnd masked j stop := by
  obtain ⟨rest, hname, hwordEnd, hlen, -, hskip⟩ := read_word (by decide) hat hg hends hstop hsolid
  obtain ⟨hsome, hbrace, hsemi⟩ := not_block_of_name? hname
  change skipBlanks masked (i + 2) stop = i + 2 + g.length at hskip
  change masked.length - rest.length = i + 2 at hwordEnd
  have hnot : controlWords.contains "do" = false := by decide
  rw [statementEnd]
  split
  · next h => exact absurd h hsome
  · next h => exact absurd h hbrace
  · next h => exact absurd h hsemi
  · simp only [hname, hwordEnd, hnot, Bool.false_eq_true, if_false, beq_self_eq_true, if_true, hskip]
    rw [dif_pos ⟨by omega, by omega⟩, hj]
    rfl

theorem statementEnd_try (hf : IsTryFront f) (hblock : IsBlock block) (hat : Stands masked i (f ++ block))
    (hstop : i + f.length + block.length ≤ stop) :
    statementEnd masked stop i = clausesEnd masked stop (i + f.length + block.length) := by
  obtain ⟨hatf, hatblock⟩ := stands_append.1 hat
  have hbrace := hblock.getElem? hatblock
  have hsolid : Solid masked stop (i + f.length) := .inr ⟨'{', hbrace, by decide⟩
  have hclose := partner_of_stands hblock rfl hatblock
  have hpos := hblock.length_pos
  -- either way the block is found
  have hfound : ∃ rest, name? (masked.drop i) = some ("try".toList, rest) ∧
      (do
        let j := skipBlanks masked (masked.length - rest.length) stop
        let j ← if masked[j]? = some '(' then do
            pure (skipBlanks masked ((← partner masked j) + 1) stop)
          else pure j
        clausesEnd masked stop ((← partner masked j) + 1)) =
      clausesEnd masked stop (i + f.length + block.length) := by
    cases hf with
    | @bare g hg =>
      obtain ⟨-, hatg⟩ := stands_append.1 hatf
      rw [length_append, ← Nat.add_assoc] at hsolid hclose hbrace hstop ⊢
      have hends := nameEnds_of_blanks hatg hg (nameEnds_of_getElem? hbrace (by decide))
      obtain ⟨rest, hname, hwordEnd, -, -, hskip⟩ :=
        @read_word masked stop i "try" g (by decide) hatf hg hends (by omega) hsolid
      refine ⟨rest, hname, ?_⟩
      simp only [hwordEnd, hskip, hbrace, Option.some.injEq, Char.reduceEq, if_false, pure_bind, hclose]
      simp only [bind, Except.bind]
      congr 1
      omega
    | resources hf =>
      obtain ⟨rest, k, close, hname, hwordEnd, hk, hik, hkstop, hparen, hclose', hkclose, hnext⟩ :=
        hf.read (by decide) hatf (by omega) hsolid
      refine ⟨rest, hname, ?_⟩
      simp only [hwordEnd, hk, hparen, if_true, hclose']
      simp only [bind, Except.bind, pure, Except.pure]
      rw [hnext, hclose]
      simp only
      congr 1
      omega
  obtain ⟨rest, hname, hfound⟩ := hfound
  obtain ⟨hsome, hbrace, hsemi⟩ := not_block_of_name? hname
  have hnot : controlWords.contains "try" = false := by decide
  have hnot' : ("try" == "do".toList) = false := by decide
  rw [← hfound, statementEnd]
  split
  · next h => exact absurd h hsome
  · next h => exact absurd h hbrace
  · next h => exact absurd h hsemi
  · simp only [hname, hnot, hnot', Bool.false_eq_true, if_false, beq_self_eq_true, if_true]

theorem statementEnd_simple (hsome : masked[i]? ≠ none) (hbrace : masked[i]? ≠ some '{') (hsemi : masked[i]? ≠ some ';')
    (hword : (masked.drop i).takeWhile isWord ∉ statementWords) :
    statementEnd masked stop i = declarationEnd masked i stop := by
  rw [statementEnd]
  split
  · next h => exact absurd h hsome
  · next h => exact absurd h hbrace
  · next h => exact absurd h hsemi
  · simp only
    split
    · rfl
    · next word rest hname =>
      have hwords : ∀ w ∈ statementWords, w.all isWord = true := by decide
      have hother : ∀ w ∈ statementWords, word ≠ w := by
        rintro w hw rfl
        exact hword (by rwa [takeWhile_isWord_of_name? hname (hwords word hw)])
      have hcontrol : controlWords.contains word = false := by
        cases hmem : controlWords.contains word with
        | false => rfl
        | true => exact absurd rfl (hother word (by simp [statementWords, contains_iff_mem.1 hmem]))
      have hdo : (word == "do") = false := by simpa using hother "do" (by decide)
      have htry : (word == "try") = false := by simpa using hother "try" (by decide)
      simp only [hcontrol, hdo, htry, Bool.false_eq_true, if_false]

/-! ## Clauses -/

theorem clausesEnd_of_nextWord (h : nextWord masked stop j ∉ clauseWords) : clausesEnd masked stop j = .ok j := by
  rw [clausesEnd]
  split
  · next word rest hname =>
    have hwords : ∀ w ∈ clauseWords, w.all isWord = true := by decide
    have hother : ∀ w ∈ clauseWords, word ≠ w := by
      rintro w hw rfl
      exact h (by rwa [nextWord_of_name? hname (hwords word hw)])
    have hcatch : (word == "catch") = false := by simpa using hother "catch" (by decide)
    have hfinally : (word == "finally") = false := by simpa using hother "finally" (by decide)
    simp only [hcatch, hfinally, Bool.false_eq_true, if_false]
  · rfl

theorem clausesEnd_catch (hg : isAllBlank g = true) (hf : IsFront "catch" f) (hblock : IsBlock block)
    (hat : Stands masked j (g ++ f ++ block)) (hstop : j + (g ++ f ++ block).length ≤ stop) :
    clausesEnd masked stop j = clausesEnd masked stop (j + (g ++ f ++ block).length) := by
  obtain ⟨hatg, hatf, hatblock⟩ := hat.split
  have hpos := hblock.length_pos
  have hbrace := hblock.getElem? hatblock
  have hclose := partner_of_stands hblock rfl hatblock
  have hlen := hatblock.le_length hblock.ne_nil
  simp only [length_append, ← Nat.add_assoc] at hstop hbrace hclose hlen ⊢
  obtain ⟨rest, k, close, hname, hwordEnd, hk, -, -, -, hhead, -, hnext⟩ :=
    @IsFront.read masked stop _ _ f hf (by decide) hatf (by omega) (.inr ⟨'{', hbrace, by decide⟩)
  have hskip : skipBlanks masked j stop = j + g.length := skipBlanks_of_stands hatg hg (by omega) (solid_of_name? hname)
  rw [clausesEnd]
  simp only [hskip, hname, hwordEnd, hk, beq_self_eq_true, if_true, hhead]
  simp only [bind, Except.bind, hnext, hclose]
  rw [dif_pos ⟨by omega, by omega⟩]
  congr 1
  omega

theorem clausesEnd_finally {g'} (hg : isAllBlank g = true) (hg' : isAllBlank g' = true) (hblock : IsBlock block)
    (hat : Stands masked j (g ++ ("finally" ++ g') ++ block))
    (hstop : j + (g ++ ("finally" ++ g') ++ block).length ≤ stop) :
    clausesEnd masked stop j = clausesEnd masked stop (j + (g ++ ("finally" ++ g') ++ block).length) := by
  obtain ⟨hatg, hatword, hatblock⟩ := hat.split
  obtain ⟨-, hatg'⟩ := stands_append.1 hatword
  have hpos := hblock.length_pos
  have hbrace := hblock.getElem? hatblock
  have hclose := partner_of_stands hblock rfl hatblock
  have hlen := hatblock.le_length hblock.ne_nil
  simp only [length_append, ← Nat.add_assoc] at hstop hbrace hclose hlen ⊢
  have hends := nameEnds_of_blanks hatg' hg' (nameEnds_of_getElem? hbrace (by decide))
  obtain ⟨rest, hname, hwordEnd, -, -, hnext⟩ :=
    @read_word masked stop _ "finally" g' (by decide) hatword hg' hends (by omega) (.inr ⟨'{', hbrace, by decide⟩)
  have hskip : skipBlanks masked j stop = j + g.length := skipBlanks_of_stands hatg hg (by omega) (solid_of_name? hname)
  have hnot : ("finally" == "catch".toList) = false := by decide
  rw [clausesEnd]
  simp only [hskip, hname, hwordEnd, hnot, Bool.false_eq_true, if_false, beq_self_eq_true, if_true, hnext, hclose]
  simp only [bind, Except.bind]
  rw [dif_pos ⟨by omega, by omega⟩]
  congr 1
  omega

theorem clausesEnd_of_isClauses (h : IsClauses t) : ∀ {j}, Stands masked j t → j + t.length ≤ stop →
    nextWord masked stop (j + t.length) ∉ clauseWords → clausesEnd masked stop j = .ok (j + t.length) := by
  induction h with
  | nil => exact fun _ _ hnext => clausesEnd_of_nextWord hnext
  | caught hg hf hblock _ ih =>
    intro j hat hstop hnext
    obtain ⟨hat, hatmore⟩ := stands_append.1 hat
    rw [length_append, ← Nat.add_assoc] at hstop hnext ⊢
    rw [clausesEnd_catch hg hf hblock hat (by omega)]
    exact ih hatmore hstop hnext
  | @last g g' block hg hg' hblock =>
    intro j hat hstop hnext
    rw [append_assoc g] at hat hstop hnext ⊢
    rw [clausesEnd_finally hg hg' hblock hat hstop]
    exact clausesEnd_of_nextWord hnext

/-! ## Every statement -/

theorem nextWord_of_blanks (hat : Stands masked j g) (hg : isAllBlank g = true) (hstop : j + g.length ≤ stop)
    (hsolid : Solid masked stop (j + g.length)) :
    nextWord masked stop j = (masked.drop (j + g.length)).takeWhile isWord := by
  rw [nextWord, skipBlanks_of_stands hat hg hstop hsolid]

theorem statementEnd_block (ht : IsBlock t) (hat : Stands masked i t) :
    statementEnd masked stop i = .ok (i + t.length) := by
  have hpos := ht.length_pos
  rw [statementEnd, ht.getElem? hat]
  simp only [partner_of_stands ht rfl hat, bind, Except.bind, pure, Except.pure]
  congr 1
  omega

theorem statementEnd_of_isSimple {code} (hcode : IsSimple code) (hat : Stands masked i (code ++ [';']))
    (hstop : i + (code ++ [';']).length ≤ stop) : statementEnd masked stop i = .ok (i + (code ++ [';']).length) := by
  cases code with
  | nil =>
    rw [statementEnd, (stands_cons.1 hat).1]
    rfl
  | cons c code =>
    obtain ⟨hc, -⟩ := stands_cons.1 hat
    have hsemi : c ≠ ';' := by
      rintro rfl
      exact hcode.unended.goesOn [] code rfl rfl
    have hword : (masked.drop i).takeWhile isWord = (c :: code).takeWhile isWord := by
      rw [hat.drop, append_assoc, singleton_append, takeWhile_before (by decide)]
    have hfirst := hcode.first
    simp only [head?_cons, all_some, Bool.and_eq_true, bne_iff_ne] at hfirst
    rw [statementEnd_simple (by simp [hc]) (by simpa [hc] using hfirst.2) (by simpa [hc] using hsemi)
      (by rw [hword]; exact hcode.word)]
    simp only [length_append, length_singleton, ← Nat.add_assoc] at hstop ⊢
    exact declarationEnd_of_stands hcode.unended.runsOn hat (by omega)

theorem statementEnd_basic (h : IsBasic t) (hat : Stands masked i t) (hstop : i + t.length ≤ stop)
    (hnext : nextWord masked stop (i + t.length) ∉ clauseWords) : statementEnd masked stop i = .ok (i + t.length) := by
  cases h with
  | block ht => exact statementEnd_block ht hat
  | simple hcode => exact statementEnd_of_isSimple hcode hat hstop
  | @tried f block clauses hf hblock hclauses =>
    obtain ⟨hat, hatclauses⟩ := stands_append.1 hat
    simp only [length_append, ← Nat.add_assoc] at hstop hnext hatclauses ⊢
    rw [statementEnd_try hf hblock hat (by omega)]
    exact clausesEnd_of_isClauses hclauses hatclauses hstop hnext

/-- The word `else` is found behind blanks, and the statement behind it. -/
theorem IsElse.read {e u} (h : IsElse u e) (hat : Stands masked j (e ++ u)) (hu : u ≠ [])
    (hsolid : Solid masked stop (j + e.length)) (hstop : j + e.length ≤ stop) :
    nextWord masked stop j = "else" ∧ skipBlanks masked (skipBlanks masked j stop + 4) stop = j + e.length := by
  obtain @⟨g, g', hg, hg', hends⟩ := h
  obtain ⟨hate, hatu⟩ := stands_append.1 hat
  obtain ⟨hatg, hatword, hatg'⟩ := hate.split
  simp only [length_append, ← Nat.add_assoc] at hstop hsolid hatg' hatu ⊢
  have hsolid' : Solid masked stop (j + g.length) := .inr ⟨'e', (stands_cons.1 hatword).1, by decide⟩
  have hskip : skipBlanks masked j stop = j + g.length := skipBlanks_of_stands hatg hg (by omega) hsolid'
  refine ⟨?_, ?_⟩
  · rw [nextWord, hskip, hatword.drop, (stands_append.2 ⟨hatg', hatu⟩).drop]
    refine takeWhile_word (by decide) fun c hc => isWord_of_nameEnds hends ?_
    rwa [head?_append_of_ne_nil _ (by simp [hu])] at hc
  · rw [hskip]
    exact skipBlanks_of_stands hatg' hg' hstop hsolid

/-- The reader finds the end of every statement of the grammar, provided that no word follows with which the statement
could go on. -/
theorem statementEnd_of_settled (h : Settled o t) : ∀ {i}, Stands masked i t →
    i + t.length ≤ stop → nextWord masked stop (i + t.length) ∉ clauseWords →
    (o = true → nextWord masked stop (i + t.length) ≠ "else") →
    statementEnd masked stop i = .ok (i + t.length) := by
  induction h with
  | basic ht => exact fun hat hstop hnext _ => statementEnd_basic ht hat hstop hnext
  | @control o word f t hword hif hf ht ih =>
    intro i hat hstop hnext helse
    obtain ⟨hatf, hatt⟩ := stands_append.1 hat
    simp only [length_append, ← Nat.add_assoc] at hstop hnext helse ⊢
    rw [statementEnd_control hword hf hatf (by omega) (ht.solid hatt)
      (ih hatt hstop hnext helse), if_neg (fun h => hif h.1)]
  | @ifOnly o f t hf ht ih =>
    intro i hat hstop hnext helse
    obtain ⟨hatf, hatt⟩ := stands_append.1 hat
    simp only [length_append, ← Nat.add_assoc] at hstop hnext ⊢
    rw [length_append, ← Nat.add_assoc] at helse
    rw [statementEnd_control (by decide) hf hatf (by omega) (ht.solid hatt)
      (ih hatt hstop hnext fun _ => helse rfl), if_neg (fun h => helse rfl h.2)]
  | @ifElse o f t e u hf ht he hu iht ihu =>
    intro i hat hstop hnext helse
    obtain ⟨hat, hatu⟩ := stands_append.1 hat
    obtain ⟨hatf, hatt, hate⟩ := hat.split
    simp only [length_append, ← Nat.add_assoc] at hstop hnext helse hatu hate ⊢
    have hsolid : Solid masked stop (i + f.length + t.length + e.length) := hu.solid hatu
    obtain ⟨hword, hbehind⟩ := he.read (stands_append.2 ⟨hate, hatu⟩) hu.ne_nil hsolid (by omega)
    have hinner := iht hatt (by omega) (by rw [hword]; decide) (by simp)
    have hlen := hatf.le_length hf.ne_nil
    have hpos := length_pos_iff.2 hf.ne_nil
    rw [statementEnd_control (by decide) hf hatf (by omega) (ht.solid hatt) hinner, if_pos ⟨rfl, hword⟩, innerEnd,
      hbehind, if_pos ⟨by omega, by omega⟩]
    exact ihu hatu hstop hnext helse
  | @doWhile o g t g' f hg hends ht hg' hf ih =>
    intro i hat hstop _ _
    obtain ⟨hat, hatf, hatsemi⟩ := hat.split
    obtain ⟨hatdo, hatt, hatg'⟩ := hat.split
    have hdo : "do".toList.length = 2 := rfl
    simp only [length_append, ← Nat.add_assoc, length_singleton, hdo] at hstop hatsemi hatf hatg' hatt ⊢
    have hbetween : Stands masked (i + 2 + g.length + t.length) (g' ++ f ++ [';']) :=
      stands_append.2 ⟨stands_append.2 ⟨hatg', hatf⟩, by simpa only [length_append, ← Nat.add_assoc] using hatsemi⟩
    obtain ⟨rest, -, -, hname, -⟩ :=
      @IsFront.read masked stop _ _ f hf (by decide) hatf (by omega) (.inr ⟨';', (stands_cons.1 hatsemi).1, by decide⟩)
    have hword : nextWord masked stop (i + 2 + g.length + t.length) = "while" := by
      rw [nextWord_of_blanks hatg' hg' (by omega) (solid_of_name? hname)]
      exact takeWhile_isWord_of_name? hname (by decide)
    have hnameEnds : NameEnds masked (i + 2) :=
      nameEnds_of_stands (stands_append.2 ⟨(stands_append.1 hatdo).2, hatt⟩) hends (by simp [ht.ne_nil])
    have hinner := ih hatt (by omega) (by rw [hword]; decide) fun _ => by rw [hword]; decide
    rw [statementEnd_do hatdo hg hnameEnds (by omega) (ht.solid hatt) hinner,
      declarationEnd_of_stands ((unended_of_blank hg').runsOn.append (hf.runsOn (by decide))) hbetween
        (by rw [length_append]; omega), length_append]
    simp only [← Nat.add_assoc]

/-! ## Bodies -/

/-- Statements with blanks before each, and blanks at the end. -/
def spread : (parts : List (Text × Text)) → (last : Text) → Text
  | [], last => last
  | (gap, code) :: parts, last => gap ++ code ++ spread parts last

/-- The statements of a body that stands at offset `i`. -/
def statementsAt (text : Text) : (i : Nat) → (parts : List (Text × Text)) → List Statement
  | _, [] => []
  | i, (gap, code) :: parts =>
    let start := i + gap.length
    let stop := start + code.length
    ⟨slice text start stop, ⟨start, stop⟩⟩ :: statementsAt text stop parts

/-- The statements stand in order and apart within `[i, stop)`, show the codes, and leave out only blanks. -/
structure Divides (text masked : Text) (i stop : Nat) (codes : List Text) (ss : List Statement) : Prop where
  codes_eq : ss.map (fun s => slice masked s.span.start s.span.stop) = codes
  text_eq : ∀ s ∈ ss, s.text = slice text s.span.start s.span.stop
  inside : ∀ s ∈ ss, i ≤ s.span.start ∧ s.span.stop ≤ stop
  ordered : ss.Pairwise fun s s' => s.span.stop ≤ s'.span.start
  between : ∀ k c, i ≤ k → k < stop → masked[k]? = some c → (∃ s ∈ ss, s.span.covers k = true) ∨ isBlank c = true

theorem blank_of_stands {k} (hat : Stands masked i g) (hg : isAllBlank g = true) (hik : i ≤ k)
    (hk : k < i + g.length) (hc : masked[k]? = some c) : isBlank c = true := by
  have hblank : isAllBlank (slice masked i (i + g.length)) = true := by rwa [hat.slice]
  exact isAllBlank_slice.1 hblank k c hik hk hc

theorem divides_statementsAt (text : Text) {last} (hlast : isAllBlank last = true) :
    ∀ {parts i}, (∀ p ∈ parts, isAllBlank p.1 = true) → Stands masked i (spread parts last) →
    Divides text masked i (i + (spread parts last).length) (parts.map (·.2)) (statementsAt text i parts)
  | [], i, _, hat =>
    ⟨rfl, by simp [statementsAt], by simp [statementsAt], .nil, fun k c hik hk hc =>
      .inr (blank_of_stands hat hlast hik hk hc)⟩
  | (gap, code) :: parts, i, hgaps, hat => by
    obtain ⟨hatgap, hatcode, hatrest⟩ := hat.split
    simp only [spread, length_append, ← Nat.add_assoc] at hatrest ⊢
    have ih := divides_statementsAt text hlast (forall_mem_cons.1 hgaps).2 hatrest
    rw [statementsAt]
    refine ⟨?_, ?_, ?_, ?_, ?_⟩
    · rw [map_cons, map_cons, ih.codes_eq, hatcode.slice]
    · rintro s hs
      rcases mem_cons.1 hs with rfl | hs
      · rfl
      · exact ih.text_eq s hs
    · intro s hs
      rcases mem_cons.1 hs with rfl | hs
      · exact ⟨Nat.le_add_right _ _, Nat.le_add_right _ _⟩
      · have := ih.inside s hs
        omega
    · exact pairwise_cons.2 ⟨fun s hs => (ih.inside s hs).1, ih.ordered⟩
    · intro k c hik hk hc
      rcases Nat.lt_or_ge k (i + gap.length) with hlt | hge
      · exact .inr (blank_of_stands hatgap (hgaps (gap, code) (by simp)) hik hlt hc)
      · rcases Nat.lt_or_ge k (i + gap.length + code.length) with hlt | hge'
        · exact .inl ⟨_, mem_cons_self, by simp [Span.covers, hge, hlt]⟩
        · rcases ih.between k c hge' hk hc with ⟨s, hs, hcovers⟩ | hblank
          · exact .inl ⟨s, mem_cons_of_mem _ hs, hcovers⟩
          · exact .inr hblank

theorem nextWord_of_spread {parts last}
    (hparts : ∀ p ∈ parts, isAllBlank p.1 = true ∧ IsStatement p.2) (hlast : isAllBlank last = true)
    (hat : Stands masked i (spread parts last)) (hstop : i + (spread parts last).length = stop)
    (hclose : masked[stop]? = some '}') : nextWord masked stop i ∉ followWords := by
  cases parts with
  | nil =>
    subst hstop
    rw [nextWord_of_blanks hat hlast (Nat.le_refl _) (.inl rfl), drop_eq_getElem?_toList_append, hclose]
    rw [toList_some, singleton_append, takeWhile_cons_of_neg (by decide)]
    decide
  | cons p parts =>
    obtain ⟨gap, code⟩ := p
    obtain ⟨hgap, hcode⟩ : isAllBlank gap = true ∧ IsStatement code := hparts (gap, code) (by simp)
    obtain ⟨o, hsettled⟩ := exists_settled hcode
    obtain ⟨hatgap, hatcode, -⟩ := hat.split
    rw [spread, length_append, length_append] at hstop
    rw [nextWord_of_blanks hatgap hgap (by omega) (hsettled.solid hatcode), hatcode.drop]
    exact (hsettled.starts _).word

theorem statementsFrom_of_spread {text last} (hlast : isAllBlank last = true) (hclose : masked[stop]? = some '}') :
    ∀ {parts i}, (∀ p ∈ parts, isAllBlank p.1 = true ∧ IsStatement p.2) →
    Stands masked i (spread parts last) → i + (spread parts last).length = stop →
    statementsFrom text masked stop i = .ok (statementsAt text i parts)
  | [], i, _, hat, hstop => by
    subst hstop
    rw [statementsFrom]
    simp only
    rw [skipBlanks_of_stands hat hlast (Nat.le_refl _) (.inl rfl), dif_neg (Nat.lt_irrefl _)]
    rfl
  | (gap, code) :: parts, i, hparts, hat, hstop => by
    obtain ⟨hgap, hcode⟩ : isAllBlank gap = true ∧ IsStatement code := hparts (gap, code) (by simp)
    obtain ⟨o, hsettled⟩ := exists_settled hcode
    obtain ⟨hatgap, hatcode, hatrest⟩ := hat.split
    have hparts' := (forall_mem_cons.1 hparts).2
    have hpos := length_pos_iff.2 hsettled.ne_nil
    simp only [spread, length_append, ← Nat.add_assoc] at hstop hatrest
    have hnext := nextWord_of_spread hparts' hlast hatrest hstop hclose
    simp only [followWords, mem_cons, not_or] at hnext
    have hend := statementEnd_of_settled hsettled hatcode (by omega) hnext.2 fun _ => hnext.1
    rw [statementsFrom]
    rw [skipBlanks_of_stands hatgap hgap (by omega) (hsettled.solid hatcode), dif_pos (by omega), hend]
    simp only [bind, Except.bind]
    rw [dif_pos (by omega), statementsFrom_of_spread hlast hclose hparts' hatrest hstop]
    rfl

section Body

variable {text unit type m b}
  (hread : readUnit text = .ok unit) (htype : type ∈ unit.types) (hm : m ∈ type.methods) (hb : m.body = some b)

include hread htype hm hb

theorem stands_body {body} (hbody : slice unit.masked (b.opening + 1) b.closing = body) :
    Stands unit.masked (b.opening + 1) body ∧ b.opening + 1 + body.length = b.closing ∧
      unit.masked[b.closing]? = some '}' := by
  have hplaced := (placed_of_readUnit hread).2.types type htype
  obtain ⟨hpartner, -, hlt, -⟩ := hplaced.methodBody hm hb
  obtain ⟨opener, closer, hopener, hkind, -, hcloser, -⟩ := partner_spec hpartner
  have hbrace := (hplaced.method hm).2.2.2.brace b hb
  obtain rfl : '{' = opener := some.inj (hbrace.symm.trans hopener)
  obtain rfl : '}' = closer := some.inj hkind
  refine ⟨hbody ▸ stands_slice _ _ _, ?_, hcloser⟩
  have := (partner_lt_length hpartner).2
  rw [← hbody, length_slice]
  omega

/-- A method body that is a sequence of statements with blanks between them is cut into just these. -/
theorem statements_of_sequence {parts : List (Text × Text)} {last : Text}
    (hbody : slice unit.masked (b.opening + 1) b.closing = spread parts last)
    (hparts : ∀ p ∈ parts, isAllBlank p.1 = true ∧ IsStatement p.2) (hlast : isAllBlank last = true) :
    statements unit m = .ok (statementsAt unit.text (b.opening + 1) parts) ∧
      Divides unit.text unit.masked (b.opening + 1) b.closing (parts.map (·.2))
        (statementsAt unit.text (b.opening + 1) parts) := by
  obtain ⟨hat, hstop, hcloser⟩ := stands_body hread htype hm hb hbody
  have hdivides := divides_statementsAt unit.text hlast (fun p hp => (hparts p hp).1) hat
  rw [hstop] at hdivides
  refine ⟨?_, hdivides⟩
  rw [statements, hb]
  exact statementsFrom_of_spread hlast hcloser hparts hat hstop

end Body

/-- A body in which an `else` follows two `if` words, and a `while` ends a loop. -/
def branchingText : Text :=
  "class A \x7b\n  void m() \x7b\n    if (a) if (b) x(); else y();\n    do z(); while (c);\n  \x7d\n\x7d\n"

/-- The statements of that body, each with the blanks before it. -/
def branchingParts : List (Text × Text) :=
  [("\n    ", "if (a) if (b) x(); else y();"), ("\n    ", "do z(); while (c);")]

theorem isStatement_branching : ∀ p ∈ branchingParts, isAllBlank p.1 = true ∧ IsStatement p.2 := by
  have call : ∀ name : Text, IsSimple (name ++ "()") → IsStatement (name ++ "()" ++ [';']) :=
    fun _ h => .basic (.simple h)
  have head : ∀ word name : Text, WellBracketed name →
      IsFront word (word ++ " " ++ ('(' :: (name ++ [')'])) ++ " ") :=
    fun _ name h => .mk rfl ⟨name, h, rfl⟩ rfl
  intro p hp
  simp only [branchingParts, mem_cons, not_mem_nil, or_false] at hp
  rcases hp with rfl | rfl
  · refine ⟨rfl, ?_⟩
    have hx := call "x" ⟨by decide, by decide, by decide⟩
    have hy := call "y" ⟨by decide, by decide, by decide⟩
    exact .control (by decide) (head "if" "a" (by decide))
      (.ifElse (head "if" "b" (by decide)) hx (@IsElse.mk _ " " " " rfl rfl (by decide)) hy)
  · refine ⟨rfl, ?_⟩
    have hz := call "z" ⟨by decide, by decide, by decide⟩
    exact @IsStatement.doWhile " " _ " " _ rfl (by decide) hz rfl
      (@IsFront.mk "while" " " "(c)" [] rfl ⟨"c", by decide, rfl⟩ rfl)

theorem statements_of_sequence_branching : ∃ unit type m b, readUnit branchingText = .ok unit ∧ type ∈ unit.types ∧
    m ∈ type.methods ∧ m.body = some b ∧ slice unit.masked (b.opening + 1) b.closing = spread branchingParts "\n  " ∧
    statements unit m = .ok (statementsAt unit.text (b.opening + 1) branchingParts) := by
  have hfound : ∃ unit ∈ (readUnit branchingText).toOption, ∃ type ∈ unit.types, ∃ m ∈ type.methods, ∃ b ∈ m.body,
      slice unit.masked (b.opening + 1) b.closing = spread branchingParts "\n  " := by decide +kernel
  obtain ⟨unit, hread, type, htype, m, hm, b, hb, hbody⟩ := hfound
  have hread := toOption_eq_some.1 hread
  exact ⟨unit, type, m, b, hread, htype, hm, hb, hbody,
    (statements_of_sequence hread htype hm hb hbody isStatement_branching rfl).1⟩

end Rebind.Java
