/-
Uses of a name in code that is spaced in different ways.

Mostly the last token before a name and the first one behind it tell whether it is a use, and then the blanks make no
difference (`use_respaced`). Behind a `>` they do: `a>n` is taken for a declaration of `n`, and `a > n` is not
(`references_comparison`).
-/
import Rebind.Proofs.Java.Scopes

namespace Rebind.Java

open Text List Option

/-- How the code before a name, nearest character first, makes it a use: with a `this` (`true`) or by itself. -/
def useKind : (back : Text) → Option Bool
  | [] => some false
  | '@' :: _ => none
  | '.' :: back => (thisLength? ('.' :: back)).map fun _ => true
  | back => if endsInType back then none else some false

/-- Whether an occurrence of a name is a use is told by the code before it and the sign behind it. -/
theorem map_referenceAt? (masked : Text) (o : Span) :
    (referenceAt? masked o).map (fun u => (decide (u.start < o.start), u.stop)) =
      if (dropBlanks (masked.drop o.stop)).head? == some '(' then none
      else (useKind (codeBefore masked o.start)).map (·, o.stop) := by
  have hlen := codeBefore_length_le masked o.start
  rw [referenceAt?]
  split
  · rfl
  · dsimp only
    split
    · next hback => simp [useKind, hback]
    · next hback => simp [useKind, hback]
    · next back hback =>
      rw [hback, useKind, Option.map_map, Option.map_map]
      refine Option.map_congr fun n hn => ?_
      -- the `this` has a start of its own
      obtain ⟨front, rest, -, rfl, -⟩ := thisLength?_spec hn
      rw [hback, length_cons] at hlen
      simp only [Function.comp_apply, length_cons, Prod.mk.injEq, decide_eq_true_eq, and_true]
      omega
    · next hnil hat hdot =>
      rw [useKind.eq_4 _ hnil hat hdot]
      split <;> simp

/-- The name at the offset is reported as a use, with a `this` before it or by itself. -/
def ReportedAt (masked : Text) (s e : Nat) (name : Text) (q : Nat) (this : Bool) : Prop :=
  ∃ u ∈ references masked s e name, u.stop = q + name.length ∧ decide (u.start < q) = this

theorem NameAt.reportedAt_iff {masked name : Text} {s e q : Nat} (h : NameAt masked e q name) (hs : s ≤ q)
    (he : e ≤ masked.length) {this : Bool} :
    ReportedAt masked s e name q this ↔ (dropBlanks (masked.drop (q + name.length))).head? ≠ some '(' ∧
      useKind (codeBefore masked q) = some this := by
  have hle := h.le
  have hmap := map_referenceAt? masked ⟨q, q + name.length⟩
  simp only [beq_iff_eq] at hmap
  constructor
  · rintro ⟨u, hu, hstop, rfl⟩
    obtain ⟨⟨start, stop⟩, ho, hat⟩ := mem_filterMap.1 hu
    obtain ⟨-, hend, -, -⟩ := mem_occurrences (by omega) he ho
    have hspan : stop = u.stop := by
      have hmap := map_referenceAt? masked ⟨start, stop⟩
      rw [hat] at hmap
      split at hmap
      · cases hmap
      · obtain ⟨_, -, heq⟩ := map_eq_some_iff.1 hmap.symm
        exact (Prod.mk.inj heq).2
    obtain rfl : start = q := by
      simp only at hend
      omega
    rw [← hstop, ← hspan] at hmap ⊢
    rw [hat] at hmap
    split at hmap
    · cases hmap
    · next hnext =>
      obtain ⟨_, hkind, heq⟩ := map_eq_some_iff.1 hmap.symm
      exact ⟨hnext, hkind.trans (congrArg some (Prod.mk.inj heq).1)⟩
  · rintro ⟨hnext, hkind⟩
    rw [if_neg hnext, hkind] at hmap
    obtain ⟨u, hat, heq⟩ := map_eq_some_iff.1 hmap
    exact ⟨u, mem_filterMap.2 ⟨_, h.occurs hs, hat⟩, (Prod.mk.inj heq).2, (Prod.mk.inj heq).1⟩

/-! ## Tokens -/

/-- The first token is longer by a character. -/
def lengthen (c : Char) : List Text → List Text
  | [] => [[c]]
  | w :: ws => (c :: w) :: ws

/-- The tokens of a text: words, which are as long as they can be, and single signs. -/
def tokens : Text → List Text
  | [] => []
  | c :: t =>
    if isBlank c then tokens t
    else if isNamePart c && t.head?.any isNamePart then lengthen c (tokens t)
    else [c] :: tokens t

theorem head?_tokens (t : Text) : (tokens t).head?.bind head? = (dropBlanks t).head? := by
  induction t with
  | nil => rfl
  | cons c t ih =>
    rw [tokens, dropBlanks, dropWhile_cons]
    split
    · exact ih
    · split
      · cases tokens t <;> rfl
      · rfl

theorem tokens_eq_nil {g : Text} (hg : isAllBlank g = true) : tokens g = [] := by
  induction g with
  | nil => rfl
  | cons c g ih =>
    simp only [isAllBlank, all_cons, Bool.and_eq_true] at hg
    rw [tokens, if_pos hg.1, ih hg.2]

theorem not_isBlank_of_isNamePart {c : Char} (h : isNamePart c = true) : isBlank c = false := by
  rw [← Bool.not_eq_true]
  intro hc
  rw [isNamePart_of_isBlank hc] at h
  cases h

theorem exists_tokens_of_head {t : Text} (h : t.head?.any isNamePart = true) : ∃ w ws, tokens t = w :: ws := by
  cases t with
  | nil => cases h
  | cons c t =>
    rw [tokens, not_isBlank_of_isNamePart h, if_neg Bool.false_ne_true]
    split
    · cases tokens t <;> exact ⟨_, _, rfl⟩
    · exact ⟨_, _, rfl⟩

/-- Texts that no word spans have their tokens one after the other. -/
theorem tokens_append {u v : Text} (h : u.getLast?.any isNamePart = true → v.head?.any isNamePart = false) :
    tokens (u ++ v) = tokens u ++ tokens v := by
  induction u with
  | nil => rfl
  | cons c u ih =>
    cases u with
    | nil =>
      simp only [singleton_append, tokens]
      split
      · rfl
      · next hblank =>
        have hword : (isNamePart c && v.head?.any isNamePart) = false := by
          cases hc : isNamePart c with
          | false => rfl
          | true => exact h (by simp [hc])
        simp [hword]
    | cons d u =>
      have ih := ih h
      rw [cons_append, tokens, tokens, ih]
      split
      · rfl
      · rw [cons_append, head?_cons, head?_cons]
        split
        · next hword =>
          obtain ⟨w, ws, heq⟩ := exists_tokens_of_head (t := d :: u) (Bool.and_eq_true_iff.1 hword).2
          rw [heq]
          rfl
        · rfl

theorem tokens_word {w : Text} (hne : w ≠ []) (hw : w.all isNamePart = true) : tokens w = [w] := by
  induction w with
  | nil => exact absurd rfl hne
  | cons c w ih =>
    simp only [all_cons, Bool.and_eq_true] at hw
    rw [tokens, not_isBlank_of_isNamePart hw.1, if_neg Bool.false_ne_true, hw.1]
    cases w with
    | nil => rfl
    | cons d w =>
      have hd := (Bool.and_eq_true_iff.1 hw.2).1
      rw [head?_cons, any_some, hd, ih (by simp) hw.2]
      rfl

theorem any_head?_dropWhile (p : Char → Bool) (t : Text) : (t.dropWhile p).head?.any p = false := by
  have hnot := head?_dropWhile_not p t
  cases hhead : (t.dropWhile p).head? with
  | none => rfl
  | some c => simpa [hhead] using hnot

section Last

variable {front back : Text} {c : Char} (h : dropBlanks front.reverse = c :: back)

include h

theorem tokens_of_code : isBlank c = false ∧ tokens front = tokens (back.reverse ++ [c]) := by
  have hfront : front = back.reverse ++ [c] ++ (front.reverse.takeWhile isBlank).reverse := by
    rw [← reverse_cons, ← h, ← reverse_append, dropBlanks, takeWhile_append_dropWhile, reverse_reverse]
  have hgap : isAllBlank (front.reverse.takeWhile isBlank).reverse = true := by simp [isAllBlank]
  refine ⟨?_, ?_⟩
  · have hany := any_head?_dropWhile isBlank front.reverse
    rw [← dropBlanks, h] at hany
    exact hany
  · rw [hfront, tokens_append, tokens_eq_nil hgap, append_nil]
    intro _
    cases hg : (front.reverse.takeWhile isBlank).reverse with
    | nil => rfl
    | cons d g =>
      rw [hg] at hgap
      exact isNamePart_of_isBlank (Bool.and_eq_true_iff.1 hgap).1

/-- A text that ends in a sign has it as its last token. -/
theorem tokens_of_sign (hc : isNamePart c = false) : tokens front = tokens back.reverse ++ [[c]] := by
  obtain ⟨hblank, htokens⟩ := tokens_of_code h
  rw [htokens, tokens_append]
  · simp [tokens, hblank]
  · intro _
    exact hc

/-- A text that ends in a word has it as its last token. -/
theorem tokens_of_word (hc : isNamePart c = true) :
    ∃ ws, tokens front = ws ++ [((c :: back).takeWhile isNamePart).reverse] := by
  obtain ⟨-, htokens⟩ := tokens_of_code h
  have hsplit : back.reverse ++ [c] =
      ((c :: back).dropWhile isNamePart).reverse ++ ((c :: back).takeWhile isNamePart).reverse := by
    rw [← reverse_append, takeWhile_append_dropWhile, reverse_cons]
  refine ⟨tokens ((c :: back).dropWhile isNamePart).reverse, ?_⟩
  rw [htokens, hsplit, tokens_append, @tokens_word ((c :: back).takeWhile isNamePart).reverse]
  · simp [hc]
  · simp
  · rw [getLast?_reverse, any_head?_dropWhile]
    exact fun h => absurd h Bool.false_ne_true

end Last

/-! ## Spacing -/

/-- How the last token before a name makes it a use. -/
def tokenKind (w : Text) : Option Bool :=
  if w ∈ [['@'], ['.'], [']']] ∨ w.all isNamePart = true ∧ w ∉ expressionWords then none else some false

/-- The last token before a name decides, whatever the blanks: it is no `>`, and no dot behind a word that ends in
`this`. -/
def Decisive (ws : List Text) : Prop :=
  ws.getLast? ≠ some ['>'] ∧ (ws.getLast? = some ['.'] → ∀ v ∈ ws.dropLast.getLast?, ¬ "this".toList <:+ v)

theorem thisLength?_of_decisive {front back : Text} (h : dropBlanks front.reverse = '.' :: back)
    (hdecisive : Decisive (tokens front)) : thisLength? ('.' :: back) = none := by
  rw [eq_none_iff_forall_ne_some]
  intro n hn
  obtain ⟨rest, hrest, -⟩ := bind_eq_some_iff.1 hn
  rw [after?_eq_some] at hrest
  have hback : dropBlanks back.reverse.reverse = 's' :: ("iht" ++ rest ++ back.drop 32) := by
    conv => lhs; rw [reverse_reverse, ← take_append_drop 32 back, dropBlanks, dropWhile_append, ← dropBlanks, hrest]
    rfl
  obtain ⟨ws, hws⟩ := tokens_of_word hback (by decide)
  have hword : ∀ c ∈ "siht".toList, isNamePart c = true := by simp; decide
  have hwhole : 's' :: ("iht" ++ rest ++ back.drop 32) = "siht".toList ++ (rest ++ back.drop 32) := by simp
  rw [hwhole, takeWhile_append_of_pos hword, reverse_append] at hws
  rw [Decisive, tokens_of_sign h (by decide), hws] at hdecisive
  exact hdecisive.2 getLast?_concat _ (by rw [dropLast_concat]; exact getLast?_concat) ⟨_, rfl⟩

theorem useKind_cons {c : Char} {back : Text} (hat : c ≠ '@') (hdot : c ≠ '.') (hbracket : c ≠ ']') (hangle : c ≠ '>') :
    useKind (c :: back) =
      if isNamePart c && !expressionWords.contains ((c :: back).takeWhile isNamePart).reverse then none
      else some false := by
  rw [useKind.eq_4 _ (by simp) (fun _ h => hat (cons.inj h).1) (fun _ h => hdot (cons.inj h).1),
    endsInType.eq_5 _ _ hbracket (fun h _ => hangle h) (fun _ _ h _ => hangle h)]

theorem useKind_of_decisive {front : Text} (hdecisive : Decisive (tokens front)) :
    useKind (dropBlanks front.reverse) = (tokens front).getLast?.elim (some false) tokenKind := by
  cases h : dropBlanks front.reverse with
  | nil =>
    have hblank : isAllBlank front = true := by
      have hall := all_takeWhile (p := isBlank) (l := front.reverse)
      rwa [← append_nil (takeWhile _ _), ← h, dropBlanks, takeWhile_append_dropWhile, all_reverse] at hall
    rw [tokens_eq_nil hblank]
    rfl
  | cons c back =>
    cases hc : isNamePart c with
    | true =>
      have hne : ∀ {d}, isNamePart d = false → c ≠ d := by
        rintro d hd rfl
        rw [hc] at hd
        cases hd
      obtain ⟨ws, hws⟩ := tokens_of_word h hc
      have hall : ((c :: back).takeWhile isNamePart).reverse.all isNamePart = true := by simp
      rw [useKind_cons (hne (by decide)) (hne (by decide)) (hne (by decide)) (hne (by decide)), hws, getLast?_concat,
        Option.elim_some, tokenKind, hc, Bool.true_and]
      generalize ((c :: back).takeWhile isNamePart).reverse = w at hall
      have hsign : w ∉ [['@'], ['.'], [']']] := by
        intro hw
        simp only [mem_cons, not_mem_nil, or_false] at hw
        rcases hw with rfl | rfl | rfl <;> exact absurd hall (by decide)
      simp only [hsign, hall, false_or, true_and]
      by_cases hword : w ∈ expressionWords <;> simp [hword]
    | false =>
      have hlast := tokens_of_sign h hc
      rw [hlast, getLast?_concat, Option.elim_some]
      by_cases hat : c = '@'
      · subst hat
        rfl
      by_cases hdot : c = '.'
      · subst hdot
        rw [useKind, thisLength?_of_decisive h hdecisive]
        rfl
      by_cases hbracket : c = ']'
      · subst hbracket
        rfl
      have hangle : c ≠ '>' := by
        rintro rfl
        exact hdecisive.1 (by rw [hlast, getLast?_concat])
      simp [useKind_cons hat hdot hbracket hangle, hc, tokenKind, hat, hdot, hbracket]

/-- In texts of the same tokens a name is a use, with a `this` before it or by itself, in both or in none, if the tokens
before it settle that or the code before it is the same but for blanks at its end. -/
theorem use_respaced {masked masked' name : Text} {s s' e e' q q' : Nat}
    (hbefore : codeBefore masked q = codeBefore masked' q' ∨
      tokens (masked.take q) = tokens (masked'.take q') ∧ Decisive (tokens (masked.take q)))
    (hbehind : tokens (masked.drop (q + name.length)) = tokens (masked'.drop (q' + name.length)))
    (h : NameAt masked e q name) (hs : s ≤ q) (he : e ≤ masked.length)
    (h' : NameAt masked' e' q' name) (hs' : s' ≤ q') (he' : e' ≤ masked'.length) (this : Bool) :
    ReportedAt masked s e name q this ↔ ReportedAt masked' s' e' name q' this := by
  have hkind : useKind (codeBefore masked q) = useKind (codeBefore masked' q') := by
    rcases hbefore with hcode | ⟨htokens, hdecisive⟩
    · rw [hcode]
    · rw [codeBefore, codeBefore, useKind_of_decisive hdecisive, htokens, useKind_of_decisive (htokens ▸ hdecisive)]
  rw [h.reportedAt_iff hs he, h'.reportedAt_iff hs' he', hkind, ← head?_tokens, ← head?_tokens, hbehind]

theorem use_respaced_condition : ReportedAt "if(a==n)g();" 0 11 "n" 6 false :=
  (@use_respaced "if ( a\n== n ) g ( ) ;" "if(a==n)g();" "n" 0 0 20 11 10 6
    (.inr ⟨by decide +kernel, by decide +kernel, by decide +kernel⟩) (by decide +kernel)
    ⟨by decide, rfl, ⟨" ) g ( ) ;", rfl⟩, by decide, fun _ h => some.inj h ▸ rfl, fun _ h => some.inj h ▸ rfl⟩
    (by decide) (by decide)
    ⟨by decide, rfl, ⟨")g();", rfl⟩, by decide, fun _ h => some.inj h ▸ rfl, fun _ h => some.inj h ▸ rfl⟩
    (by decide) (by decide) false).1 ⟨⟨10, 11⟩, by decide +kernel, rfl, rfl⟩

/-- Without the blank before the sign the name is taken for a declared one. -/
theorem references_comparison :
    references "(a > n)" 1 6 "n" = [⟨5, 6⟩] ∧ references "(a>n)" 1 4 "n" = [] := by decide +kernel

end Rebind.Java
