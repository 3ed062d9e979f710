/-
The words of a declaration and the spelling of its type.
-/
import Rebind.Proofs.Java.Words
import Mathlib.Algebra.Ring.Int.Defs

namespace Rebind.Java

open Text List Option

/-! ## Names -/

theorem values_matchesFrom : ∀ (t : Text) (skip : Nat) (prev prev' : Option Char) (pos pos' : Nat),
    (matchesFrom Before.anywhere name? skip prev pos t).map (·.value) =
      (matchesFrom Before.anywhere name? 0 prev' pos' (t.drop skip)).map (·.value)
  | [], skip, prev, prev', pos, pos' => by simp [matchesFrom, matchHere, name?]
  | c :: t, skip + 1, prev, prev', pos, pos' => by
    rw [matchesFrom, values_matchesFrom t skip (some c) prev' (pos + 1) pos', drop_succ_cons]
  | c :: t, 0, prev, prev', pos, pos' => by
    rw [drop_zero, matchesFrom, matchesFrom]
    cases h : name? (c :: t) with
    | none =>
      rw [matchHere_eq_none (.inr h), matchHere_eq_none (.inr h)]
      exact values_matchesFrom t 0 (some c) (some c) (pos + 1) (pos' + 1)
    | some found =>
      simp only [matchHere, Before.anywhere, if_true, h, map_some, map_cons, Nat.add_sub_cancel_left]
      rw [values_matchesFrom t _ (some c) none (pos + 1) 0, values_matchesFrom t _ (some c) none (pos' + 1) 0]

theorem namesIn_eq (t : Text) (prev : Option Char) (pos : Nat) :
    namesIn t = (matchesFrom Before.anywhere name? 0 prev pos t).map (·.value) := by
  rw [namesIn, allMatches, Text.slice, take_length, drop_zero]
  exact values_matchesFrom t 0 _ prev 0 pos

variable {c : Char} {w t g rest : Text}

theorem namesIn_mark (hc : isNameStart c = false) (t : Text) : namesIn (c :: t) = namesIn t := by
  have hnone : name? (c :: t) = none := by simp [name?, hc]
  rw [namesIn_eq _ none 0, matchesFrom, matchHere_eq_none (.inr hnone)]
  exact (namesIn_eq t (some c) 1).symm

theorem namesIn_blanks {t} : ∀ {g}, isAllBlank g = true → namesIn (g ++ t) = namesIn t
  | [], _ => rfl
  | c :: g, h => by
    obtain ⟨hc, hg⟩ : isBlank c = true ∧ isAllBlank g = true := by simpa [isAllBlank] using h
    have hstart : isNameStart c = false := by
      cases hstart : isNameStart c with
      | false => rfl
      | true =>
        have hpart := isNamePart_of_isNameStart hstart
        rw [isNamePart_of_isBlank hc] at hpart
        cases hpart
    rw [cons_append, namesIn_mark hstart, namesIn_blanks hg]

theorem name?_of_word (hw : isName w = true) (hends : nameEnds t = true) : name? (w ++ t) = some (w, t) := by
  have h := @name?_of_stands (w ++ t) w 0 ⟨t, rfl⟩ hw fun c hc => by
    rw [Nat.zero_add, ← head?_drop, drop_left] at hc
    exact isNamePart_of_nameEnds hends hc
  rwa [drop_zero, Nat.zero_add, drop_left] at h

/-- Names come out of a text in order. -/
theorem namesIn_word (hw : isName w = true) (hends : nameEnds t = true) : namesIn (w ++ t) = w :: namesIn t := by
  have hname := name?_of_word hw hends
  cases w with
  | nil => simp [isName] at hw
  | cons c w =>
    rw [namesIn_eq _ none 0, cons_append, matchesFrom]
    rw [cons_append] at hname
    simp only [matchHere, Before.anywhere, if_true, hname, Option.map_some, map_cons, Nat.add_sub_cancel_left,
      List.cons.injEq, true_and]
    rw [values_matchesFrom (w ++ t) _ (some c) none 1 0, namesIn_eq t none 0]
    have hlength : (c :: (w ++ t)).length - t.length - 1 = w.length := by
      simp only [length_cons, length_append]
      omega
    rw [hlength, drop_left]

/-! ## Modifiers -/

theorem someBlanks?_eq_some (hg : isAllBlank g = true) (hne : g ≠ []) : someBlanks? (g ++ t) = some (dropBlanks t) := by
  cases g with
  | nil => exact absurd rfl hne
  | cons c g =>
    have hc : isBlank c = true := all_eq_true.1 hg c (by simp)
    rw [cons_append, someBlanks?, if_pos hc, dropBlanks, dropWhile_append_of_pos fun d hd =>
      all_eq_true.1 hg d (mem_cons_of_mem _ hd)]
    rfl

theorem dropBlanks_of_head (h : ∀ c, t.head? = some c → isBlank c = false) : dropBlanks t = t := by
  cases t with
  | nil => rfl
  | cons c t => simp [dropBlanks, h c rfl]

theorem dropBlanks_blanks (hg : isAllBlank g = true) : dropBlanks (g ++ t) = dropBlanks t :=
  dropWhile_append_of_pos (all_eq_true.1 hg)

theorem modifierWords_solid : ∀ w ∈ modifierWords, w ≠ [] ∧ w.all (fun c => !isBlank c) = true := by decide +kernel

theorem eq_of_after?_blank {w'} (hw : w.all (fun c => !isBlank c) = true)
    (hw' : w'.all (fun c => !isBlank c) = true) (hg : isAllBlank g = true) (hne : g ≠ [])
    (h : after? w (w' ++ (g ++ t)) = some rest) (hrest : (someBlanks? rest).isSome = true) : w = w' := by
  have hstart : ∀ c, rest.head? = some c → (!isBlank c) = false := by
    intro c hc
    cases rest with
    | nil => simp at hc
    | cons d rest =>
      obtain rfl : d = c := by simpa using hc
      cases hd : isBlank d with
      | true => rfl
      | false => simp [someBlanks?, hd] at hrest
  have hstart' : ∀ c, (g ++ t).head? = some c → (!isBlank c) = false := by
    intro c hc
    cases g with
    | nil => exact absurd rfl hne
    | cons d g =>
      obtain rfl : d = c := by simpa using hc
      simp [all_eq_true.1 hg d (by simp)]
  have heq := congrArg (List.takeWhile fun c => !isBlank c) (after?_eq_some.1 h)
  rw [takeWhile_word hw' hstart', takeWhile_word hw hstart] at heq
  exact heq.symm

theorem modifier?_modifier (hw : w ∈ modifierWords) (hg : isAllBlank g = true) (hne : g ≠ [])
    (ht : ∀ c, t.head? = some c → isBlank c = false) : modifier? (w ++ (g ++ t)) = some t := by
  have hfound : (after? w (w ++ (g ++ t))).bind someBlanks? = some t := by
    rw [after?_eq_some.2 rfl, bind_some, someBlanks?_eq_some hg hne, dropBlanks_of_head ht]
  have honly : ∀ word ∈ modifierWords, ∀ rest,
      (after? word (w ++ (g ++ t))).bind someBlanks? = some rest → rest = t := by
    intro word hword rest hrest
    obtain ⟨behind, hafter, hblanks⟩ := bind_eq_some_iff.1 hrest
    obtain rfl := eq_of_after?_blank (modifierWords_solid word hword).2 (modifierWords_solid w hw).2 hg hne hafter
      (by rw [hblanks]; rfl)
    exact some.inj (hrest.symm.trans hfound)
  cases hmodifier : modifier? (w ++ (g ++ t)) with
  | none =>
    rw [modifier?, findSome?_eq_none_iff] at hmodifier
    rw [hmodifier w hw] at hfound
    cases hfound
  | some rest =>
    obtain ⟨word, hword, hrest⟩ := exists_of_findSome?_eq_some hmodifier
    rw [honly word hword rest hrest]

/-- Modifiers in front of a text are dropped. -/
theorem dropModifiers_modifier (hw : w ∈ modifierWords) (hg : isAllBlank g = true) (hne : g ≠ [])
    (ht : ∀ c, t.head? = some c → isBlank c = false) : dropModifiers (w ++ (g ++ t)) = dropModifiers t := by
  have hlt : t.length < (w ++ (g ++ t)).length := by
    have := length_pos_iff.2 hne
    simp only [length_append]
    omega
  rw [dropModifiers, modifier?_modifier hw hg hne ht]
  simp only
  rw [if_pos hlt]

theorem modifierWords_words : ∀ w ∈ modifierWords, '-' ∈ w ∨ w.all isWord = true := by decide +kernel

theorem dropModifiers_of_word (hword : t.takeWhile isWord ∉ modifierWords) (hdash : '-' ∉ t) : dropModifiers t = t := by
  have hnone : modifier? t = none := by
    rw [modifier?, findSome?_eq_none_iff]
    intro word hmem
    cases h : after? word t with
    | none => rfl
    | some rest =>
      have heq := after?_eq_some.1 h
      rcases modifierWords_words word hmem with hmark | hall
      · exact absurd (heq ▸ mem_append_left rest hmark) hdash
      · refine someBlanks?_of_word ?_
        cases hends : wordEnds rest with
        | false => rfl
        | true =>
          rw [heq, takeWhile_word hall (wordEnds_iff.1 hends)] at hword
          exact absurd hmem hword
  rw [dropModifiers, hnone]

/-! ## The last word -/

theorem arraySuffix_of_solid (hg : isAllBlank g = true) (hc : isBlank c = false) (hne : c ≠ ']') :
    arraySuffix (g ++ c :: rest) = (0, c :: rest) := by
  have hdrop : dropBlanks (g ++ c :: rest) = c :: rest := by
    rw [dropBlanks_blanks hg, dropBlanks_of_head fun d hd => by simp at hd; rw [← hd, hc]]
  rw [arraySuffix]
  split
  · next inner hinner =>
    rw [hdrop] at hinner
    exact absurd (List.cons.inj hinner).1 hne
  · rw [hdrop]

/-- The last word of a text is cut off. -/
theorem lastWord?_of_word {front word : Text} (hfront : endsInWord front = false) (hne : word ≠ [])
    (hword : word.all isWord = true) (hg : isAllBlank g = true) :
    lastWord? (front ++ word ++ g) = some (front, word, 0) := by
  have hback : (front ++ word ++ g).reverse = g.reverse ++ (word.reverse ++ front.reverse) := by simp
  have hwordback : word.reverse.all isWord = true := by rwa [all_reverse]
  have hfrontback : ∀ c, front.reverse.head? = some c → isWord c = false := by
    intro c hc
    rw [head?_reverse] at hc
    simpa [endsInWord, hc] using hfront
  have hsuffix : arraySuffix (front ++ word ++ g).reverse = (0, word.reverse ++ front.reverse) := by
    rw [hback]
    cases hw : word.reverse with
    | nil => exact absurd (reverse_eq_nil_iff.1 hw) hne
    | cons c back =>
      have hc : isWord c = true := all_eq_true.1 hwordback c (by rw [hw]; simp)
      refine arraySuffix_of_solid (by rwa [isAllBlank, all_reverse]) (isBlank_of_isWord hc) ?_
      rintro rfl
      exact absurd hc (by decide)
  simp only [lastWord?, hsuffix, takeWhile_word hwordback hfrontback, drop_left, reverse_reverse]
  rw [if_neg (by simpa using hne)]

/-! ## Blank edges -/

theorem strip_between {g t g'} (hg : isAllBlank g = true) (hg' : isAllBlank g' = true) :
    strip (g ++ t ++ g') = strip t := by
  have hback : isAllBlank g'.reverse = true := by rwa [isAllBlank, all_reverse]
  have hend (u : Text) : dropBlanksEnd (u ++ g') = dropBlanksEnd u := by
    rw [dropBlanksEnd, reverse_append, ← dropBlanks, dropBlanks_blanks hback]
    rfl
  have hfront : dropBlanks (t ++ g') = if (dropBlanks t).isEmpty then dropBlanks g' else dropBlanks t ++ g' :=
    dropWhile_append
  rw [strip, append_assoc, dropBlanks_blanks hg, strip, hfront]
  split
  · next hnone =>
    rw [isEmpty_iff.1 hnone, ← append_nil g', dropBlanks_blanks hg']
    rfl
  · exact hend _

theorem strip_blanks {g t g'} (hg : isAllBlank g = true) (hg' : isAllBlank g' = true)
    (hhead : ∀ c, t.head? = some c → isBlank c = false) (hlast : ∀ c, t.getLast? = some c → isBlank c = false) :
    strip (g ++ t ++ g') = t := by
  have hback : dropBlanks t.reverse = t.reverse := dropBlanks_of_head fun c hc => hlast c (by rwa [head?_reverse] at hc)
  rw [strip_between hg hg', strip, dropBlanks_of_head hhead, dropBlanksEnd, ← dropBlanks, hback, reverse_reverse]

/-! ## The usual spelling of types -/

/-- The two characters may stand side by side in a type that is spelled as usual. -/
def Tight (a b : Char) : Prop :=
  (isBlank a = true → a = ' ' ∧ isBlank b = false ∧ isTypeBracket b = false ∧ b ≠ ',') ∧
    (isTypeBracket a = true → isBlank b = false) ∧ (a = ',' → b = ' ')

theorem singleSpaced_append_of_tight {u} : ∀ {t}, t.IsChain Tight →
    (∀ c, t.getLast? = some c → isBlank c = false) → singleSpaced (t ++ u) = t ++ singleSpaced u
  | [], _, _ => rfl
  | [c], _, hlast => by simp [singleSpaced, hlast c rfl]
  | c :: d :: t, h, hlast => by
    obtain ⟨htight, h⟩ := isChain_cons_cons.1 h
    have ih := @singleSpaced_append_of_tight u (d :: t) h (by simpa using hlast)
    rw [cons_append, singleSpaced, ih]
    split
    · next hc =>
      obtain ⟨rfl, hd, -⟩ := htight.1 hc
      split
      · next heq =>
        obtain ⟨rfl, -⟩ := List.cons.inj heq
        exact absurd hd (by decide)
      · rfl
    · rfl

theorem tightBrackets_of_tight : ∀ {t}, t.IsChain Tight → tightBrackets t = t
  | [], _ => rfl
  | [c], _ => by simp [tightBrackets, dropBlanks]
  | c :: d :: t, h => by
    obtain ⟨htight, h⟩ := isChain_cons_cons.1 h
    have ih := tightBrackets_of_tight h
    rw [tightBrackets, ih]
    split
    · next hc => rw [dropBlanks_of_head fun e he => by simp at he; rw [← he, htight.2.1 hc]]
    · split
      · next hblank =>
        simp only [Bool.and_eq_true] at hblank
        obtain ⟨-, hd, hbracket, -⟩ := htight.1 hblank.1
        simp [dropBlanks, hd, hbracket] at hblank
      · rfl

theorem spacedCommas_of_tight : ∀ {t}, t.IsChain Tight → (∀ c, t.getLast? = some c → c ≠ ',') →
    spacedCommas t = t
  | [], _, _ => rfl
  | [c], _, hlast => by simp [spacedCommas, hlast c rfl, dropBlanks]
  | c :: d :: t, h, hlast => by
    obtain ⟨htight, h⟩ := isChain_cons_cons.1 h
    have ih := spacedCommas_of_tight h (by simpa using hlast)
    rw [spacedCommas, ih]
    split
    · next hc =>
      obtain rfl : d = ' ' := htight.2.2 (by simpa using hc)
      have hnext : dropBlanks t = t := by
        cases t with
        | nil => rfl
        | cons e t =>
          obtain ⟨-, he, -⟩ := (isChain_cons_cons.1 h).1.1 (by decide)
          exact dropBlanks_of_head fun f hf => by simp at hf; rw [← hf, he]
      rw [show dropBlanks (' ' :: t) = dropBlanks t from rfl, hnext, show c = ',' by simpa using hc]
    · split
      · next hblank =>
        simp only [Bool.and_eq_true] at hblank
        obtain ⟨-, hd, -, hcomma⟩ := htight.1 hblank.1
        simp [dropBlanks, hd, hcomma] at hblank
      · rfl

theorem singleSpaced_blanks {t} : ∀ {g}, isAllBlank g = true → ∃ g', isAllBlank g' = true ∧
    singleSpaced (g ++ t) = g' ++ singleSpaced t
  | [], _ => ⟨[], rfl, rfl⟩
  | c :: g, hg => by
    obtain ⟨hc, hg⟩ : isBlank c = true ∧ isAllBlank g = true := by simpa [isAllBlank] using hg
    obtain ⟨g', hg', heq⟩ := @singleSpaced_blanks t g hg
    rw [cons_append, singleSpaced, if_pos hc, heq]
    split
    · next rest hrest => exact ⟨g', hg', hrest.symm⟩
    · exact ⟨' ' :: g', by rw [isAllBlank, all_cons, ← isAllBlank, hg']; decide, rfl⟩

/-- A type that is spelled as usual keeps its spelling. -/
theorem normalType_of_tight (h : t.IsChain Tight) (hhead : ∀ c, t.head? = some c → isBlank c = false)
    (hlast : ∀ c, t.getLast? = some c → isBlank c = false ∧ c ≠ ',') (hg : isAllBlank g = true) :
    normalType (t ++ g) = t := by
  have hsolid : ∀ c, t.getLast? = some c → isBlank c = false := fun c hc => (hlast c hc).1
  obtain ⟨g', hg', hblank⟩ := @singleSpaced_blanks [] g hg
  rw [append_nil, show singleSpaced [] = [] from rfl, append_nil] at hblank
  have hstrip := @strip_blanks [] t g' rfl hg' hhead hsolid
  rw [nil_append] at hstrip
  rw [normalType, singleSpaced_append_of_tight h hsolid, hblank, hstrip, tightBrackets_of_tight h,
    spacedCommas_of_tight h fun c hc => (hlast c hc).2]

/-! ## Commas outside of brackets -/

section Outside

variable {opens closes : List Char} {sep : Char}

theorem splitOutside_ne_nil (depth : Int) (t : Text) : splitOutside opens closes sep depth t ≠ [] := by
  cases t with
  | nil => simp [splitOutside]
  | cons c t =>
    rw [splitOutside]
    split
    · simp
    · split <;> simp

theorem splitOutside_cons {c depth} (h : c = sep → depth ≠ 0) (t : Text) :
    splitOutside opens closes sep depth (c :: t) =
      (splitOutside opens closes sep (depth + bracketStep opens closes c) t).modifyHead (c :: ·) := by
  have hstays : ¬(c == sep && depth == 0) = true := by
    simp only [Bool.and_eq_true, beq_iff_eq, not_and]
    exact h
  rw [splitOutside, if_neg hstays]
  cases hrest : splitOutside opens closes sep (depth + bracketStep opens closes c) t with
  | nil => exact absurd hrest (splitOutside_ne_nil _ _)
  | cons p ps => rfl

theorem splitOutside_append {u} : ∀ {t : Text} {depth},
    (∀ a b, t = a ++ sep :: b → depth + (a.map (bracketStep opens closes)).sum ≠ 0) →
    splitOutside opens closes sep depth (t ++ u) =
      (splitOutside opens closes sep (depth + (t.map (bracketStep opens closes)).sum) u).modifyHead (t ++ ·)
  | [], depth, _ => by
    cases h : splitOutside opens closes sep depth u with
    | nil => exact absurd h (splitOutside_ne_nil _ _)
    | cons p ps => simp [h]
  | c :: t, depth, h => by
    have hstays : c = sep → depth ≠ 0 := by
      rintro rfl hzero
      exact h [] t rfl (by simp [hzero])
    have ih := @splitOutside_append u t (depth + bracketStep opens closes c) fun a b hab => by
      have := h (c :: a) b (by rw [hab, cons_append])
      rwa [map_cons, sum_cons, ← Int.add_assoc] at this
    rw [cons_append, splitOutside_cons hstays, ih, modifyHead_modifyHead, map_cons, sum_cons, Int.add_assoc]
    rfl

end Outside

/-- The pieces between the commas that stand where the bracket count, `depth` at the front, is zero. -/
def declaratorsFrom (depth : Int) (t : Text) : List Text := splitOutside ('<' :: openers) ('>' :: closers) ',' depth t

/-- From that many open brackets on, no comma of the text is outside of them, and what it opens it closes. -/
def Undivided (least : Int) (t : Text) : Prop :=
  ∀ depth u, least ≤ depth → declaratorsFrom depth (t ++ u) = (declaratorsFrom depth u).modifyHead (t ++ ·)

theorem declaratorsFrom_ne_nil (depth : Int) (t : Text) : declaratorsFrom depth t ≠ [] := splitOutside_ne_nil depth t

theorem declaratorsFrom_cons {c depth} (h : c = ',' → depth ≠ 0) (t : Text) :
    declaratorsFrom depth (c :: t) =
      (declaratorsFrom (depth + bracketStep ('<' :: openers) ('>' :: closers) c) t).modifyHead (c :: ·) :=
  splitOutside_cons h t

namespace Undivided

theorem nil (least : Int) : Undivided least [] := by
  intro depth u _
  cases h : declaratorsFrom depth u with
  | nil => exact absurd h (declaratorsFrom_ne_nil _ _)
  | cons p ps => simp [h]

variable {least : Int} {t : Text}

theorem append {u} (ht : Undivided least t) (hu : Undivided least u) : Undivided least (t ++ u) := by
  intro depth v hle
  rw [append_assoc, ht depth _ hle, hu depth _ hle, modifyHead_modifyHead]
  congr 1
  funext p
  simp

theorem mono {least'} (h : Undivided least t) (hle : least ≤ least') : Undivided least' t :=
  fun depth u hdepth => h depth u (by omega)

theorem cons {least c t} (hc : bracketStep ('<' :: openers) ('>' :: closers) c = 0)
    (hcomma : c = ',' → 0 < least) (ht : Undivided least t) : Undivided least (c :: t) := by
  intro depth u hle
  have h := @declaratorsFrom_cons c depth (fun heq => by have := hcomma heq; omega) (t ++ u)
  rw [cons_append, h, hc, Int.add_zero, ht depth u hle, modifyHead_modifyHead]
  rfl

theorem enclosed {opener closer} (hopener : bracketStep ('<' :: openers) ('>' :: closers) opener = 1)
    (hcloser : bracketStep ('<' :: openers) ('>' :: closers) closer = -1) (hne : opener ≠ ',') (hne' : closer ≠ ',')
    (ht : Undivided 1 t) : Undivided 0 (opener :: (t ++ [closer])) := by
  intro depth u hle
  have hopens := @declaratorsFrom_cons opener depth (fun h => absurd h hne) (t ++ closer :: u)
  have hinner := ht (depth + 1) (closer :: u) (by omega)
  have hcloses := @declaratorsFrom_cons closer (depth + 1) (fun h => absurd h hne') u
  rw [hopener, hinner] at hopens
  rw [hcloser, Int.add_neg_cancel_right] at hcloses
  rw [cons_append, append_assoc, singleton_append, hopens, hcloses, modifyHead_modifyHead, modifyHead_modifyHead]
  congr 1
  funext p
  simp

end Undivided

theorem bracketStep_eq_zero (h : c ∉ "<>()\x7b\x7d[]".toList) :
    bracketStep ('<' :: openers) ('>' :: closers) c = 0 := by
  have hopens : ('<' :: openers) ⊆ "<>()\x7b\x7d[]" := by decide
  have hcloses : ('>' :: closers) ⊆ "<>()\x7b\x7d[]" := by decide
  rw [bracketStep, if_neg fun hmem => h (hopens (contains_iff_mem.1 hmem)),
    if_neg fun hmem => h (hcloses (contains_iff_mem.1 hmem))]

theorem splitDeclarators_eq (t : Text) : splitDeclarators t = declaratorsFrom 0 t := rfl

theorem splitDeclarators_of_undivided (h : Undivided 0 t) : splitDeclarators t = [t] := by
  have hnil : declaratorsFrom 0 ([] : Text) = [[]] := rfl
  have := h 0 [] (Int.le_refl _)
  rw [append_nil, hnil] at this
  simpa [splitDeclarators_eq] using this

theorem splitDeclarators_comma (h : Undivided 0 t) (u : Text) :
    splitDeclarators (t ++ ',' :: u) = t :: splitDeclarators u := by
  have hcut : declaratorsFrom 0 (',' :: u) = [] :: declaratorsFrom 0 u := rfl
  have := h 0 (',' :: u) (Int.le_refl _)
  rw [hcut] at this
  simpa [splitDeclarators_eq] using this

end Rebind.Java
