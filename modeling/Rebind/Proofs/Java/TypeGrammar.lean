/-
Types in their usual spelling.

`IsTypeText` is the grammar of types: dotted names, type arguments and array brackets. Such a type is spelled as
`normalType` would spell it (`IsTypeText.isChain`), holds no reserved word (`IsTypeText.wordFree`), nests its brackets
(`IsTypeText.wellBracketed`), and has commas between type arguments only (`IsTypeText.undivided`).
-/
import Mathlib.Data.List.Chain
import Rebind.Proofs.Java.Spelling

namespace Rebind.Java

open Text List Option Bool

variable {t u w : Text}

/-! ## Brackets of pieces -/

theorem WellBracketed.append (ht : WellBracketed t) (hu : WellBracketed u) : WellBracketed (t ++ u) := by
  rw [WellBracketed, owedAfter_append, ht]
  exact hu

theorem wellBracketed_of_forall (h : ∀ c ∈ t, isBracket c = false) : WellBracketed t :=
  owedAfter_of_brackets_nil (brackets_eq_nil h) []

theorem wellBracketed_of_blank {g} (h : isAllBlank g = true) : WellBracketed g := (unended_of_blank h).nests

variable {c : Char}

theorem isBracket_of_isWord (h : isWord c = true) : isBracket c = false :=
  not_isBracket_of_isNamePart (isNamePart_of_isWord h)

theorem wellBracketed_of_word (h : w.all isWord = true) : WellBracketed w :=
  wellBracketed_of_forall fun c hc => isBracket_of_isWord (all_eq_true.1 h c hc)

theorem Enclosed.wellBracketed {opener closer} (h : Enclosed opener closer t)
    (hkind : closerOf? opener = some closer) : WellBracketed t := by
  obtain ⟨b, hb, rfl⟩ := h
  have hopens : owedStep [] opener = some [closer] := by simp [owedStep, hkind]
  have hcloser := mem_closers hkind
  have hcloses : owedStep [closer] closer = some [] := by
    simp [owedStep, closerOf?_of_mem_closers hcloser, hcloser]
  have hinner : owedAfter [closer] b = some [closer] := owedAfter_above [closer] hb
  rw [WellBracketed, owedAfter_cons, hopens, bind_some, owedAfter_append, hinner, bind_some,
    owedAfter_cons, hcloses, bind_some]
  rfl

/-! ## Names and types -/

/-- The words that name no type, field, method or parameter. -/
def reservedWords : List Text := modifierWords ++ typeWords

def isLead (c : Char) : Bool := isAsciiLetter c || c == '_'

/-- A word that starts with an ASCII letter or an underscore and is not reserved. -/
def isIdentifier (t : Text) : Bool := t.head?.any isLead && t.all isWord && !reservedWords.contains t

theorem isWord_of_isLead (h : isLead c = true) : isWord c = true := by
  simp only [isLead, or_eq_true, beq_iff_eq] at h
  rcases h with h | rfl
  · exact isWord_of_isAsciiLetter h
  · decide

section Identifier

variable {w : Text} (h : isIdentifier w = true)
include h

theorem ne_nil_of_isIdentifier : w ≠ [] := by
  rintro rfl
  simp [isIdentifier] at h

theorem all_isWord_of_isIdentifier : w.all isWord = true := by
  simp only [isIdentifier, and_eq_true] at h
  exact h.1.2

theorem not_mem_reserved_of_isIdentifier : w ∉ reservedWords := by
  simp only [isIdentifier, and_eq_true] at h
  simpa using h.2

theorem isName_of_isIdentifier : isName w = true := by
  simp only [isIdentifier, and_eq_true] at h
  simp only [isName, and_eq_true]
  constructor
  · cases w with
    | nil => simp at h
    | cons c w =>
      have hlead : isLead c = true := by simpa using h.1.1
      simpa [isLead, isNameStart] using Or.inl (by simpa [isLead] using hlead)
  · exact all_eq_true.2 fun c hc => isNamePart_of_isWord (all_eq_true.1 h.1.2 c hc)

theorem head?_of_isIdentifier : ∃ c, w.head? = some c ∧ isWord c = true := by
  cases w with
  | nil => simp [isIdentifier] at h
  | cons c w => exact ⟨c, rfl, all_eq_true.1 (all_isWord_of_isIdentifier h) c (by simp)⟩

theorem wordFree_of_isIdentifier : WordFree reservedWords w :=
  wordFree_of_word (ne_nil_of_isIdentifier h) (all_isWord_of_isIdentifier h) (not_mem_reserved_of_isIdentifier h)

end Identifier

def boundWords : List Text := ["extends", "super"]

theorem boundWords_words : ∀ w ∈ boundWords, w ≠ [] ∧ w.all isWord = true ∧ w ∉ reservedWords := by decide +kernel

/-- Types in their usual spelling, and lists of type arguments. -/
inductive IsTypeText : (isList : Bool) → Text → Prop where
  | word {w : Text} (hw : isIdentifier w = true) : IsTypeText false w
  | member {t w : Text} (ht : IsTypeText false t) (hw : isIdentifier w = true) : IsTypeText false (t ++ '.' :: w)
  | generic {t args : Text} (ht : IsTypeText false t) (hargs : IsTypeText true args) :
      IsTypeText false (t ++ '<' :: (args ++ ['>']))
  | array {t : Text} (ht : IsTypeText false t) : IsTypeText false (t ++ ['[', ']'])
  | arg {t : Text} (ht : IsTypeText false t) : IsTypeText true t
  | any : IsTypeText true ['?']
  | bounded {word t : Text} (hword : word ∈ boundWords) (ht : IsTypeText false t) :
      IsTypeText true ('?' :: ' ' :: (word ++ ' ' :: t))
  | args {a b : Text} (ha : IsTypeText true a) (hb : IsTypeText true b) : IsTypeText true (a ++ ',' :: ' ' :: b)

namespace IsTypeText

variable {isList : Bool} {t : Text}

theorem head? (h : IsTypeText isList t) : ∃ c, t.head? = some c ∧ (isWord c = true ∨ c = '?') := by
  have front : ∀ {t u : Text}, (∃ c, t.head? = some c ∧ (isWord c = true ∨ c = '?')) →
      ∃ c, (t ++ u).head? = some c ∧ (isWord c = true ∨ c = '?') := by
    rintro t u ⟨c, hc, hword⟩
    exact ⟨c, by rw [head?_append, hc, some_or], hword⟩
  induction h with
  | word hw =>
    obtain ⟨c, hc, hword⟩ := head?_of_isIdentifier hw
    exact ⟨c, hc, .inl hword⟩
  | member _ _ ih | generic _ _ ih _ | array _ ih => exact front ih
  | arg _ ih => exact ih
  | any | bounded _ _ _ => exact ⟨'?', rfl, .inr rfl⟩
  | args _ _ ih _ => exact front ih

theorem ne_nil (h : IsTypeText isList t) : t ≠ [] := by
  obtain ⟨c, hc, -⟩ := h.head?
  rintro rfl
  cases hc

def isEnd (c : Char) : Bool := isWord c || c == '>' || c == ']' || c == '?'

theorem getLast? (h : IsTypeText isList t) : ∃ c, t.getLast? = some c ∧ isEnd c = true := by
  have back : ∀ {t u : Text}, (∃ c, u.getLast? = some c ∧ isEnd c = true) →
      ∃ c, (t ++ u).getLast? = some c ∧ isEnd c = true := by
    rintro t u ⟨c, hc, hend⟩
    exact ⟨c, by rw [getLast?_append, hc, some_or], hend⟩
  have ends : ∀ {w : Text}, isIdentifier w = true → ∃ c, w.getLast? = some c ∧ isEnd c = true := by
    intro w hw
    have hlast := getLast?_eq_getLast_of_ne_nil (ne_nil_of_isIdentifier hw)
    exact ⟨_, hlast, by simp [isEnd, all_eq_true.1 (all_isWord_of_isIdentifier hw) _ (mem_of_getLast? hlast)]⟩
  induction h with
  | word hw => exact ends hw
  | member _ hw _ => exact back (back (t := ['.']) (ends hw))
  | generic _ _ _ _ => exact back (back (t := ['<']) (back ⟨'>', rfl, by decide⟩))
  | array _ _ => exact ⟨']', by simp, by decide⟩
  | arg _ ih => exact ih
  | any => exact ⟨'?', rfl, by decide⟩
  | @bounded word t _ _ ih =>
    rw [show '?' :: ' ' :: (word ++ ' ' :: t) = ('?' :: ' ' :: (word ++ [' '])) ++ t by simp]
    exact back ih
  | @args a b _ _ _ ih =>
    rw [show a ++ ',' :: ' ' :: b = (a ++ [',', ' ']) ++ b by simp]
    exact back ih

theorem solid_head (h : IsTypeText isList t) : ∀ c, t.head? = some c → isBlank c = false := by
  intro c hc
  obtain ⟨d, hd, hword⟩ := h.head?
  obtain rfl : d = c := some.inj (hd.symm.trans hc)
  rcases hword with hword | rfl
  · exact isBlank_of_isWord hword
  · decide

theorem solid_getLast (h : IsTypeText isList t) : ∀ c, t.getLast? = some c → isBlank c = false ∧ c ≠ ',' := by
  intro c hc
  obtain ⟨d, hd, hend⟩ := h.getLast?
  obtain rfl : d = c := some.inj (hd.symm.trans hc)
  simp only [isEnd, or_eq_true, beq_iff_eq] at hend
  rcases hend with ((hword | rfl) | rfl) | rfl
  · refine ⟨isBlank_of_isWord hword, ?_⟩
    rintro rfl
    exact absurd hword (by decide)
  all_goals decide

theorem mem (h : IsTypeText isList t) : ∀ c ∈ t, isWord c = true ∨ c ∈ ".<>[],? ".toList := by
  have word : ∀ {w : Text}, w.all isWord = true → ∀ c ∈ w, isWord c = true ∨ c ∈ ".<>[],? ".toList :=
    fun hw c hc => .inl (all_eq_true.1 hw c hc)
  induction h with
  | word hw => exact word (all_isWord_of_isIdentifier hw)
  | member _ hw ih => grind [word (all_isWord_of_isIdentifier hw)]
  | arg _ ih => exact ih
  | @bounded w _ hword _ ih => grind [word (boundWords_words w hword).2.1]
  | _ => grind

variable {c d : Char}

theorem isTypeBracket_of_isWord (h : isWord c = true) : isTypeBracket c = false := by
  cases hbracket : isTypeBracket c with
  | false => rfl
  | true =>
    simp only [isTypeBracket, or_eq_true, beq_iff_eq] at hbracket
    rcases hbracket with ((rfl | rfl) | rfl) | rfl <;> exact absurd h (by decide)

theorem ne_comma_of_isWord (h : isWord c = true) : c ≠ ',' := by
  rintro rfl
  exact absurd h (by decide)

theorem tight_solid (hc : isBlank c = false) (hcomma : c ≠ ',') (hd : isBlank d = false) : Tight c d :=
  ⟨fun h => absurd (h.symm.trans hc) (by decide), fun _ => hd, fun h => absurd h hcomma⟩

theorem tight_before_space (hc : isBlank c = false) (hcomma : c ≠ ',') (hbracket : isTypeBracket c = false) :
    Tight c ' ' :=
  ⟨fun h => absurd (h.symm.trans hc) (by decide), fun h => absurd (h.symm.trans hbracket) (by decide),
    fun h => absurd h hcomma⟩

theorem tight_space (hd : isWord d = true ∨ d = '?') : Tight ' ' d := by
  refine ⟨fun _ => ⟨rfl, ?_⟩, fun h => absurd h (by decide), fun h => absurd h (by decide)⟩
  rcases hd with hd | rfl
  · exact ⟨isBlank_of_isWord hd, isTypeBracket_of_isWord hd, ne_comma_of_isWord hd⟩
  · decide

theorem isChain_of_word : ∀ {w : Text}, w.all isWord = true → w.IsChain Tight
  | [], _ => .nil
  | [_], _ => .singleton _
  | c :: d :: w, h => by
    obtain ⟨hc, hw⟩ : isWord c = true ∧ (d :: w).all isWord = true := by rwa [all_cons, and_eq_true] at h
    have hd : isWord d = true := all_eq_true.1 hw d (by simp)
    exact isChain_cons_cons.2 ⟨tight_solid (isBlank_of_isWord hc) (ne_comma_of_isWord hc) (isBlank_of_isWord hd),
      isChain_of_word hw⟩

theorem isChain_cons_of_head (hd : t.head? = some d) (hcd : Tight c d) (ht : t.IsChain Tight) :
    (c :: t).IsChain Tight :=
  ht.cons fun e he => by
    obtain rfl : d = e := some.inj (hd.symm.trans he)
    exact hcd

theorem isChain_append_mark (ht : IsTypeText isList t) (hchain : t.IsChain Tight) (hd : isBlank d = false)
    (hu : (d :: u).IsChain Tight) : (t ++ d :: u).IsChain Tight := by
  refine hchain.append hu fun c hc e he => ?_
  obtain rfl : d = e := by simpa using he
  obtain ⟨hblank, hcomma⟩ := ht.solid_getLast c hc
  exact tight_solid hblank hcomma hd

theorem isChain_space_cons (ht : IsTypeText isList t) (hchain : t.IsChain Tight) : (' ' :: t).IsChain Tight := by
  obtain ⟨c, hc, hword⟩ := ht.head?
  exact isChain_cons_of_head hc (tight_space hword) hchain

theorem isChain_bound (hw : w ∈ boundWords) (ht : IsTypeText isList t) (hchain : t.IsChain Tight) :
    ('?' :: ' ' :: (w ++ ' ' :: t)).IsChain Tight := by
  obtain ⟨hne, hall, -⟩ := boundWords_words w hw
  have hbound : (w ++ ' ' :: t).IsChain Tight := by
    refine (isChain_of_word hall).append (isChain_space_cons ht hchain) fun c hc d hd => ?_
    have hword : isWord c = true := all_eq_true.1 hall c (mem_of_getLast? hc)
    obtain rfl : ' ' = d := by simpa using hd
    exact tight_before_space (isBlank_of_isWord hword) (ne_comma_of_isWord hword) (isTypeBracket_of_isWord hword)
  cases w with
  | nil => exact absurd rfl hne
  | cons c w =>
    have hc : isWord c = true := all_eq_true.1 hall c (by simp)
    exact isChain_cons_of_head rfl (tight_before_space (by decide) (by decide) (by decide))
      (isChain_cons_of_head rfl (tight_space (.inl hc)) hbound)

theorem isChain (h : IsTypeText isList t) : t.IsChain Tight := by
  induction h with
  | word hw => exact isChain_of_word (all_isWord_of_isIdentifier hw)
  | member ht hw ih =>
    obtain ⟨c, hc, hword⟩ := head?_of_isIdentifier hw
    exact isChain_append_mark ht ih (by decide) (isChain_cons_of_head hc
      (tight_solid (by decide) (by decide) (isBlank_of_isWord hword)) (isChain_of_word (all_isWord_of_isIdentifier hw)))
  | @generic t args ht hargs ih ih' =>
    obtain ⟨c, hc, -⟩ := hargs.head?
    have hhead : (args ++ ['>']).head? = some c := by rw [head?_append, hc, some_or]
    exact isChain_append_mark ht ih (by decide) (isChain_cons_of_head hhead
      (tight_solid (by decide) (by decide) (hargs.solid_head c hc))
      (isChain_append_mark hargs ih' (by decide) (.singleton _)))
  | array ht ih =>
    exact isChain_append_mark ht ih (by decide)
      (isChain_cons_of_head rfl (tight_solid (by decide) (by decide) (by decide)) (.singleton _))
  | arg _ ih => exact ih
  | any => exact .singleton _
  | bounded hword ht ih => exact isChain_bound hword ht ih
  | args ha hb ih ih' =>
    exact isChain_append_mark ha ih (by decide) (isChain_cons_of_head rfl
      ⟨fun h => absurd h (by decide), fun h => absurd h (by decide), fun _ => rfl⟩ (isChain_space_cons hb ih'))

theorem wordFree (h : IsTypeText isList t) : WordFree reservedWords t := by
  induction h with
  | word hw => exact wordFree_of_isIdentifier hw
  | member _ hw ih => exact ih.append (.mark (by decide) (by decide) (wordFree_of_isIdentifier hw)) fun _ => rfl
  | generic _ _ ih ih' =>
    have hclosed := ih'.append (.mark (c := '>') (by decide) (by decide) .nil) fun _ => rfl
    exact ih.append (.mark (by decide) (by decide) hclosed) fun _ => rfl
  | array _ ih => exact ih.append (.mark (by decide) (by decide) (.mark (by decide) (by decide) .nil)) fun _ => rfl
  | arg _ ih => exact ih
  | any => exact .mark (by decide) (by decide) .nil
  | @bounded w _ hword _ ih =>
    obtain ⟨hne, hall, hfree⟩ := boundWords_words w hword
    exact .mark (by decide) (by decide) (.mark (by decide) (by decide)
      (.word hne hall hfree rfl (.mark (by decide) (by decide) ih)))
  | args _ _ ih ih' =>
    exact ih.append (.mark (by decide) (by decide) (.mark (by decide) (by decide) ih')) fun _ => rfl

theorem wellBracketed_cons (hc : isBracket c = false) (ht : WellBracketed t) : WellBracketed (c :: t) :=
  (wellBracketed_of_forall (t := [c]) (by simpa using hc)).append ht

theorem wellBracketed (h : IsTypeText isList t) : WellBracketed t := by
  induction h with
  | word hw => exact wellBracketed_of_word (all_isWord_of_isIdentifier hw)
  | member _ hw ih =>
    exact ih.append (wellBracketed_cons (by decide) (wellBracketed_of_word (all_isWord_of_isIdentifier hw)))
  | generic _ _ ih ih' => exact ih.append (wellBracketed_cons (by decide) (ih'.append (by decide)))
  | array _ ih => exact ih.append (by decide)
  | arg _ ih => exact ih
  | any => decide
  | @bounded w _ hword _ ih =>
    exact wellBracketed_cons (by decide) (wellBracketed_cons (by decide)
      ((wellBracketed_of_word (boundWords_words w hword).2.1).append (wellBracketed_cons (by decide) ih)))
  | args _ _ ih ih' => exact ih.append (wellBracketed_cons (by decide) (wellBracketed_cons (by decide) ih'))

theorem undivided_of_word (least : Int) (h : w.all isWord = true) : Undivided least w := by
  induction w with
  | nil => exact .nil least
  | cons c w ih =>
    rw [all_cons, and_eq_true] at h
    refine .cons (bracketStep_eq_zero fun hmem => ?_) (fun hcomma => absurd hcomma (ne_comma_of_isWord h.1)) (ih h.2)
    have hmarks : ∀ d ∈ "<>()\x7b\x7d[]".toList, isWord d = false := by
      simpa using (by decide : "<>()\x7b\x7d[]".toList.all (!isWord ·) = true)
    rw [hmarks c hmem] at h
    cases h.1

theorem undivided (h : IsTypeText isList t) : Undivided (if isList then 1 else 0) t := by
  induction h with
  | word hw => exact undivided_of_word _ (all_isWord_of_isIdentifier hw)
  | member _ hw ih =>
    exact ih.append (.cons (by decide) (by decide) (undivided_of_word _ (all_isWord_of_isIdentifier hw)))
  | generic _ _ ih ih' => exact ih.append (.enclosed (by decide) (by decide) (by decide) (by decide) ih')
  | array _ ih => exact ih.append (.enclosed (t := []) (by decide) (by decide) (by decide) (by decide) (.nil 1))
  | arg _ ih => exact ih.mono (by decide)
  | any => exact .cons (by decide) (by decide) (.nil _)
  | @bounded w _ hword _ ih =>
    exact .cons (by decide) (by decide) (.cons (by decide) (by decide)
      ((undivided_of_word _ (boundWords_words w hword).2.1).append
        (.cons (by decide) (by decide) (ih.mono (by decide)))))
  | args _ _ ih ih' => exact ih.append (.cons (by decide) (by decide) (.cons (by decide) (by decide) ih'))

theorem exists_word (h : IsTypeText isList t) (hlist : isList = false) :
    ∃ w rest, t = w ++ rest ∧ isIdentifier w = true ∧ nameEnds rest = true := by
  have behind : ∀ {t u : Text}, (∃ w rest, t = w ++ rest ∧ isIdentifier w = true ∧ nameEnds rest = true) →
      nameEnds u = true → ∃ w rest, t ++ u = w ++ rest ∧ isIdentifier w = true ∧ nameEnds rest = true := by
    rintro t u ⟨w, rest, rfl, hw, hends⟩ hu
    refine ⟨w, rest ++ u, append_assoc _ _ _, hw, ?_⟩
    cases rest with
    | nil => exact hu
    | cons c rest => exact hends
  induction h with
  | @word w hw => exact ⟨w, [], (append_nil w).symm, hw, rfl⟩
  | member _ _ ih | generic _ _ ih _ | array _ ih => exact behind (ih rfl) rfl
  | arg | any | bounded | args => cases hlist

end IsTypeText

end Rebind.Java
