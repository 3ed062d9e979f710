/-
How the members of a class are written.

`text` writes a member out, `Fits` says that its parts are what they should be, and `read` is the member to be found
where the text stands. `strayNames` are the words that an initializer adds to the names of a field.
-/
import Rebind.Proofs.Java.TypeGrammar

namespace Rebind.Java

open Text List Option

variable {t g : Text}

/-! ## Annotations -/

/-- An annotation: blanks behind the at sign, the name, and the arguments with the blanks before their bracket. -/
structure AnnotationText where
  gap : Text
  name : Text
  args : Option (Text × Text)

namespace AnnotationText

def argsText (a : AnnotationText) : Text := a.args.elim [] fun p => p.1 ++ '(' :: (p.2 ++ [')'])

def text (a : AnnotationText) : Text := '@' :: (a.gap ++ (a.name ++ a.argsText))

def read (a : AnnotationText) (i : Nat) : Annotation := ⟨a.name, a.args.map (·.2), ⟨i, i + a.text.length⟩⟩

structure Fits (a : AnnotationText) : Prop where
  gap : isAllBlank a.gap = true
  lead : a.name.head?.any isLead = true
  dotted : a.name.all isDotted = true
  use : a.name.takeWhile isWord ≠ "interface"
  args : ∀ p, a.args = some p → isAllBlank p.1 = true ∧ WellBracketed p.2

end AnnotationText

def annotationsText (as : List (AnnotationText × Text)) : Text := as.flatMap fun p => p.1.text ++ p.2

def annotationsAt : (i : Nat) → List (AnnotationText × Text) → List Annotation
  | _, [] => []
  | i, (a, gap) :: as => a.read i :: annotationsAt (i + a.text.length + gap.length) as

/-- A word follows the last annotation, and has to be set apart from its name. -/
structure AnnotationsFit (as : List (AnnotationText × Text)) : Prop where
  each : ∀ p ∈ as, p.1.Fits ∧ isAllBlank p.2 = true
  last : ∀ p, as.getLast? = some p → p.1.args = none → p.2 ≠ []

/-! ## Types with names -/

structure Declarator where
  type : Text
  gap : Text
  name : Text
  behind : Text

namespace Declarator

def text (d : Declarator) : Text := d.type ++ d.gap ++ d.name ++ d.behind

def read (d : Declarator) : Parameter := ⟨d.type, d.name⟩

structure Fits (d : Declarator) : Prop where
  type : IsTypeText false d.type
  gap : isAllBlank d.gap = true
  name : isIdentifier d.name = true
  behind : isAllBlank d.behind = true
  apart : endsInWord d.type = true → d.gap ≠ []

end Declarator

/-- Parameters with blanks before each and commas between them; blanks alone when there are none. -/
def parametersText (blank : Text) : List (Text × Declarator) → Text
  | [] => blank
  | [p] => p.1 ++ p.2.text
  | p :: q :: ps => p.1 ++ p.2.text ++ ',' :: parametersText blank (q :: ps)

/-! ## Members -/

def modifiersText (modifiers : List (Text × Text)) : Text := modifiers.flatMap fun m => m.1 ++ m.2

/-- Words that may stand before a declaration, each set apart from what follows. -/
def ModifiersFit (modifiers : List (Text × Text)) : Prop :=
  ∀ m ∈ modifiers, m.1 ∈ modifierWords ∧ m.1 ≠ "non-sealed" ∧ isAllBlank m.2 = true ∧ m.2 ≠ []

inductive CoreText where
  | field (d : Declarator) (init : Option Text)
  | method (d : Declarator) (params : List (Text × Declarator)) (blank behind : Text) (body : Option Text)
  | nested (kind : TypeKind) (gap name behind body : Text)

namespace CoreText

/-- The body of a method, or the semicolon in its place. -/
def bodyText (body : Option Text) : Text := body.elim [';'] fun b => '{' :: (b ++ ['}'])

def text : CoreText → Text
  | field d init => d.text ++ init.elim [] ('=' :: ·) ++ [';']
  | method d params blank behind body =>
    d.text ++ '(' :: (parametersText blank params ++ [')']) ++ behind ++ bodyText body
  | nested kind gap name behind body => kind.keyword ++ gap ++ name ++ behind ++ '{' :: (body ++ ['}'])

def Fits : CoreText → Prop
  | field d init => d.Fits ∧ ∀ t, init = some t → Unended t
  | method d params blank behind body => d.Fits ∧ (∀ p ∈ params, isAllBlank p.1 = true ∧ p.2.Fits) ∧
      isAllBlank blank = true ∧ isAllBlank behind = true ∧ ∀ b, body = some b → WellBracketed b
  | nested _ gap name behind body => (isAllBlank gap = true ∧ gap ≠ []) ∧ isIdentifier name = true ∧
      isAllBlank behind = true ∧ WellBracketed body

def init? : CoreText → Option Text
  | field _ init => init
  | _ => none

end CoreText

/-- The words that start the pieces of an initializer behind its commas, where as many brackets, angle brackets
included, were closed as opened. -/
def strayNames (init : Text) : List Text :=
  ((splitDeclarators init).tail.map (·.takeWhile (· != '='))).filterMap fun part =>
    (run? isWord (dropBlanks part)).map (·.1)

/-- A field, a method or a nested type with its annotations, modifiers and blanks. -/
structure MemberText where
  annotations : List (AnnotationText × Text)
  modifiers : List (Text × Text)
  core : CoreText

namespace MemberText

def text (m : MemberText) : Text := annotationsText m.annotations ++ (modifiersText m.modifiers ++ m.core.text)

structure Fits (m : MemberText) : Prop where
  annotations : AnnotationsFit m.annotations
  modifiers : ModifiersFit m.modifiers
  core : m.core.Fits

def read (m : MemberText) (i : Nat) : Member :=
  let span : Span := ⟨i, i + m.text.length⟩
  match m.core with
  | .field d init => .field {
      type := d.type
      name := d.name
      moreNames := init.elim [] strayNames
      modifiers := m.modifiers.map (·.1)
      annotations := annotationsAt i m.annotations
      span := span }
  | .method d params _ _ body => .method {
      name := d.name
      params := params.map (·.2.read)
      returnType := some d.type
      modifiers := m.modifiers.map (·.1)
      annotations := annotationsAt i m.annotations
      span := span
      body := body.map fun b => ⟨span.stop - (b.length + 2), span.stop - 1⟩ }
  | .nested .. => .nestedType span

end MemberText

/-- Members with blanks before each, and blanks at the end. -/
def membersText : (parts : List (Text × MemberText)) → (last : Text) → Text
  | [], last => last
  | (gap, m) :: parts, last => gap ++ m.text ++ membersText parts last

/-- The members of a body that stands at offset `i`. -/
def membersAt : (i : Nat) → (parts : List (Text × MemberText)) → List Member
  | _, [] => []
  | i, (gap, m) :: parts => m.read (i + gap.length) :: membersAt (i + gap.length + m.text.length) parts

/-! ## Pieces of heads -/

/-- The characters that end the head of a member, and those that start an annotation or join two words. -/
def headMarks : Text := [';', '{', '=', '(', '@', '-']

def Unmarked (t : Text) : Prop := ∀ c ∈ t, c ∉ headMarks

theorem Unmarked.append {u} (ht : Unmarked t) (hu : Unmarked u) : Unmarked (t ++ u) :=
  fun c hc => (mem_append.1 hc).elim (ht c) (hu c)

theorem unmarked_of_all {p} (hp : headMarks.any p = false) (ht : t.all p = true) : Unmarked t := by
  intro c hc hmem
  have := any_eq_false.1 hp c hmem
  exact this (all_eq_true.1 ht c hc)

theorem unmarked_of_word {w} (h : w.all isWord = true) : Unmarked w := unmarked_of_all (by decide) h

theorem unmarked_of_blank (h : isAllBlank g = true) : Unmarked g := unmarked_of_all (p := isBlank) (by decide) h

theorem IsTypeText.unmarked {isList} (h : IsTypeText isList t) : Unmarked t := by
  intro c hc hmem
  have hmarks : ∀ d ∈ headMarks, isWord d = false ∧ d ∉ ".<>[],? ".toList := by
    simpa using (by decide : headMarks.all (fun d => !isWord d && !".<>[],? ".toList.contains d) = true)
  obtain ⟨hword, hmark⟩ := hmarks c hmem
  rcases h.mem c hc with h | h
  · rw [hword] at h
    cases h
  · exact hmark h

theorem undivided_of_blank (least : Int) (h : isAllBlank g = true) : Undivided least g := by
  induction g with
  | nil => exact .nil least
  | cons c g ih =>
    rw [isAllBlank, all_cons, Bool.and_eq_true] at h
    have hmarks : ∀ d ∈ ",<>()\x7b\x7d[]".toList, isBlank d = false := by
      simpa using (by decide : ",<>()\x7b\x7d[]".toList.all (!isBlank ·) = true)
    have hnot : c ∉ ",<>()\x7b\x7d[]".toList := by
      intro hmem
      rw [hmarks c hmem] at h
      cases h.1
    refine .cons (bracketStep_eq_zero fun hmem => hnot (mem_cons_of_mem _ hmem)) (fun hcomma => ?_) (ih h.2)
    exact absurd (mem_cons.2 (.inl hcomma)) hnot

theorem head?_append_of_ne_nil (h : t ≠ []) (u : Text) : (t ++ u).head? = t.head? := by
  cases t with
  | nil => exact absurd rfl h
  | cons c t => rfl

/-! ## Declarators -/

namespace Declarator

variable {d : Declarator} (h : d.Fits)
include h

theorem Fits.front : endsInWord (d.type ++ d.gap) = false := by
  by_cases hgap : d.gap = []
  · rw [hgap, append_nil]
    cases hend : endsInWord d.type with
    | false => rfl
    | true => exact absurd hgap (h.apart hend)
  · rw [endsInWord_append hgap, endsInWord_of_blank h.gap]

theorem Fits.wordFree : WordFree reservedWords d.text := by
  have hgap : WordFree reservedWords (d.type ++ d.gap) :=
    h.type.wordFree.append (wordFree_of_blank h.gap) fun _ => wordEnds_of_blank h.gap
  have hname := hgap.append (wordFree_of_isIdentifier h.name) fun hend => absurd (h.front.symm.trans hend) (by decide)
  exact hname.append (wordFree_of_blank h.behind) fun _ => wordEnds_of_blank h.behind

theorem Fits.unmarked : Unmarked d.text := ((h.type.unmarked.append (unmarked_of_blank h.gap)).append
    (unmarked_of_word (all_isWord_of_isIdentifier h.name))).append (unmarked_of_blank h.behind)

theorem Fits.undivided : Undivided 0 d.text := ((h.type.undivided.append (undivided_of_blank 0 h.gap)).append
    (IsTypeText.undivided_of_word 0 (all_isWord_of_isIdentifier h.name))).append (undivided_of_blank 0 h.behind)

theorem Fits.wellBracketed : WellBracketed d.text :=
  ((h.type.wellBracketed.append (wellBracketed_of_blank h.gap)).append
    (wellBracketed_of_word (all_isWord_of_isIdentifier h.name))).append (wellBracketed_of_blank h.behind)

theorem Fits.head? (u : Text) : (d.text ++ u).head? = d.type.head? := by
  rw [text, append_assoc, append_assoc, append_assoc, head?_append_of_ne_nil h.type.ne_nil]

theorem Fits.exists_word (u : Text) : ∃ w rest, d.type ++ d.gap ++ u = w ++ rest ∧ isIdentifier w = true ∧
    nameEnds rest = true := by
  obtain ⟨w, rest, htype, hw, hends⟩ := h.type.exists_word rfl
  refine ⟨w, rest ++ (d.gap ++ u), by rw [htype, append_assoc, append_assoc], hw, ?_⟩
  cases rest with
  | cons c rest => exact hends
  | nil =>
    rw [append_nil] at htype
    have hgap : d.gap ≠ [] :=
      h.apart (htype ▸ endsInWord_of_word (ne_nil_of_isIdentifier hw) (all_isWord_of_isIdentifier hw))
    cases hg : d.gap with
    | nil => exact absurd hg hgap
    | cons c g =>
      have hc : isBlank c = true := all_eq_true.1 h.gap c (by rw [hg]; simp)
      simp [nameEnds, isNamePart_of_isBlank hc]

theorem Fits.lastWord? (lead : Text) {g} (hg : isAllBlank g = true) :
    lastWord? (lead ++ (d.type ++ d.gap ++ d.name) ++ g) = some (lead ++ (d.type ++ d.gap), d.name, 0) := by
  have hfront : endsInWord (lead ++ (d.type ++ d.gap)) = false := by
    rw [endsInWord_append (by simp [h.type.ne_nil]), h.front]
  rw [← append_assoc lead, lastWord?_of_word hfront (ne_nil_of_isIdentifier h.name)
    (all_isWord_of_isIdentifier h.name) hg]

end Declarator

/-! ## Modifiers -/

theorem modifiersText_cons (m : Text × Text) (ms : List (Text × Text)) :
    modifiersText (m :: ms) = m.1 ++ (m.2 ++ modifiersText ms) := by
  simp [modifiersText]

theorem modifiersText_cons_append (m : Text × Text) (ms : List (Text × Text)) (t : Text) :
    modifiersText (m :: ms) ++ t = m.1 ++ (m.2 ++ (modifiersText ms ++ t)) := by
  simp [modifiersText]

theorem modifier_word : ∀ w ∈ modifierWords, w ≠ "non-sealed" → w ≠ [] ∧ isName w = true ∧ w.all isWord = true ∧
    w ∉ typeWords := by
  decide +kernel

section Modifiers

variable {ms : List (Text × Text)} (h : ModifiersFit ms)
include h

theorem ModifiersFit.wordFree : WordFree typeWords (modifiersText ms) := by
  induction ms with
  | nil => exact .nil
  | cons m ms ih =>
    obtain ⟨hword, hsealed, hblank, hgap⟩ := h m (by simp)
    obtain ⟨hne, -, hall, hfree⟩ := modifier_word m.1 hword hsealed
    rw [modifiersText_cons]
    exact .word hne hall hfree (wordEnds_append (wordEnds_of_blank hblank) hgap _)
      ((wordFree_of_blank hblank).append (ih (forall_mem_cons.1 h).2) fun hend =>
        absurd ((endsInWord_of_blank hblank).symm.trans hend) (by decide))

theorem ModifiersFit.getLast? : ∀ c, (modifiersText ms).getLast? = some c → isBlank c = true := by
  induction ms with
  | nil => simp [modifiersText]
  | cons m ms ih =>
    intro c hc
    obtain ⟨-, -, hblank, hgap⟩ := h m (by simp)
    rw [modifiersText_cons, getLast?_append, getLast?_append] at hc
    cases hlast : (modifiersText ms).getLast? with
    | some e =>
      rw [hlast, some_or, some_or] at hc
      exact ih (forall_mem_cons.1 h).2 c (hlast.trans hc)
    | none =>
      rw [hlast, none_or, getLast?_eq_getLast_of_ne_nil hgap, some_or] at hc
      exact all_eq_true.1 hblank c (some.inj hc ▸ getLast_mem hgap)

theorem ModifiersFit.endsInWord : endsInWord (modifiersText ms) = false := by
  cases hlast : (modifiersText ms).getLast? with
  | none => simp [Java.endsInWord, hlast]
  | some c => simp [Java.endsInWord, hlast, isWord_of_isBlank (h.getLast? c hlast)]

theorem ModifiersFit.pieces {P : Text → Prop} (hnil : P []) (happend : ∀ {t u}, P t → P u → P (t ++ u))
    (hword : ∀ {w}, w.all isWord = true → P w) (hblank : ∀ {g}, isAllBlank g = true → P g) :
    P (modifiersText ms) := by
  induction ms with
  | nil => exact hnil
  | cons m ms ih =>
    obtain ⟨hmem, hsealed, hgap, -⟩ := h m (by simp)
    rw [modifiersText_cons]
    exact happend (hword (modifier_word m.1 hmem hsealed).2.2.1)
      (happend (hblank hgap) (ih (forall_mem_cons.1 h).2))

theorem ModifiersFit.unmarked : Unmarked (modifiersText ms) :=
  h.pieces (by simp [Unmarked]) Unmarked.append unmarked_of_word unmarked_of_blank

theorem ModifiersFit.undivided : Undivided 0 (modifiersText ms) :=
  h.pieces (.nil 0) Undivided.append (IsTypeText.undivided_of_word 0) (undivided_of_blank 0)

theorem ModifiersFit.wellBracketed : WellBracketed (modifiersText ms) :=
  h.pieces rfl WellBracketed.append wellBracketed_of_word wellBracketed_of_blank

theorem ModifiersFit.namesIn (t : Text) : namesIn (modifiersText ms ++ t) = ms.map (·.1) ++ namesIn t := by
  induction ms with
  | nil => rfl
  | cons m ms ih =>
    obtain ⟨hword, hsealed, hblank, hgap⟩ := h m (by simp)
    have hends : nameEnds (m.2 ++ (modifiersText ms ++ t)) = true := by
      cases hm : m.2 with
      | nil => exact absurd hm hgap
      | cons c g =>
        have hc : isBlank c = true := all_eq_true.1 hblank c (by rw [hm]; simp)
        simp [nameEnds, isNamePart_of_isBlank hc]
    rw [modifiersText_cons_append, namesIn_word (modifier_word m.1 hword hsealed).2.1 hends, namesIn_blanks hblank,
      ih (forall_mem_cons.1 h).2, map_cons, cons_append]

theorem ModifiersFit.head? (ht : ∀ c, t.head? = some c → isBlank c = false) :
    ∀ c, (modifiersText ms ++ t).head? = some c → isBlank c = false := by
  cases ms with
  | nil => exact ht
  | cons m ms =>
    intro c hc
    obtain ⟨hword, hsealed, -⟩ := h m (by simp)
    obtain ⟨hne, -, hall, -⟩ := modifier_word m.1 hword hsealed
    rw [modifiersText_cons_append, head?_append_of_ne_nil hne] at hc
    exact isBlank_of_isWord (all_eq_true.1 hall c (mem_of_mem_head? hc))

theorem ModifiersFit.dropModifiers {t} (ht : ∀ c, t.head? = some c → isBlank c = false) :
    dropModifiers (modifiersText ms ++ t) = dropModifiers t := by
  induction ms with
  | nil => rfl
  | cons m ms ih =>
    obtain ⟨hword, -, hblank, hgap⟩ := h m (by simp)
    have htail : ModifiersFit ms := (forall_mem_cons.1 h).2
    rw [modifiersText_cons_append, dropModifiers_modifier hword hblank hgap (htail.head? ht), ih htail]

end Modifiers

end Rebind.Java
