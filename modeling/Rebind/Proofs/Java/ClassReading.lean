/-
A class is read as it is written.

A `ClassText` is a class with its members and all the blanks between their parts, behind the package and import lines.
Reading its text gives one class with exactly these members, in order and where they stand (`readUnit_classText`). A
field gets more names than its own where its initializer has a comma as in `f(a > b, c)` (`readUnit_comparison`).
-/
import Rebind.Proofs.Java.MemberReading
import Rebind.Proofs.Java.Relocation

namespace Rebind.Java

open Java Text List

variable {m : MemberText} {u : Text}

variable {t : Text} {i stop : Nat}

/-! ## Bodies -/

theorem MemberText.span_read (m : MemberText) (i : Nat) : (m.read i).span = ⟨i, i + m.text.length⟩ := by
  obtain ⟨as, ms, core⟩ := m
  cases core <;> rfl

theorem MemberText.Fits.head? (h : m.Fits) : ∃ c, m.text.head? = some c ∧ (isWord c = true ∨ c = '@') := by
  obtain ⟨as, ms, core⟩ := m
  cases as with
  | nil =>
    obtain ⟨c, hc, hword⟩ := head?_code h.modifiers h.core
    exact ⟨c, hc, .inl hword⟩
  | cons a as => exact ⟨'@', by simp [MemberText.text, annotationsText, AnnotationText.text], .inr rfl⟩

theorem membersFrom_of_stands {className last} (hlast : isAllBlank last = true) :
    ∀ {parts i}, (∀ p ∈ parts, isAllBlank p.1 = true ∧ p.2.Fits) →
    Stands t i (membersText parts last) → i + (membersText parts last).length = stop →
    membersFrom t t className stop i = .ok (membersAt i parts)
  | [], i, _, hat, hstop => by
    simp only [membersText] at hat hstop
    subst hstop
    rw [membersFrom]
    rw [skipBlanks_of_stands hat hlast (Nat.le_refl _) (.inl rfl), dif_neg (Nat.lt_irrefl _)]
    rfl
  | (gap, m) :: parts, i, hparts, hat, hstop => by
    obtain ⟨hgap, hm⟩ : isAllBlank gap = true ∧ m.Fits := hparts (gap, m) (by simp)
    obtain ⟨hatgap, hatm, hatrest⟩ := hat.split
    obtain ⟨c, hc, hcode⟩ := hm.head?
    obtain ⟨rest, hrest⟩ : ∃ rest, m.text = c :: rest := head?_eq_some_iff.1 hc
    have hfirst : t[i + gap.length]? = some c := (stands_cons.1 (hrest ▸ hatm)).1
    have hpos : 0 < m.text.length := by rw [hrest]; simp
    have hsolid : isBlank c = false ∧ c ≠ ';' := by
      rcases hcode with hword | rfl
      · refine ⟨isBlank_of_isWord hword, ?_⟩
        rintro rfl
        exact absurd hword (by decide)
      · decide
    simp only [membersText, length_append, ← Nat.add_assoc] at hstop hatrest
    have ih := @membersFrom_of_stands className last hlast parts _ (forall_mem_cons.1 hparts).2 hatrest hstop
    have hread : memberAt t t className stop (i + gap.length) = .ok (m.read (i + gap.length)) :=
      memberAt_of_stands hm hatm (by omega)
    rw [membersFrom]
    rw [skipBlanks_of_stands hatgap hgap (by omega) (.inr ⟨c, hfirst, hsolid.1⟩), dif_pos (by omega), hfirst,
      if_neg (by simpa using hsolid.2), hread]
    simp only [bind, Except.bind, MemberText.span_read]
    rw [dif_pos (by omega), ih]
    rfl

theorem wellBracketed_of_dotted (h : u.all isDotted = true) : WellBracketed u :=
  wellBracketed_of_forall fun c hc => not_isBracket_of_class (p := isDotted) (by decide) (all_eq_true.1 h c hc)

theorem wellBracketed_enclosed {opener closer} (hu : WellBracketed u)
    (hkind : closerOf? opener = some closer) : WellBracketed (opener :: (u ++ [closer])) :=
  Enclosed.wellBracketed ⟨u, hu, rfl⟩ hkind

theorem AnnotationText.Fits.wellBracketed {a : AnnotationText} (h : a.Fits) : WellBracketed a.text := by
  refine IsTypeText.wellBracketed_cons (by decide) ((wellBracketed_of_blank h.gap).append
    ((wellBracketed_of_dotted h.dotted).append ?_))
  cases hargs : a.args with
  | none => simp [AnnotationText.argsText, hargs, WellBracketed, owedAfter]
  | some p =>
    obtain ⟨hblank, hinside⟩ := h.args p hargs
    rw [AnnotationText.argsText, hargs]
    exact (wellBracketed_of_blank hblank).append (wellBracketed_enclosed hinside rfl)

theorem AnnotationsFit.wellBracketed : ∀ {as : List (AnnotationText × Text)}, AnnotationsFit as →
    WellBracketed (annotationsText as)
  | [], _ => rfl
  | (a, g) :: as, h => by
    obtain ⟨ha, hg⟩ := h.each (a, g) (by simp)
    rw [annotationsText_cons]
    exact ha.wellBracketed.append ((wellBracketed_of_blank hg).append h.tail.wellBracketed)

theorem CoreText.Fits.wellBracketed {core : CoreText} (h : core.Fits) : WellBracketed core.text := by
  cases core with
  | field d init =>
    obtain ⟨hd, hinit⟩ := h
    refine (hd.wellBracketed.append ?_).append (by decide)
    cases init with
    | none => exact rfl
    | some u => exact IsTypeText.wellBracketed_cons (by decide) (hinit u rfl).nests
  | method d ps blank behind body =>
    obtain ⟨hd, hps, hblank, hbehind, hbody⟩ := h
    refine ((hd.wellBracketed.append (wellBracketed_enclosed (wellBracketed_parameters hps hblank) rfl)).append
      (wellBracketed_of_blank hbehind)).append ?_
    cases body with
    | none => decide
    | some b => exact wellBracketed_enclosed (hbody b rfl) rfl
  | nested kind gap name behind body =>
    obtain ⟨hgap, hname, hbehind, hbody⟩ := h
    exact ((((wellBracketed_of_word (all_isWord_keyword kind)).append (wellBracketed_of_blank hgap.1)).append
      (wellBracketed_of_word (all_isWord_of_isIdentifier hname))).append (wellBracketed_of_blank hbehind)).append
      (wellBracketed_enclosed hbody rfl)

theorem wellBracketed_members {last} (hlast : isAllBlank last = true) : ∀ {parts},
    (∀ p ∈ parts, isAllBlank p.1 = true ∧ p.2.Fits) → WellBracketed (membersText parts last)
  | [], _ => wellBracketed_of_blank hlast
  | (gap, m) :: parts, h => by
    obtain ⟨hgap, hm⟩ : isAllBlank gap = true ∧ m.Fits := h (gap, m) (by simp)
    exact ((wellBracketed_of_blank hgap).append (hm.annotations.wellBracketed.append
      (hm.modifiers.wellBracketed.append hm.core.wellBracketed))).append
        (wellBracketed_members hlast (forall_mem_cons.1 h).2)

/-! ## Commas of initializers -/

/-- The brackets, angle brackets included, that a text opens more than it closes. -/
def depthAfter (u : Text) : Int := (u.map (bracketStep ('<' :: openers) ('>' :: closers))).sum

/-- No comma of the text stands where as many brackets, angle brackets included, were closed as opened. -/
def CommasInside (u : Text) : Prop := ∀ a b, u = a ++ ',' :: b → depthAfter a ≠ 0

theorem commasInside_iff : CommasInside u ↔ ∀ k < u.length, u[k]? = some ',' → depthAfter (u.take k) ≠ 0 := by
  constructor
  · intro h k hk hc
    refine h (u.take k) (u.drop (k + 1)) ?_
    rw [getElem?_eq_getElem hk, Option.some.injEq] at hc
    rw [← hc, ← drop_eq_getElem_cons hk, take_append_drop]
  · rintro h a b rfl
    have hdepth := h a.length (by simp) (by simp)
    rwa [take_left] at hdepth

instance (u : Text) : Decidable (CommasInside u) := decidable_of_iff _ commasInside_iff.symm

theorem declaratorsFrom_of_inside {depth} (h : ∀ a b, u = a ++ ',' :: b → depth + depthAfter a ≠ 0) :
    declaratorsFrom depth u = [u] := by
  have := @splitOutside_append ('<' :: openers) ('>' :: closers) ',' [] u depth h
  rwa [append_nil, splitOutside, modifyHead_cons, append_nil] at this

theorem strayNames_of_commasInside (h : CommasInside u) : strayNames u = [] := by
  rw [strayNames, splitDeclarators_eq, declaratorsFrom_of_inside fun a b hab => by simpa using h a b hab]
  rfl

/-- The initializers of the fields among some members. -/
def initializers (parts : List (Text × MemberText)) : List Text := parts.filterMap (·.2.core.init?)

theorem MemberText.moreNames_read {i f} (h : m.read i = .field f) :
    f.moreNames = m.core.init?.elim [] strayNames := by
  obtain ⟨as, ms, core⟩ := m
  cases core with
  | field d init => exact Member.field.inj h ▸ rfl
  | method | nested => cases h

theorem moreNames_eq_nil : ∀ {parts i f},
    (∀ init ∈ initializers parts, CommasInside init) → .field f ∈ membersAt i parts → f.moreNames = []
  | [], _, _, _, hf => by simp [membersAt] at hf
  | (gap, m) :: parts, i, f, hinside, hf => by
    rcases mem_cons.1 hf with hread | hf
    · rw [MemberText.moreNames_read hread.symm]
      cases hinit : m.core.init? with
      | none => rfl
      | some init => exact strayNames_of_commasInside (hinside init (by simp [initializers, hinit]))
    · refine moreNames_eq_nil (fun init hinit => hinside init ?_) hf
      obtain ⟨p, hp, hpinit⟩ := mem_filterMap.1 hinit
      exact mem_filterMap.2 ⟨p, mem_cons_of_mem _ hp, hpinit⟩

/-! ## Texts without comments and literals -/

/-- The text has no quotes, and no slash that starts a comment. -/
def isBare : Text → Bool
  | [] => true
  | c :: t => c != '"' && c != '\'' && !(c == '/' && t.head?.any fun d => d == '/' || d == '*') && isBare t

theorem mask_of_isBare : ∀ {t}, isBare t = true → mask t = t
  | [], _ => mask_nil
  | c :: t, h => by
    simp only [isBare, Bool.and_eq_true, bne_iff_ne, Bool.not_eq_true'] at h
    obtain ⟨⟨⟨hquote, hquote'⟩, hslash⟩, ht⟩ := h
    have hcode : lexemeAt c t = (.code c, t) := by
      refine lexemeAt_code hquote hquote' ?_
      rintro rfl
      constructor <;> intro hnext <;> simp [hnext] at hslash
    rw [mask_cons, hcode, mask_of_isBare ht]
    rfl

/-! ## Classes -/

/-- A class behind the head of a file: what stands in front of the word `class`, the name and what follows it up to
the brace, and the members. -/
structure ClassText where
  front : Text
  lead : Text
  gap : Text
  name : Text
  head : Text
  parts : List (Text × MemberText)
  last : Text
  rest : Text

namespace ClassText

def upToName (c : ClassText) : Text := c.front ++ (c.lead ++ ("class" ++ (c.gap ++ c.name)))

def body (c : ClassText) : Text := '{' :: (membersText c.parts c.last ++ ['}'])

def text (c : ClassText) : Text := c.upToName ++ (c.head ++ (c.body ++ c.rest))

def opening (c : ClassText) : Nat := c.upToName.length + c.head.length

structure Fits (c : ClassText) : Prop where
  front : headStop c.text = c.front.length
  lead : WordFree typeWords c.lead ∧ endsInWord c.lead = false
  gap : isAllBlank c.gap = true ∧ c.gap ≠ []
  name : isIdentifier c.name = true
  head : '{' ∉ c.head ∧ wordEnds c.head = true
  parts : ∀ p ∈ c.parts, isAllBlank p.1 = true ∧ p.2.Fits
  last : isAllBlank c.last = true
  rest : WordFree typeWords c.rest
  bare : isBare c.text = true

def declaration (c : ClassText) : Text := "class" ++ (c.gap ++ (c.name ++ (c.head ++ (c.body ++ c.rest))))

theorem text_eq (c : ClassText) : c.text = c.front ++ (c.lead ++ c.declaration) := by
  simp [text, upToName, declaration]

theorem stands_head (c : ClassText) : Stands c.text c.upToName.length (c.head ++ ['{']) :=
  ⟨membersText c.parts c.last ++ ['}'] ++ c.rest, by rw [text, drop_left]; simp [body]⟩

theorem stands_body (c : ClassText) : Stands c.text c.opening c.body :=
  ⟨c.rest, by rw [text, opening, ← append_assoc, ← length_append, drop_left]⟩

variable {c : ClassText} (h : c.Fits)
include h

theorem Fits.typeHead? : typeHead? c.declaration = some ((.classType, c.name), c.head ++ (c.body ++ c.rest)) := by
  have hends : wordEnds (c.head ++ (c.body ++ c.rest)) = true := by
    cases hhead : c.head with
    | nil => rfl
    | cons e u => exact wordEnds_append (hhead ▸ h.head.2) (by simp) _
  have hafter : after? TypeKind.classType.keyword c.declaration =
      some (c.gap ++ (c.name ++ (c.head ++ (c.body ++ c.rest)))) := after?_eq_some.2 rfl
  have hrun := run?_of_word (ne_nil_of_isIdentifier h.name) (all_isWord_of_isIdentifier h.name) (wordEnds_iff.1 hends)
  simp only [Java.typeHead?, TypeKind.all, findSome?_cons, hafter, bind, Option.bind,
    someBlanks?_eq_some h.gap.1 h.gap.2, dropBlanks_identifier h.name, hrun]

theorem Fits.search : search c.text c.front.length c.text.length Before.wordStart Java.typeHead? = some
      ⟨c.front.length + c.lead.length, c.upToName.length, (.classType, c.name)⟩ := by
  have hdrop : c.text.drop c.front.length = c.lead ++ c.declaration := by rw [text_eq, drop_left]
  have hbefore : Before.wordStart (c.lead.getLast?.or (charBefore c.text c.front.length)) = true := by
    cases hlast : c.lead.getLast? with
    | some e => simpa [endsInWord, hlast, Before.wordStart] using h.lead.2
    | none =>
      obtain ⟨hle, hword⟩ := headStop_spec c.text
      rw [Option.none_or, ← h.front, getLast?_charBefore hle, hword]
  have hstop : c.front.length + c.lead.length + (c.declaration.length - (c.head ++ (c.body ++ c.rest)).length) =
      c.upToName.length := by
    simp only [upToName, declaration, length_append]
    omega
  rw [Text.search, Text.slice, take_length, hdrop, searchFrom_of_wordFree wordwise_typeHead? h.lead.1 fun hend =>
    absurd (h.lead.2.symm.trans hend) (by decide), searchFrom_of_match hbefore h.typeHead?, hstop]

theorem Fits.typeAt : ∃ type, typeAt c.text c.text
      ⟨c.front.length + c.lead.length, c.upToName.length, (.classType, c.name)⟩ = .ok type ∧
    type.kind = .classType ∧ type.name = c.name ∧ type.body = ⟨c.opening, c.opening + c.body.length - 1⟩ ∧
    type.members = membersAt (c.opening + 1) c.parts := by
  have hbody : Enclosed '{' '}' c.body := ⟨_, wellBracketed_members h.last h.parts, rfl⟩
  have hstop : c.opening + 1 + (membersText c.parts c.last).length = c.opening + c.body.length - 1 := by
    simp only [body, length_cons, length_append, length_nil]
    omega
  have hmembers : membersFrom c.text c.text c.name (c.opening + c.body.length - 1) (c.opening + 1) =
      .ok (membersAt (c.opening + 1) c.parts) :=
    membersFrom_of_stands h.last h.parts (stands_append.1 (stands_cons.1 c.stands_body).2).1 hstop
  have hlt : c.upToName.length + c.head.length < c.text.length :=
    (List.getElem?_eq_some_iff.1 (hbody.getElem? c.stands_body)).1
  have hbrace : firstWithin? c.text c.upToName.length c.text.length (· == '{') = some c.opening := by
    refine firstWithin?_of_stands c.stands_head (fun e he => ?_) (by decide) hlt
    have hne : e ≠ '{' := by
      rintro rfl
      exact h.head.1 he
    simpa using hne
  rw [Java.typeAt]
  simp only [hbrace, partner_of_stands hbody rfl c.stands_body, bind, Except.bind, hmembers]
  exact ⟨_, rfl, rfl, rfl, rfl, rfl⟩

theorem Fits.typesFrom_rest : typesFrom c.text c.text (c.opening + c.body.length) = .ok [] := by
  have hrest : Text.slice c.text (c.opening + c.body.length) c.text.length = c.rest := by
    rw [Text.slice, take_length, text, ← append_assoc c.head, ← append_assoc, opening, Nat.add_assoc,
      ← length_append, ← length_append, drop_left]
  rw [typesFrom, Text.search, hrest, searchFrom_eq_none wordwise_typeHead? h.rest]

theorem Fits.typesFrom : ∃ type, typesFrom c.text c.text c.front.length = .ok [type] ∧ type.kind = .classType ∧
    type.name = c.name ∧ type.members = membersAt (c.opening + 1) c.parts := by
  obtain ⟨type, htype, hkind, hname, hbody, hmembers⟩ := h.typeAt
  refine ⟨type, ?_, hkind, hname, hmembers⟩
  have hopening : c.front.length ≤ c.opening := by
    simp only [opening, upToName, length_append]
    omega
  have hpos : 2 ≤ c.body.length := by simp [body]
  have hle := c.stands_body.le_length (by simp [body])
  have hclosing : type.body.closing + 1 = c.opening + c.body.length := by
    simp only [hbody]
    omega
  rw [Java.typesFrom, h.search]
  simp only [bind, Except.bind, htype]
  rw [dif_pos (by omega), hclosing, h.typesFrom_rest]
  rfl

end ClassText

/-- A class comes out of its text as it was written: one type, with its name and its members in order, each with its
annotations, modifiers, types, names, parameters and body where they stand. Fields have no other names than their own
where the commas of the initializers are inside of brackets, angle brackets counted as such. -/
theorem readUnit_classText {c : ClassText} (h : c.Fits) : ∃ unit type, readUnit c.text = .ok unit ∧
    unit.types = [type] ∧
    type.kind = .classType ∧ type.name = c.name ∧ type.members = membersAt (c.opening + 1) c.parts ∧
    ((∀ init ∈ initializers c.parts, CommasInside init) → ∀ f ∈ type.fields, f.moreNames = []) := by
  obtain ⟨type, htypes, hkind, hname, hmembers⟩ := h.typesFrom
  rw [readUnit_eq, mask_of_isBare h.bare, h.front, htypes]
  refine ⟨_, type, rfl, rfl, hkind, hname, hmembers, fun hinside f hf => ?_⟩
  have hmem := TypeDecl.mem_members_of_field hf
  rw [hmembers] at hmem
  exact moreNames_eq_nil hinside hmem

/-- A field of a generic type, with an annotation and an initializer. -/
def viewsField : MemberText where
  annotations := [(⟨"", "BindView", some ("", "R.id.t")⟩, " ")]
  modifiers := [("private", " ")]
  core := .field ⟨"Map<String, int[]>", " ", "t", " "⟩ (some " f(x, y)")

def showMethod : MemberText where
  annotations := []
  modifiers := [("static", " ")]
  core := .method ⟨"void", " ", "m", ""⟩
    [("", ⟨"int", " ", "a", ""⟩), (" ", ⟨"List<? extends B>", " ", "b", ""⟩)] "" " " (some " g(); ")

def innerClass : MemberText where
  annotations := []
  modifiers := []
  core := .nested .classType " " "D" " " " "

/-- A class with a field, a method and a nested type. -/
def viewsClass : ClassText where
  front := "import a.B;\n"
  lead := "public "
  gap := " "
  name := "A"
  head := " extends C "
  parts := [("\n  ", viewsField), ("\n  ", showMethod), ("\n  ", innerClass)]
  last := "\n"
  rest := "\n"

theorem isTypeText_map : IsTypeText false "Map<String, int[]>" := by
  have hargs : IsTypeText true ("String" ++ ',' :: ' ' :: ("int" ++ ['[', ']'])) :=
    .args (.arg (.word (by decide))) (.arg (.array (.word (by decide))))
  have heq : "Map<String, int[]>" =
      "Map" ++ '<' :: ("String" ++ ',' :: ' ' :: ("int" ++ ['[', ']']) ++ ['>']) := by decide
  rw [heq]
  exact .generic (.word (by decide)) hargs

theorem isTypeText_list : IsTypeText false "List<? extends B>" := by
  have hargs : IsTypeText true ('?' :: ' ' :: ("extends" ++ ' ' :: "B")) :=
    .bounded (by decide) (.word (by decide))
  have heq : "List<? extends B>" =
      "List" ++ '<' :: ('?' :: ' ' :: ("extends" ++ ' ' :: "B") ++ ['>']) := by decide
  rw [heq]
  exact .generic (.word (by decide)) hargs

theorem annotationsFit_nil : AnnotationsFit [] := ⟨by simp, by simp⟩

theorem declarator_fits {type gap name behind} (htype : IsTypeText false type)
    (hgap : isAllBlank gap = true ∧ gap ≠ []) (hname : isIdentifier name = true) (hbehind : isAllBlank behind = true) :
    (Declarator.mk type gap name behind).Fits :=
  ⟨htype, hgap.1, hname, hbehind, fun _ => hgap.2⟩

theorem viewsField_fits : viewsField.Fits where
  annotations := by
    refine ⟨fun p hp => ?_, fun p hp hargs => ?_⟩
    · obtain rfl := mem_singleton.1 hp
      refine ⟨⟨by decide, by decide, by decide, by decide, ?_⟩, by decide⟩
      rintro q ⟨⟩
      decide
    · obtain rfl : _ = p := Option.some.inj hp
      cases hargs
  modifiers := by
    intro m hm
    obtain rfl := mem_singleton.1 hm
    decide
  core := by
    refine ⟨declarator_fits isTypeText_map (by decide) (by decide) (by decide), ?_⟩
    rintro u ⟨⟩
    decide

theorem showMethod_fits : showMethod.Fits where
  annotations := annotationsFit_nil
  modifiers := by
    intro m hm
    obtain rfl := mem_singleton.1 hm
    decide
  core := by
    refine ⟨declarator_fits (.word (by decide)) (by decide) (by decide) (by decide), fun p hp => ?_, by decide,
      by decide, ?_⟩
    · rcases mem_cons.1 hp with rfl | hp
      · exact ⟨by decide, declarator_fits (.word (by decide)) (by decide) (by decide) (by decide)⟩
      · obtain rfl := mem_singleton.1 hp
        exact ⟨by decide, declarator_fits isTypeText_list (by decide) (by decide) (by decide)⟩
    · rintro b ⟨⟩
      decide

theorem innerClass_fits : innerClass.Fits where
  annotations := annotationsFit_nil
  modifiers m hm := absurd hm not_mem_nil
  core := ⟨by decide, by decide, by decide, by decide⟩

theorem wordFree_public : WordFree typeWords "public " :=
  (wordFree_of_word (by decide) (by decide) (by decide) : WordFree typeWords "public").append
    (wordFree_of_blank (g := " ") rfl) fun _ => rfl

theorem viewsClass_fits : viewsClass.Fits where
  front := by decide +kernel
  lead := ⟨wordFree_public, by decide⟩
  gap := by decide
  name := by decide
  head := by decide
  parts := by
    intro p hp
    rcases mem_cons.1 hp with rfl | hp
    · exact ⟨by decide, viewsField_fits⟩
    rcases mem_cons.1 hp with rfl | hp
    · exact ⟨by decide, showMethod_fits⟩
    obtain rfl := mem_singleton.1 hp
    exact ⟨by decide, innerClass_fits⟩
  last := by decide
  rest := wordFree_of_blank (by decide)
  bare := by decide +kernel

theorem readUnit_viewsClass : viewsClass.Fits ∧ ∃ unit type, readUnit viewsClass.text = .ok unit ∧ unit.types = [type] ∧
    type.kind = .classType ∧ type.name = "A" ∧ type.members = membersAt (viewsClass.opening + 1) viewsClass.parts ∧
    ∀ f ∈ type.fields, f.moreNames = [] := by
  obtain ⟨unit, type, hread, htypes, hkind, hname, hmembers, hnames⟩ := readUnit_classText viewsClass_fits
  exact ⟨viewsClass_fits, unit, type, hread, htypes, hkind, hname, hmembers, hnames (by decide)⟩

/-- A class with one field. Its initializer compares two numbers between the brackets of a call. -/
def comparisonClass : ClassText where
  front := ""
  lead := ""
  gap := " "
  name := "A"
  head := " "
  parts := [("\n ", {
    annotations := []
    modifiers := []
    core := .field ⟨"boolean", " ", "x", " "⟩ (some " f(a > b, c)") })]
  last := "\n"
  rest := "\n"

/-- The greater sign counts as a closing bracket, and what follows the comma is taken for a second name. -/
theorem readUnit_comparison : comparisonClass.text = "class A \x7b\n boolean x = f(a > b, c);\n\x7d\n".toList ∧
    ∃ unit type, readUnit comparisonClass.text = .ok unit ∧ unit.types = [type] ∧
      type.fields.map Field.names = [["x".toList, "c".toList]] := by
  have hfound : ∃ unit ∈ (readUnit comparisonClass.text).toOption, ∃ type ∈ unit.types, unit.types = [type] ∧
      type.fields.map Field.names = [["x".toList, "c".toList]] := by decide +kernel
  obtain ⟨unit, hread, type, -, htypes, hnames⟩ := hfound
  exact ⟨by decide +kernel, unit, type, toOption_eq_some.1 hread, htypes, hnames⟩

end Rebind.Java
