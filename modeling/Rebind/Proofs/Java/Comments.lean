/-
Comments are blanks to the reader, except in the arguments of annotations: only these and the indentation are cut out of
the text itself.
-/
import Rebind.Proofs.Java.Relocation

namespace Rebind.Java

open Text List

/-! ## Blanking comments -/

def Lexeme.uncommented : Lexeme → Text
  | comment body => blanked body
  | l => l.text

/-- The text with its comments blanked, line breaks kept. -/
def withoutComments (t : Text) : Text := (lexemes t).flatMap Lexeme.uncommented

/-- What is read in the place of a lexeme once comments are blanked. -/
def Lexeme.spread : Lexeme → List Lexeme
  | comment body => (blanked body).map code
  | l => [l]

theorem Lexeme.flatMap_text_spread (l : Lexeme) : l.spread.flatMap text = l.uncommented := by
  cases l with
  | comment body => simp only [spread, uncommented, flatMap_map, text, flatMap_singleton']
  | code c | literal opening body closing => simp [spread, uncommented]

theorem Lexeme.flatMap_masked_spread (l : Lexeme) : l.spread.flatMap masked = l.masked := by
  cases l with
  | comment body => simp only [spread, masked, flatMap_map, flatMap_singleton']
  | code c | literal opening body closing => simp [spread]

theorem flatMap_text_spread (ls : List Lexeme) :
    (ls.flatMap Lexeme.spread).flatMap Lexeme.text = ls.flatMap Lexeme.uncommented := by
  simp only [flatMap_assoc, Lexeme.flatMap_text_spread]

theorem Lexeme.length_uncommented (l : Lexeme) : l.uncommented.length = l.text.length := by
  cases l <;> simp [uncommented, text, blanked]

theorem partsAll_code_append {ls v} (h : PartsAll ls v) :
    ∀ {u : Text}, (∀ c ∈ u, isBlank c = true) → PartsAll (u.map Lexeme.code ++ ls) v
  | [], _ => h
  | c :: u, hu => by
    refine ⟨⟨c, [], rfl, ?_⟩, partsAll_code_append h (forall_mem_cons.1 hu).2⟩
    have hblank := hu c mem_cons_self
    exact lexemeAt_code (by rintro rfl; cases hblank) (by rintro rfl; cases hblank) (by rintro rfl; cases hblank)

theorem Lexeme.Meets.uncommented {l : Lexeme} (hl : l.isLineComment = false) {ls v}
    (hparts : PartsAll ls v) (h : l.Meets (ls.flatMap Lexeme.text ++ v).head?) :
    l.Meets (ls.flatMap Lexeme.uncommented ++ v).head? := by
  cases ls with
  | nil => exact h
  | cons l' ls =>
    obtain ⟨c, u, htext, -⟩ := hparts.1
    cases l' with
    | comment body =>
      obtain rfl : body = c :: u := htext
      have hblank : (if c == '\n' then c else ' ') = '\n' ∨ (if c == '\n' then c else ' ') = ' ' := by
        split
        · next hc => exact .inl (beq_iff_eq.1 hc)
        · exact .inr rfl
      have hhead : ((Lexeme.comment (c :: u) :: ls).flatMap Lexeme.uncommented ++ v).head? =
          some (if c == '\n' then c else ' ') := rfl
      rw [hhead]
      refine ⟨fun _ => ?_, fun hline => absurd hline (by simp [hl]), fun _ => ?_⟩ <;>
        rcases hblank with hblank | hblank <;> rw [hblank] <;> decide
    | code d => exact h
    | literal opening body closing =>
      have hhead : ∀ w, (opening ++ body ++ closing ++ w).head? = some c := fun w => by
        rw [show opening ++ body ++ closing = c :: u from htext]
        rfl
      simp only [flatMap_cons, Lexeme.text, Lexeme.uncommented, append_assoc] at h hhead ⊢
      rwa [hhead] at h ⊢

theorem PartsAll.spread : ∀ {ls : List Lexeme} {v}, PartsAll ls v → PartsAll (ls.flatMap Lexeme.spread) v
  | [], _, _ => trivial
  | l :: ls, v, h => by
    have ih := PartsAll.spread h.2
    have hswap : l.isLineComment = false → PartsAll (l :: ls.flatMap Lexeme.spread) v := by
      intro hl
      refine ⟨h.1.swap (fun hnil => ?_) ?_, ih⟩
      · rw [append_eq_nil_iff] at hnil ⊢
        refine ⟨?_, hnil.2⟩
        rw [flatMap_text_spread]
        refine flatMap_eq_nil_iff.2 fun x hx => length_eq_zero_iff.1 ?_
        rw [x.length_uncommented, flatMap_eq_nil_iff.1 hnil.1 x hx, length_nil]
      · rw [flatMap_text_spread]
        exact h.1.meets.uncommented hl h.2
    cases l with
    | comment body => exact partsAll_code_append ih fun c hc => isBlank_of_mem_blanked hc
    | code c | literal opening body closing => exact hswap rfl

theorem lexemes_withoutComments (t : Text) : lexemes (withoutComments t) = (lexemes t).flatMap Lexeme.spread := by
  have hparts : PartsAll (lexemes t) [] := partsAll_of_lexemes (t := t) (by simp)
  have h := lexemes_of_partsAll hparts.spread
  rwa [flatMap_text_spread, append_nil, lexemes_nil, append_nil] at h

/-- With its comments blanked a text keeps its mask. -/
@[simp] theorem mask_withoutComments (t : Text) : mask (withoutComments t) = mask t := by
  rw [mask, lexemes_withoutComments, flatMap_assoc]
  simp only [Lexeme.flatMap_masked_spread]
  rfl

/-! ## Cutting out anew -/

/-- The annotation with its arguments cut out of another text. -/
def Annotation.over (text : Text) (a : Annotation) : Annotation :=
  { a with args := a.args.map fun args => slice text (a.span.stop - 1 - args.length) (a.span.stop - 1) }

def Field.over (text : Text) (f : Field) : Field := { f with annotations := f.annotations.map (·.over text) }

def Method.over (text : Text) (m : Method) : Method := { m with annotations := m.annotations.map (·.over text) }

/-- The member with the arguments of its annotations cut out of another text. -/
def Member.over (text : Text) : Member → Member
  | field f => field (f.over text)
  | method m => method (m.over text)
  | m => m

@[simp] theorem Member.span_over (text : Text) (m : Member) : (m.over text).span = m.span := by
  cases m <;> rfl

/-- The type with the arguments of its annotations and the indentation of its members taken from another text. -/
def TypeDecl.over (text : Text) (s : TypeDecl) : TypeDecl :=
  let indent := indentBefore text s.start [] ++ "    "
  { s with
    memberIndent :=
      match s.members with
      | [] => indent
      | first :: _ => indentBefore text first.span.start indent
    members := s.members.map (·.over text) }

def CompilationUnit.over (text : Text) (u : CompilationUnit) : CompilationUnit :=
  { u with text := text, types := u.types.map (·.over text) }

theorem bind_over {α α' β β' : Type} {x x' f}
    {g : α → Except ReadError β} {g' : α' → Except ReadError β'} {h} (hx : x' = x.map f)
    (hg : ∀ a, g' (f a) = (g a).map h) : (x' >>= g') = (x >>= g).map h := by
  subst hx
  cases x with
  | error e => rfl
  | ok a => exact hg a

section Over

variable {t m : Text} (ht : t.length = m.length) (t' : Text)

include ht

theorem annotationAt_over (i : Nat) : annotationAt t' m i = (annotationAt t m i).map (·.over t') := by
  rw [annotationAt, annotationAt]
  split
  · rfl
  · next name rest _ =>
    simp only
    generalize skipBlanks m (m.length - rest.length) m.length = j
    split
    · cases hclose : partner m j with
      | error e => rfl
      | ok close =>
        obtain ⟨hlt, hle⟩ := partner_lt_length hclose
        have hstart : close - (slice t (j + 1) close).length = j + 1 := by
          rw [length_slice, Nat.min_eq_left (by omega)]
          omega
        show Except.ok _ = Except.ok _
        simp only [ Annotation.over, Option.map_some, Nat.add_sub_cancel, hstart]
    · rfl

theorem annotationsFrom_over (stop i : Nat) : annotationsFrom t' m stop i =
    (annotationsFrom t m stop i).map fun x => (x.1.map (·.over t'), x.2) := by
  have hle := le_skipBlanks m i stop
  rw [annotationsFrom.eq_def t', annotationsFrom.eq_def t]
  simp only
  split
  · split
    · refine bind_over (annotationAt_over ht t' _) fun a => ?_
      show (if _ : skipBlanks m i stop < a.span.stop then _ else _) = Except.map _ (if _ : _ then _ else _)
      split
      · exact bind_over (annotationsFrom_over stop a.span.stop) fun x => rfl
      · rfl
    · rfl
  · rfl
termination_by stop - i

omit ht in
theorem fieldOf?_over (declaration : Text) (as : List Annotation) (span : Span) :
    fieldOf? declaration (as.map (·.over t')) span = (fieldOf? declaration as span).map (·.over t') := by
  simp only [fieldOf?]
  cases lastWord? (strip (((splitDeclarators declaration).map (·.takeWhile (· != '='))).headD [])) with
  | none => rfl
  | some word =>
    split <;> rfl

omit ht in
theorem methodAt_over (className : Text) (stop start i paren : Nat) (as : List Annotation) :
    methodAt m className stop start i paren (as.map (·.over t')) =
      (methodAt m className stop start i paren as).map (·.over t') := by
  simp only [methodAt]
  cases partner m paren with
  | error e => rfl
  | ok close =>
    simp only [bind, Except.bind]
    split
    · split
      · rfl
      · split
        · split <;> rfl
        · rfl
    · rfl

theorem memberAt_over (className : Text) (stop start : Nat) :
    memberAt t' m className stop start = (memberAt t m className stop start).map (·.over t') := by
  refine bind_over (annotationsFrom_over ht t' stop start) fun x => ?_
  obtain ⟨as, i⟩ := x
  simp only
  split
  · rfl
  · split
    · split
      · rfl
      · next brace _ =>
        cases partner m brace with
        | error e => rfl
        | ok close =>
          split <;> rfl
    · split
      · exact bind_over (methodAt_over t' className stop start i _ as) fun _ => rfl
      · cases declarationEnd m i stop with
        | error e => rfl
        | ok last =>
          simp only [bind, Except.bind, fieldOf?_over]
          cases fieldOf? (slice m i (last - 1)) as ⟨start, last⟩ <;> rfl

theorem membersFrom_over (className : Text) (stop i : Nat) : membersFrom t' m className stop i =
    (membersFrom t m className stop i).map (List.map (·.over t')) := by
  have hle := le_skipBlanks m i stop
  rw [membersFrom.eq_def t', membersFrom.eq_def t]
  simp only
  split
  · split
    · exact membersFrom_over className stop (skipBlanks m i stop + 1)
    · refine bind_over (memberAt_over ht t' className stop _) fun x => ?_
      simp only [Member.span_over]
      split
      · exact bind_over (membersFrom_over className stop x.span.stop) fun _ => rfl
      · rfl
  · rfl
termination_by stop - i

theorem typeAt_over (head : Match (TypeKind × Text)) : typeAt t' m head = (typeAt t m head).map (·.over t') := by
  obtain ⟨start, stop, kind, name⟩ := head
  simp only [typeAt]
  split
  · rfl
  · next brace _ =>
    cases partner m brace with
    | error e => rfl
    | ok close =>
      simp only [bind, Except.bind]
      cases kind with
      | classType =>
        simp only [membersFrom_over ht t']
        cases membersFrom t m name close (brace + 1) with
        | error e => rfl
        | ok members => cases members <;> simp [Except.map, pure, Except.pure, TypeDecl.over]
      | interfaceType | enumType | recordType => rfl

theorem typesFrom_over (pos : Nat) : typesFrom t' m pos = (typesFrom t m pos).map (List.map (·.over t')) := by
  rw [typesFrom.eq_def t', typesFrom.eq_def t]
  split
  · rfl
  · refine bind_over (typeAt_over ht t' _) fun s => ?_
    show (if _ : pos < s.body.closing + 1 ∧ pos < m.length then _ else _) = Except.map _ (if _ : _ then _ else _)
    split
    · exact bind_over (typesFrom_over (s.body.closing + 1)) fun _ => rfl
    · rfl
termination_by m.length - pos

end Over

/-- The text without comments is read as the text is, with all that is cut out of it cut out anew. -/
theorem readUnit_withoutComments (t : Text) :
    readUnit (withoutComments t) = (readUnit t).map (·.over (withoutComments t)) := by
  rw [readUnit_eq, readUnit_eq, mask_withoutComments, typesFrom_over (length_mask t).symm]
  cases typesFrom t (mask t) (headStop (mask t)) <;> rfl

end Rebind.Java
