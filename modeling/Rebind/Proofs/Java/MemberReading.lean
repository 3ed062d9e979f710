/-
Members are read as they are written.

Where a written member stands in a text, its annotations (`annotationsFrom_of_stands`) and the field or method it
declares (`fieldOf?_of_text`, `methodAt_of_stands`) come out of the reader, and so do bodies of members
(`membersFrom_of_stands`).
-/
import Rebind.Proofs.Java.MemberGrammar

namespace Rebind.Java

open Text List Option Except

variable {c : Char} {a : AnnotationText} {rest g u behind blank name gap : Text} {d : Declarator} {body : Option Text}
    {start last : Nat}

variable {t : Text} {i stop : Nat}

/-! ## Annotations -/

theorem takeWhile_append_of_ends {p rest} (h : ∀ c, rest.head? = some c → p c = false) :
    ∀ u : Text, (u ++ rest).takeWhile p = u.takeWhile p
  | [] => @takeWhile_word p [] rest rfl h
  | c :: u => by
    rw [cons_append, takeWhile_cons, takeWhile_cons, takeWhile_append_of_ends h u]

theorem isBlank_of_isLead (h : isLead c = true) : isBlank c = false := isBlank_of_isWord (isWord_of_isLead h)

section Name

variable {gap name rest : Text} (hgap : isAllBlank gap = true) (hlead : name.head?.any isLead = true)
include hgap hlead

theorem dropBlanks_name : dropBlanks (gap ++ (name ++ rest)) = name ++ rest := by
  rw [dropBlanks_blanks hgap]
  refine dropBlanks_of_head fun c hc => ?_
  cases name with
  | nil => simp at hlead
  | cons d name =>
    obtain rfl : d = c := by simpa using hc
    exact isBlank_of_isLead (by simpa using hlead)

theorem annotationName?_of_name (hdotted : name.all isDotted = true)
    (hrest : ∀ c, rest.head? = some c → isDotted c = false) :
    annotationName? ('@' :: (gap ++ (name ++ rest))) = some (name, rest) := by
  have hafter : after? "@" ('@' :: (gap ++ (name ++ rest))) = some (gap ++ (name ++ rest)) := after?_eq_some.2 rfl
  simp only [annotationName?, hafter, bind, Option.bind, dropBlanks_name hgap hlead]
  cases name with
  | nil => simp at hlead
  | cons c name =>
    have hc : (isAsciiLetter c || c == '_') = true := by simpa [isLead] using hlead
    have hname : name.all isDotted = true := by
      rw [all_cons, Bool.and_eq_true] at hdotted
      exact hdotted.2
    have hdrop : (name ++ rest).dropWhile isDotted = rest := by
      rw [dropWhile_append_of_pos (all_eq_true.1 hname)]
      cases rest with
      | nil => rfl
      | cons d rest => simp [hrest d rfl]
    rw [cons_append]
    simp only [hc, if_true, takeWhile_word hname hrest, hdrop]

theorem startsAnnotationType_eq_false (huse : name.takeWhile isWord ≠ "interface")
    (hrest : ∀ c, rest.head? = some c → isDotted c = false) :
    startsAnnotationType ('@' :: (gap ++ (name ++ rest))) = false := by
  have hafter : after? "@" ('@' :: (gap ++ (name ++ rest))) = some (gap ++ (name ++ rest)) := after?_eq_some.2 rfl
  have hword : ∀ c, rest.head? = some c → isWord c = false := fun c hc => by
    have := hrest c hc
    simp only [isDotted, Bool.or_eq_false_iff] at this
    exact this.1
  simp only [startsAnnotationType, hafter, bind, Option.bind, dropBlanks_name hgap hlead]
  cases h : after? "interface" (name ++ rest) with
  | none => rfl
  | some behind =>
    simp only
    cases hends : wordEnds behind with
    | false => rfl
    | true =>
      have heq := congrArg (List.takeWhile isWord) (after?_eq_some.1 h)
      rw [takeWhile_append_of_ends hword, takeWhile_word (by decide) (wordEnds_iff.1 hends)] at heq
      exact absurd heq huse

end Name

theorem isDotted_of_isBlank (h : isBlank c = true) : isDotted c = false := by
  have hdot : c ≠ '.' := by
    rintro rfl
    exact absurd h (by decide)
  simp [isDotted, isWord_of_isBlank h, hdot]

theorem AnnotationText.Fits.ends (ha : a.Fits) (hrest : a.args = none → ∀ c, rest.head? = some c → isDotted c = false) :
    ∀ c, (a.argsText ++ rest).head? = some c → isDotted c = false := by
  cases hargs : a.args with
  | none =>
    rw [AnnotationText.argsText, hargs]
    exact hrest hargs
  | some p =>
    rw [AnnotationText.argsText, hargs, elim_some, append_assoc]
    refine not_isNamePart_of_blanks (fun _ => isDotted_of_isBlank) (ha.args p hargs).1 fun c hc => ?_
    obtain rfl : '(' = c := by simpa using hc
    decide

theorem annotationAt_named {gap name rest : Text} (hdrop : t.drop i = '@' :: (gap ++ (name ++ rest)))
    (hgap : isAllBlank gap = true) (hlead : name.head?.any isLead = true) (hdotted : name.all isDotted = true)
    (hrest : ∀ c, rest.head? = some c → isDotted c = false) {k j} (hk : k = i + 1 + gap.length + name.length)
    (hj : j = skipBlanks t k t.length) :
    annotationAt t t i = if t[j]? == some '(' then
        (partner t j).map fun close => ⟨name, some (slice t (j + 1) close), ⟨i, close + 1⟩⟩
      else .ok ⟨name, none, ⟨i, k⟩⟩ := by
  have hlength := congrArg List.length hdrop
  simp only [length_drop, length_cons, length_append] at hlength
  have hend : t.length - rest.length = k := by omega
  rw [annotationAt, hdrop, annotationName?_of_name hgap hlead hdotted hrest]
  simp only [hend, ← hj]
  cases partner t j <;> rfl

theorem annotationAt_of_stands (ha : a.Fits) (hat : Stands t i (a.text ++ g))
    (hg : isAllBlank g = true) {next} (hnext : t[i + a.text.length + g.length]? = some next)
    (hsolid : isBlank next = false) (hparen : next ≠ '(')
    (hends : a.args = none → ∀ c, t[i + a.text.length]? = some c → isDotted c = false) :
    annotationAt t t i = .ok (a.read i) ∧ startsAnnotationType (t.drop i) = false := by
  obtain ⟨hata, hatg⟩ := stands_append.1 hat
  have hdrop : t.drop i = '@' :: (a.gap ++ (a.name ++ (a.argsText ++ t.drop (i + a.text.length)))) := by
    rw [hata.drop]
    simp [AnnotationText.text]
  have hrest : ∀ c, (a.argsText ++ t.drop (i + a.text.length)).head? = some c → isDotted c = false :=
    ha.ends fun hargs c hc => hends hargs c (by rwa [head?_drop] at hc)
  have hatargs : Stands t (i + 1 + a.gap.length + a.name.length) a.argsText := by
    rw [AnnotationText.text, stands_cons, stands_append, stands_append] at hata
    exact hata.2.2.2
  have hlength : a.text.length = 1 + a.gap.length + a.name.length + a.argsText.length := by
    simp only [AnnotationText.text, length_cons, length_append]
    omega
  have hnamed := fun j => @annotationAt_named t i _ _ _ hdrop ha.gap ha.lead ha.dotted hrest _ j rfl
  refine ⟨?_, by rw [hdrop]; exact startsAnnotationType_eq_false ha.gap ha.lead ha.use hrest⟩
  cases hargs : a.args with
  | none =>
    have hnone : a.argsText = [] := by simp [AnnotationText.argsText, hargs]
    rw [hnone, length_nil, Nat.add_zero] at hlength
    have hend : i + 1 + a.gap.length + a.name.length = i + a.text.length := by omega
    have hlt := (List.getElem?_eq_some_iff.1 hnext).1
    have hskip := skipBlanks_of_stands hatg hg (Nat.le_of_lt hlt) (.inr ⟨next, hnext, hsolid⟩)
    rw [hnamed (i + a.text.length + g.length) (by rw [hend, hskip]), hnext, if_neg (by simpa using hparen), hend]
    simp [AnnotationText.read, hargs]
  | some p =>
    obtain ⟨hblank, hinside⟩ := ha.args p hargs
    have htext : a.argsText = p.1 ++ '(' :: (p.2 ++ [')']) := by simp [AnnotationText.argsText, hargs]
    rw [htext, stands_append] at hatargs
    obtain ⟨hatblank, hatlist⟩ := hatargs
    have hlist : Enclosed '(' ')' ('(' :: (p.2 ++ [')'])) := ⟨p.2, hinside, rfl⟩
    have hopen := hlist.getElem? hatlist
    have hlt := (List.getElem?_eq_some_iff.1 hopen).1
    have hskip := skipBlanks_of_stands hatblank hblank (Nat.le_of_lt hlt) (.inr ⟨'(', hopen, by decide⟩)
    have hslice := (stands_append.1 (stands_cons.1 hatlist).2).1.slice
    have hpartner := partner_of_stands hlist rfl hatlist
    simp only [htext, length_append, length_cons, length_nil] at hlength hpartner
    rw [hnamed _ hskip.symm, hopen, if_pos (by decide), hpartner]
    simp only [Except.map, AnnotationText.read, hargs, Option.map_some, Except.ok.injEq, Annotation.mk.injEq,
      Option.some.injEq, Span.mk.injEq, true_and]
    refine ⟨(congrArg (slice t _) ?_).trans hslice, ?_⟩ <;> omega

theorem annotationsText_cons (a : AnnotationText) (g : Text) (as : List (AnnotationText × Text)) :
    annotationsText ((a, g) :: as) = a.text ++ (g ++ annotationsText as) := by
  simp [annotationsText]

theorem AnnotationsFit.tail {p as}
    (h : AnnotationsFit (p :: as)) : AnnotationsFit as where
  each q hq := h.each q (mem_cons_of_mem _ hq)
  last q hq := h.last q (by rw [getLast?_cons, hq]; rfl)

theorem annotationsFrom_of_stands {c} (hc : isWord c = true) :
    ∀ {as i g}, AnnotationsFit as → isAllBlank g = true → Stands t i (g ++ (annotationsText as ++ [c])) →
    i + g.length + (annotationsText as).length < stop →
    annotationsFrom t t stop i = .ok (annotationsAt (i + g.length) as, i + g.length + (annotationsText as).length)
  | [], i, g, _, hg, hat, hstop => by
    obtain ⟨hatg, hatc⟩ := stands_append.1 hat
    have hnext : t[i + g.length]? = some c := (stands_cons.1 hatc).1
    have hne : c ≠ '@' := by
      rintro rfl
      exact absurd hc (by decide)
    simp only [annotationsText, flatMap_nil, length_nil, Nat.add_zero] at hstop ⊢
    rw [annotationsFrom]
    simp only
    rw [skipBlanks_of_stands hatg hg (by omega) (.inr ⟨c, hnext, isBlank_of_isWord hc⟩), dif_pos hstop, hnext,
      if_neg (by simp [hne])]
    rfl
  | (a, g') :: as, i, g, h, hg, hat, hstop => by
    obtain ⟨ha, hg'⟩ : a.Fits ∧ isAllBlank g' = true := h.each (a, g') (by simp)
    rw [annotationsText_cons] at hat hstop ⊢
    simp only [append_assoc] at hat
    obtain ⟨hatg, hat⟩ := stands_append.1 hat
    obtain ⟨hata, hatrest⟩ := stands_append.1 hat
    obtain ⟨hatg', hatnext⟩ := stands_append.1 hatrest
    have hmark : t[i + g.length]? = some '@' := (stands_cons.1 (by rwa [AnnotationText.text] at hata)).1
    have hpos : 0 < a.text.length := by simp [AnnotationText.text]
    simp only [length_append] at hstop ⊢
    -- the next annotation, or the word
    have hnext : ∃ next, t[i + g.length + a.text.length + g'.length]? = some next ∧ isBlank next = false ∧ next ≠ '(' ∧
        (g' = [] → a.args = none → isDotted next = false) := by
      cases as with
      | nil =>
        have hatword : Stands t (i + g.length + a.text.length + g'.length) [c] := hatnext
        refine ⟨c, (stands_cons.1 hatword).1, isBlank_of_isWord hc, ?_, fun hnil hargs => ?_⟩
        · rintro rfl
          exact absurd hc (by decide)
        · exact absurd hnil (h.last (a, g') rfl hargs)
      | cons b as =>
        obtain ⟨b, g''⟩ := b
        rw [annotationsText_cons, AnnotationText.text] at hatnext
        exact ⟨'@', (stands_cons.1 hatnext).1, by decide, by decide, fun _ _ => by decide⟩
    obtain ⟨next, hnext, hsolid, hparen, hdotted⟩ := hnext
    have hends : a.args = none → ∀ c, t[i + g.length + a.text.length]? = some c → isDotted c = false := by
      intro hargs d hd
      cases hg'' : g' with
      | nil =>
        subst hg''
        obtain rfl : next = d := Option.some.inj (hnext.symm.trans hd)
        exact hdotted rfl hargs
      | cons e g'' =>
        rw [hg''] at hatg'
        obtain rfl : e = d := Option.some.inj ((stands_cons.1 hatg').1.symm.trans hd)
        exact isDotted_of_isBlank (all_eq_true.1 hg' e (by rw [hg'']; simp))
    obtain ⟨hread, htype⟩ := annotationAt_of_stands ha (stands_append.2 ⟨hata, hatg'⟩) hg' hnext hsolid hparen hends
    have ih := annotationsFrom_of_stands hc h.tail hg' hatrest (by omega)
    rw [annotationsFrom]
    simp only
    rw [skipBlanks_of_stands hatg hg (by omega) (.inr ⟨'@', hmark, by decide⟩), dif_pos (by omega), hmark, htype,
      if_pos (by decide), hread]
    have hstopped : (a.read (i + g.length)).span.stop = i + g.length + a.text.length := rfl
    simp only [bind, Except.bind]
    rw [dif_pos (by rw [hstopped]; omega), hstopped, ih]
    simp only [pure, Except.pure, annotationsAt, Nat.add_assoc]

/-! ## Fields -/

theorem Unmarked.not_mem (h : Unmarked u) (hc : c ∈ headMarks) : c ∉ u := fun hmem => h c hmem hc

section Heads

variable {ms : List (Text × Text)} {d : Declarator} (hms : ModifiersFit ms) (hd : d.Fits)
include hms hd

theorem namesIn_head (u : Text) : ∃ w more, w ∉ modifierWords ∧
    namesIn (modifiersText ms ++ (d.type ++ d.gap ++ u)) = ms.map (·.1) ++ w :: more := by
  obtain ⟨w, rest, htype, hw, hends⟩ := hd.exists_word u
  refine ⟨w, namesIn rest, fun hmem => not_mem_reserved_of_isIdentifier hw (mem_append_left _ hmem), ?_⟩
  rw [hms.namesIn, htype, namesIn_word (isName_of_isIdentifier hw) hends]

theorem leadingModifiers_head (u : Text) :
    leadingModifiers (namesIn (modifiersText ms ++ (d.type ++ d.gap ++ u))) = ms.map (·.1) := by
  obtain ⟨w, more, hw, hnames⟩ := namesIn_head hms hd u
  rw [hnames, leadingModifiers, takeWhile_append_of_pos, takeWhile_cons_of_neg (by simpa using hw), append_nil]
  intro word hword
  obtain ⟨m, hm, rfl⟩ := mem_map.1 hword
  simpa using (hms m hm).1

omit hms in
theorem dropModifiers_type (hg : isAllBlank g = true) : dropModifiers (d.type ++ g) = d.type ++ g := by
  obtain ⟨w, rest, htype, hw, hends⟩ := hd.type.exists_word rfl
  have hword : (d.type ++ g).takeWhile isWord = w := by
    rw [htype, append_assoc]
    refine takeWhile_word (all_isWord_of_isIdentifier hw) ?_
    cases rest with
    | nil => exact wordEnds_iff.1 (wordEnds_of_blank hg)
    | cons c rest =>
      intro e he
      exact isWord_of_nameEnds hends he
  refine dropModifiers_of_word (fun hmem => ?_) ?_
  · rw [hword] at hmem
    exact not_mem_reserved_of_isIdentifier hw (mem_append_left _ hmem)
  · exact (hd.type.unmarked.append (unmarked_of_blank hg)).not_mem (by decide)

theorem normalType_dropModifiers (hg : isAllBlank g = true) :
    normalType (dropModifiers (modifiersText ms ++ (d.type ++ g))) = d.type := by
  have hhead : ∀ c, (d.type ++ g).head? = some c → isBlank c = false := by
    intro c hc
    rw [head?_append_of_ne_nil hd.type.ne_nil] at hc
    exact hd.type.solid_head c hc
  rw [hms.dropModifiers hhead, dropModifiers_type hd hg,
    normalType_of_tight hd.type.isChain hd.type.solid_head hd.type.solid_getLast hg]

theorem strip_head {g} (hg : isAllBlank g = true) :
    strip (g ++ (modifiersText ms ++ d.text)) = modifiersText ms ++ (d.type ++ d.gap ++ d.name) := by
  have hsplit : g ++ (modifiersText ms ++ d.text) =
      g ++ (modifiersText ms ++ (d.type ++ d.gap ++ d.name)) ++ d.behind := by
    simp [Declarator.text]
  rw [hsplit]
  refine strip_blanks hg hd.behind (hms.head? fun c hc => ?_) fun c hc => ?_
  · rw [append_assoc, head?_append_of_ne_nil hd.type.ne_nil] at hc
    exact hd.type.solid_head c hc
  · have hname := ne_nil_of_isIdentifier hd.name
    rw [← append_assoc, getLast?_append, getLast?_eq_getLast_of_ne_nil hname, some_or, some.injEq] at hc
    exact isBlank_of_isWord (all_eq_true.1 (all_isWord_of_isIdentifier hd.name) c (hc ▸ getLast_mem hname))

theorem strip_front : strip (modifiersText ms ++ (d.type ++ d.gap)) = modifiersText ms ++ d.type := by
  have hsplit : modifiersText ms ++ (d.type ++ d.gap) = [] ++ (modifiersText ms ++ d.type) ++ d.gap := by simp
  rw [hsplit]
  refine strip_blanks rfl hd.gap (hms.head? hd.type.solid_head) fun c hc => ?_
  rw [getLast?_append, getLast?_eq_getLast_of_ne_nil hd.type.ne_nil, some_or] at hc
  rw [← getLast?_eq_getLast_of_ne_nil hd.type.ne_nil] at hc
  exact (hd.type.solid_getLast c hc).1

theorem pieces_of_field (init : Option Text) :
    (splitDeclarators (modifiersText ms ++ d.text ++ init.elim [] ('=' :: ·))).map (·.takeWhile (· != '=')) =
      (modifiersText ms ++ d.text) :: init.elim [] fun t => (splitDeclarators t).tail.map (·.takeWhile (· != '=')) := by
  have hhead : Undivided 0 (modifiersText ms ++ d.text) := hms.undivided.append hd.undivided
  have hmarks : ∀ c ∈ modifiersText ms ++ d.text, (c != '=') = true := by
    intro c hc
    have hne : c ≠ '=' := by
      rintro rfl
      exact (hms.unmarked.append hd.unmarked).not_mem (by decide) hc
    simpa using hne
  have htake : ∀ u : Text, (∀ c, u.head? = some c → (c != '=') = false) →
      (modifiersText ms ++ d.text ++ u).takeWhile (· != '=') = modifiersText ms ++ d.text :=
    fun u hu => takeWhile_word (all_eq_true.2 hmarks) hu
  cases init with
  | none =>
    have hwhole := htake [] (by simp)
    rw [append_nil] at hwhole
    rw [elim_none, append_nil, splitDeclarators_of_undivided hhead, map_singleton, hwhole]
    rfl
  | some t =>
    rw [elim_some, elim_some, splitDeclarators_eq, hhead 0 _ (Int.le_refl _),
      declaratorsFrom_cons (by decide), splitDeclarators_eq]
    have hstep : bracketStep ('<' :: openers) ('>' :: closers) '=' = 0 := by decide
    rw [hstep, Int.add_zero]
    cases h : declaratorsFrom 0 t with
    | nil => exact absurd h (declaratorsFrom_ne_nil 0 t)
    | cons p ps =>
      simp only [modifyHead_cons, map_cons, tail_cons, htake ('=' :: p) (by simp)]

theorem fieldOf?_of_text (init : Option Text) (as : List Annotation) (span : Span) :
    fieldOf? (modifiersText ms ++ d.text ++ init.elim [] ('=' :: ·)) as span = some {
      type := d.type
      name := d.name
      moreNames := init.elim [] strayNames
      modifiers := ms.map (·.1)
      annotations := as
      span := span } := by
  have hlast := hd.lastWord? (modifiersText ms) (g := []) rfl
  have hstrip := strip_head hms hd (g := []) rfl
  rw [append_nil] at hlast
  rw [nil_append] at hstrip
  have hsplit : modifiersText ms ++ d.text = modifiersText ms ++ (d.type ++ d.gap ++ (d.name ++ d.behind)) := by
    simp [Declarator.text]
  obtain ⟨w, more, -, hnames⟩ := namesIn_head hms hd (d.name ++ d.behind)
  have hlead := leadingModifiers_head hms hd (d.name ++ d.behind)
  rw [← hsplit] at hnames hlead
  have htype : normalType (dropModifiers (modifiersText ms ++ d.type)) = d.type := by
    have := normalType_dropModifiers (g := []) hms hd rfl
    rwa [append_nil] at this
  have hmore : ¬(namesIn (modifiersText ms ++ d.text)).length ≤ (ms.map (·.1)).length := by
    rw [hnames, length_append, length_cons]
    omega
  simp only [fieldOf?, pieces_of_field hms hd, headD_cons, tail_cons, hstrip, hlast, bind, Option.bind,
    hlead, if_neg hmore, strip_front hms hd, htype]
  cases init <;> rfl

end Heads

/-! ## Methods -/

theorem replaceAll_annotation (h : '@' ∉ u) : replaceAll u Before.anywhere annotationOfParameter? " " = u := by
  refine replaceFrom_eq_self (@searchFrom_eq_none_of_not_mem _ _ _ '@' (fun e rest he => ?_) (by decide) u none 0 h)
  have hnone : after? "@" (e :: rest) = none := after?_cons_of_ne (Ne.symm he)
  simp only [annotationOfParameter?, hnone, bind, Option.bind]

theorem replaceAll_final (h : WordFree ["final"] u) : replaceAll u Before.wordStart finalWord? " " = u :=
  replaceFrom_eq_self (@searchFrom_eq_none _ _ _ _ wordwise_finalWord? u h none 0)

theorem parameter?_of_text {before} (hbefore : isAllBlank before = true) (hd : d.Fits) :
    parameter? (before ++ d.text) = some d.read := by
  have hfree : WordFree reservedWords (before ++ d.text) := (wordFree_of_blank hbefore).append hd.wordFree fun h =>
      absurd ((endsInWord_of_blank hbefore).symm.trans h) (by decide)
  have hstrip : strip (before ++ d.text) = d.type ++ d.gap ++ d.name :=
    @strip_head [] d (by simp [ModifiersFit]) hd before hbefore
  have hlast := hd.lastWord? [] (g := []) rfl
  rw [append_nil, nil_append, nil_append] at hlast
  have htype : normalType (d.type ++ d.gap ++ arrayBrackets 0) = d.type := by
    rw [show arrayBrackets 0 = [] from rfl, append_nil]
    exact normalType_of_tight hd.type.isChain hd.type.solid_head hd.type.solid_getLast hd.gap
  simp only [parameter?, replaceAll_annotation hfree.not_mem_at, replaceAll_final (hfree.mono (by decide)), hstrip,
    hlast, map_some, htype, Declarator.read]

section Parameters

variable {blank : Text} {ps : List (Text × Declarator)} (h : ∀ p ∈ ps, isAllBlank p.1 = true ∧ p.2.Fits)
include h

theorem filterMap_parameters (hne : ps ≠ []) :
    (splitDeclarators (parametersText blank ps)).filterMap parameter? = ps.map (·.2.read) := by
  have hpiece : ∀ p ∈ ps, Undivided 0 (p.1 ++ p.2.text) ∧ parameter? (p.1 ++ p.2.text) = some p.2.read := by
    intro p hp
    obtain ⟨hblank, hd⟩ := h p hp
    exact ⟨(undivided_of_blank 0 hblank).append hd.undivided, parameter?_of_text hblank hd⟩
  clear h
  induction ps with
  | nil => exact absurd rfl hne
  | cons p ps ih =>
    obtain ⟨hundivided, hread⟩ := hpiece p (by simp)
    cases ps with
    | nil => simp [parametersText, splitDeclarators_of_undivided hundivided, hread]
    | cons q ps =>
      have ih := ih (by simp) (forall_mem_cons.1 hpiece).2
      rw [parametersText, splitDeclarators_comma hundivided, filterMap_cons_some hread, ih]
      rfl

theorem isAllBlank_parameters (hne : ps ≠ []) : isAllBlank (parametersText blank ps) = false := by
  have hpiece : ∀ p ∈ ps, ∀ u, isAllBlank (p.1 ++ p.2.text ++ u) = false := by
    intro p hp u
    obtain ⟨-, hd⟩ := h p hp
    obtain ⟨c, hc, -⟩ := hd.type.head?
    refine all_eq_false.2 ⟨c, ?_, by simp [hd.type.solid_head c hc]⟩
    have hmem : c ∈ p.2.type := mem_of_mem_head? hc
    simp [Declarator.text, hmem]
  cases ps with
  | nil => exact absurd rfl hne
  | cons p ps =>
    cases ps with
    | nil =>
      have := hpiece p (by simp) []
      rwa [append_nil] at this
    | cons q ps => exact hpiece p (by simp) _

theorem parameters_of_text (hblank : isAllBlank blank = true) :
    parameters (parametersText blank ps) = ps.map (·.2.read) := by
  by_cases hne : ps = []
  · subst hne
    simp [parameters, parametersText, hblank]
  · rw [parameters, isAllBlank_parameters h hne, if_neg (by decide), filterMap_parameters h hne]

theorem wellBracketed_parameters (hblank : isAllBlank blank = true) : WellBracketed (parametersText blank ps) := by
  have hpiece : ∀ p ∈ ps, WellBracketed (p.1 ++ p.2.text) :=
    fun p hp => (wellBracketed_of_blank (h p hp).1).append (h p hp).2.wellBracketed
  clear h
  induction ps with
  | nil => exact wellBracketed_of_blank hblank
  | cons p ps ih =>
    cases ps with
    | nil => exact hpiece p (by simp)
    | cons q ps =>
      exact (hpiece p (by simp)).append (IsTypeText.wellBracketed_cons (by decide)
        (ih (forall_mem_cons.1 hpiece).2))

end Parameters

theorem firstWithin?_of_stands {u} {c : Char} {p} (hat : Stands t i (u ++ [c]))
    (hu : ∀ e ∈ u, p e = false) (hc : p c = true) (hstop : i + u.length < stop) :
    firstWithin? t i stop p = some (i + u.length) := by
  have hslice : slice t i stop = u ++ [c] ++ slice t (i + (u ++ [c]).length) stop :=
    hat.slice_stop (by rw [length_append, length_singleton]; omega)
  have hdrop : (slice t i stop).dropWhile (fun e => !p e) = c :: slice t (i + (u ++ [c]).length) stop := by
    rw [hslice, append_assoc, dropWhile_append_of_pos (by simpa using hu), singleton_append,
      dropWhile_cons_of_neg (by simp [hc])]
  rw [firstWithin?, hdrop]
  rw [hslice]
  simp

theorem dropTypeParameters_type (hd : d.Fits) : dropTypeParameters (d.type ++ d.gap) = d.type ++ d.gap := by
  obtain ⟨c, hc, hword⟩ := hd.type.head?
  have hsolid := hd.type.solid_head c hc
  cases htype : d.type with
  | nil => exact absurd htype hd.type.ne_nil
  | cons e rest =>
    rw [htype, head?_cons, some.injEq] at hc
    subst hc
    have hne : e ≠ '<' := by
      rintro rfl
      rcases hword with hword | hword
      · exact absurd hword (by decide)
      · exact absurd hword (by decide)
    rw [dropTypeParameters, dropBlanks_of_head fun f hf => by simp at hf; rw [← hf, hsolid]]
    split
    · next heq => exact absurd (List.cons.inj heq).1 hne
    · rfl

section Members

variable {className : Text} {ms : List (Text × Text)} {d : Declarator}

theorem solid_head (hms : ModifiersFit ms) (hd : d.Fits) (u : Text) :
    ∀ c, (modifiersText ms ++ (d.type ++ u)).head? = some c → isBlank c = false :=
  hms.head? fun c hc => hd.type.solid_head c (by rwa [head?_append_of_ne_nil hd.type.ne_nil] at hc)

theorem returnType_of_front (hms : ModifiersFit ms) (hd : d.Fits) :
    normalType (dropTypeParameters (dropModifiers (dropBlanks (modifiersText ms ++ (d.type ++ d.gap))))) = d.type := by
  have hhead : ∀ c,
      (d.type ++ d.gap).head? = some c → isBlank c = false := @solid_head [] d (by simp [ModifiersFit]) hd _
  rw [dropBlanks_of_head (solid_head hms hd _), hms.dropModifiers hhead, dropModifiers_type hd hd.gap,
    dropTypeParameters_type hd, normalType_of_tight hd.type.isChain hd.type.solid_head hd.type.solid_getLast hd.gap]

theorem lastWord?_head (hd : d.Fits) :
    lastWord? (modifiersText ms ++ d.text) = some (modifiersText ms ++ (d.type ++ d.gap), d.name, 0) := by
  rw [← hd.lastWord? (modifiersText ms) hd.behind, Declarator.text, ← append_assoc (modifiersText ms)]

theorem bodyEnd_of_stands {k} (hbehind : isAllBlank behind = true)
    (hbody : ∀ b, body = some b → WellBracketed b) (hat : Stands t k (behind ++ CoreText.bodyText body))
    (hstop : k + behind.length + (CoreText.bodyText body).length ≤ stop) :
    firstWithin? t k stop (fun c => c == ';' || c == '{') = some (k + behind.length) ∧
      (body = none → t[k + behind.length]? = some ';') ∧
      ∀ b, body = some b → t[k + behind.length]? = some '{' ∧
        partner t (k + behind.length) = .ok (k + behind.length + b.length + 1) := by
  have hblank : ∀ c ∈ behind, (c == ';' || c == '{') = false := by
    intro c hc
    simp only [Bool.or_eq_false_iff, beq_eq_false_iff_ne]
    constructor <;> rintro rfl <;> exact absurd (all_eq_true.1 hbehind _ hc) (by decide)
  cases body with
  | none =>
    have hlt : k + behind.length < stop := by
      simp only [CoreText.bodyText, elim_none, length_singleton] at hstop
      omega
    exact ⟨firstWithin?_of_stands hat hblank (by decide) hlt, fun _ =>
      (stands_cons.1 (stands_append.1 hat).2).1, by simp⟩
  | some b =>
    have hblock : Enclosed '{' '}' ('{' :: (b ++ ['}'])) := ⟨b, hbody b rfl, rfl⟩
    simp only [CoreText.bodyText, elim_some, length_cons, length_append, length_nil] at hstop hat
    obtain ⟨hatblank, hatblock⟩ := stands_append.1 hat
    have hbrace := hblock.getElem? hatblock
    refine ⟨?_, by simp, ?_⟩
    · refine firstWithin?_of_stands (stands_append.2 ⟨hatblank, ?_⟩) hblank (c := '{') (by decide) (by omega)
      exact stands_cons.2 ⟨hbrace, stands_nil _ _⟩
    · rintro b' ⟨⟩
      refine ⟨hbrace, ?_⟩
      rw [partner_of_stands hblock rfl hatblock]
      simp only [length_cons, length_append, length_nil, ok.injEq]
      omega

theorem methodAt_of_stands {ps paren as} (hms : ModifiersFit ms) (hcore : (CoreText.method d ps blank behind body).Fits)
    (hat : Stands t i (modifiersText ms ++ (CoreText.method d ps blank behind body).text))
    (hparen : paren = i + (modifiersText ms ++ d.text).length)
    (hlast : last = i + (modifiersText ms ++ (CoreText.method d ps blank behind body).text).length)
    (hstop : last ≤ stop) :
    methodAt t className stop start i paren as = .ok {
      name := d.name
      params := ps.map (·.2.read)
      returnType := some d.type
      modifiers := ms.map (·.1)
      annotations := as
      span := ⟨start, last⟩
      body := body.map fun b => ⟨last - (b.length + 2), last - 1⟩ } := by
  obtain ⟨hd, hps, hblank, hbehind, hbody⟩ := hcore
  have hlist : Enclosed '(' ')' ('(' :: (parametersText blank ps ++ [')'])) :=
    ⟨_, wellBracketed_parameters hps hblank, rfl⟩
  have hsplit : modifiersText ms ++ (CoreText.method d ps blank behind body).text = modifiersText ms ++ d.text ++
      ('(' :: (parametersText blank ps ++ [')']) ++ (behind ++ CoreText.bodyText body)) := by
    simp [CoreText.text]
  rw [hsplit] at hat hlast
  obtain ⟨hathead, hat⟩ := stands_append.1 hat
  obtain ⟨hatlist, hatbody⟩ := stands_append.1 hat
  have hhead := hathead.slice
  rw [← hparen] at hatlist hatbody hhead
  -- the offsets of the closing bracket and of what follows it
  have hclose : paren + ('(' :: (parametersText blank ps ++ [')'])).length - 1 =
      paren + 1 + (parametersText blank ps).length := by
    simp only [length_cons, length_append, length_nil]
    omega
  have hnext : paren + ('(' :: (parametersText blank ps ++ [')'])).length =
      paren + 1 + (parametersText blank ps).length + 1 := by omega
  have hlast' : last = paren + 1 + (parametersText blank ps).length + 1 + behind.length +
      (CoreText.bodyText body).length := by
    rw [hlast, length_append, ← Nat.add_assoc, ← hparen, length_append, length_append, ← Nat.add_assoc,
      hnext, Nat.add_assoc _ behind.length]
  have hpartner := partner_of_stands hlist rfl hatlist
  rw [hclose] at hpartner
  rw [hnext] at hatbody
  have hinside := (stands_append.1 (stands_cons.1 hatlist).2).1.slice
  obtain ⟨hfirst, hsemicolon, hblock⟩ := bodyEnd_of_stands hbehind hbody hatbody (hlast' ▸ hstop)
  have hlead := leadingModifiers_head hms hd []
  rw [append_nil] at hlead
  have htype : d.type.isEmpty = false := by simpa using hd.type.ne_nil
  rw [methodAt, hpartner]
  simp only [bind, Except.bind, hhead, lastWord?_head hd, hfirst, hinside, parameters_of_text hps hblank, hlead,
    returnType_of_front hms hd, htype]
  cases body with
  | none =>
    rw [hsemicolon rfl, if_neg (by decide)]
    simp [CoreText.bodyText] at hlast'
    simp [pure, Except.pure, hlast']
  | some b =>
    obtain ⟨hbrace, hpartner⟩ := hblock b rfl
    rw [hbrace, if_pos (by decide), hpartner]
    simp [CoreText.bodyText] at hlast'
    simp [pure, Except.pure]
    omega

/-! ## Members -/

def endsHead (c : Char) : Bool := c == ';' || c == '{' || c == '=' || c == '('

theorem Unmarked.endsHead {u} (h : Unmarked u) : ∀ c ∈ u, endsHead c = false := by
  intro c hc
  have hmarks := h c hc
  simp only [headMarks, mem_cons, not_mem_nil, or_false, not_or] at hmarks
  simp [Java.endsHead, hmarks]

theorem declaresNestedType_head (hms : ModifiersFit ms) (hd : d.Fits) :
    declaresNestedType (modifiersText ms ++ d.text) = false := by
  have hfree : WordFree typeWords (modifiersText ms ++ d.text) :=
    hms.wordFree.append (hd.wordFree.mono fun w hw => mem_append_right _ hw) fun h =>
      absurd (hms.endsInWord.symm.trans h) (by decide)
  rw [declaresNestedType_eq, searchFrom_eq_none wordwise_nestedHead? hfree]
  rfl

theorem findSome?_keyword (kind : TypeKind) (u : Text) :
    (TypeKind.all.findSome? fun k => after? k.keyword (kind.keyword ++ u)) = some u := by
  cases kind <;> rfl

theorem dropBlanks_identifier (hname : isIdentifier name = true) (rest : Text) :
    dropBlanks (name ++ rest) = name ++ rest := by
  obtain ⟨c, hc, hword⟩ := head?_of_isIdentifier hname
  refine dropBlanks_of_head fun e he => ?_
  rw [head?_append, hc, some_or] at he
  exact isBlank_of_isWord (some.inj he ▸ hword)

theorem nestedHead?_keyword (kind : TypeKind) (hgap : isAllBlank gap = true) (hne : gap ≠ [])
    (hname : isIdentifier name = true) (hrest : wordEnds rest = true) :
    nestedHead? (kind.keyword ++ (gap ++ (name ++ rest))) = some ((), rest) := by
  have hat : after? "@" (kind.keyword ++ (gap ++ (name ++ rest))) = none := by cases kind <;> rfl
  have hrun := run?_of_word (ne_nil_of_isIdentifier hname) (all_isWord_of_isIdentifier hname) (wordEnds_iff.1 hrest)
  simp only [nestedHead?, hat, findSome?_keyword, bind, Option.bind, someBlanks?_eq_some hgap hne,
    dropBlanks_identifier hname, hrun]

theorem declaresNestedType_nested (hms : ModifiersFit ms) (kind : TypeKind)
    (hgap : isAllBlank gap = true) (hne : gap ≠ []) (hname : isIdentifier name = true)
    (hbehind : isAllBlank behind = true) :
    declaresNestedType (modifiersText ms ++ (kind.keyword ++ gap ++ name ++ behind)) = true := by
  have hstart : nestedStart ((modifiersText ms).getLast?.or none) = true := by
    cases hlast : (modifiersText ms).getLast? with
    | none => rfl
    | some c => simp [nestedStart, hms.getLast? c hlast]
  rw [declaresNestedType_eq, searchFrom_of_wordFree wordwise_nestedHead? hms.wordFree fun h =>
    absurd (hms.endsInWord.symm.trans h) (by decide), append_assoc, append_assoc,
    searchFrom_of_match hstart (nestedHead?_keyword kind hgap hne hname (wordEnds_of_blank hbehind))]
  rfl

theorem head?_code (hms : ModifiersFit ms) {core : CoreText} (hcore : core.Fits) :
    ∃ c, (modifiersText ms ++ core.text).head? = some c ∧ isWord c = true := by
  have htype : ∀ {d : Declarator} {u : Text}, d.Fits → ∃ c, (d.text ++ u).head? = some c ∧ isWord c = true := by
    intro d u hd
    obtain ⟨w, rest, htype, hw, -⟩ := hd.type.exists_word rfl
    obtain ⟨c, hc, hword⟩ := head?_of_isIdentifier hw
    exact ⟨c, by rw [hd.head?, htype, head?_append_of_ne_nil (ne_nil_of_isIdentifier hw), hc], hword⟩
  cases ms with
  | cons m ms =>
    obtain ⟨hmem, hsealed, -⟩ := hms m (by simp)
    obtain ⟨hne, -, hall, -⟩ := modifier_word m.1 hmem hsealed
    refine ⟨m.1.head hne, ?_, all_eq_true.1 hall _ (head_mem hne)⟩
    rw [modifiersText_cons_append, head?_append_of_ne_nil hne, head?_eq_some_head hne]
  | nil =>
    cases core with
    | field d init =>
      rw [CoreText.text, append_assoc]
      exact htype hcore.1
    | method d ps blank behind body =>
      rw [CoreText.text, append_assoc, append_assoc]
      exact htype hcore.1
    | nested kind gap name behind body => cases kind <;> exact ⟨_, rfl, by decide⟩

theorem head_of_stands (hu : Unmarked u) (hat : Stands t i (u ++ [c])) (hc : endsHead c = true)
    (hstop : i + u.length < stop) :
    firstWithin? t i stop (fun c => c == ';' || c == '{' || c == '=' || c == '(') = some (i + u.length) ∧
      slice t i (i + u.length) = u ∧ t[i + u.length]? = some c := by
  obtain ⟨hatu, hatc⟩ := stands_append.1 hat
  exact ⟨@firstWithin?_of_stands t i stop u c endsHead hat hu.endsHead hc hstop, hatu.slice, (stands_cons.1 hatc).1⟩

section Kinds

variable {as} {start : Nat} (hms : ModifiersFit ms)
  (hannotations : annotationsFrom t t stop start = .ok (as, i))
include hms hannotations

theorem memberAt_field {init : Option Text} (hcore : (CoreText.field d init).Fits)
    (hat : Stands t i (modifiersText ms ++ (CoreText.field d init).text))
    (hstop : i + (modifiersText ms ++ (CoreText.field d init).text).length ≤ stop) :
    memberAt t t className stop start = .ok (.field {
      type := d.type
      name := d.name
      moreNames := init.elim [] strayNames
      modifiers := ms.map (·.1)
      annotations := as
      span := ⟨start, i + (modifiersText ms ++ (CoreText.field d init).text).length⟩ }) := by
  obtain ⟨hd, hinit⟩ := hcore
  have hunmarked := hms.unmarked.append hd.unmarked
  have hsplit : modifiersText ms ++ (CoreText.field d init).text =
      modifiersText ms ++ d.text ++ init.elim [] ('=' :: ·) ++ [';'] := by
    simp [CoreText.text]
  rw [hsplit] at hat hstop ⊢
  have hruns : RunsOn (modifiersText ms ++ d.text ++ init.elim [] ('=' :: ·)) := by
    have hsemicolon : ';' ∉ modifiersText ms ++ d.text := hunmarked.not_mem (by decide)
    have hhead : Unended (modifiersText ms ++ d.text) :=
      ⟨hms.wellBracketed.append hd.wellBracketed, fun u v heq => absurd (heq ▸ by simp) hsemicolon⟩
    refine hhead.runsOn.append ?_
    cases init with
    | none => exact fun pos rest => rfl
    | some u => exact (show Unended ['='] by decide).runsOn.append (hinit u rfl).runsOn
  have hlt : i + (modifiersText ms ++ d.text ++ init.elim [] ('=' :: ·)).length < stop := by
    rw [length_append, length_singleton] at hstop
    omega
  have hend := declarationEnd_of_stands hruns hat hlt
  obtain ⟨c, hatc, hc, hbrace, hparen⟩ : ∃ c, Stands t i (modifiersText ms ++ d.text ++ [c]) ∧ endsHead c = true ∧
      c ≠ '{' ∧ c ≠ '(' := by
    cases init with
    | none => exact ⟨';', by simpa using hat, by decide, by decide, by decide⟩
    | some u =>
      refine ⟨'=', ?_, by decide, by decide, by decide⟩
      rw [Option.elim_some, append_assoc, cons_append, ← singleton_append, ← append_assoc] at hat
      exact (stands_append.1 hat).1
  have hlt' : i + (modifiersText ms ++ d.text).length < stop := by
    rw [length_append] at hlt
    omega
  obtain ⟨hfirst, hslice, hmark⟩ := head_of_stands hunmarked hatc hc hlt'
  have hdeclaration := (stands_append.1 hat).1.slice
  simp only [memberAt, hannotations, bind, Except.bind, hfirst, hslice, declaresNestedType_head hms hd, hmark, hend,
    Nat.add_sub_cancel, hdeclaration, fieldOf?_of_text hms hd]
  rw [if_neg (by simpa using hbrace), if_neg (by simpa using hparen)]
  simp [pure, Except.pure, Nat.add_assoc]

theorem memberAt_method {ps : List (Text × Declarator)} (hcore : (CoreText.method d ps blank behind body).Fits)
    (hat : Stands t i (modifiersText ms ++ (CoreText.method d ps blank behind body).text))
    (hlast : last = i + (modifiersText ms ++ (CoreText.method d ps blank behind body).text).length)
    (hstop : last ≤ stop) :
    memberAt t t className stop start = .ok (.method {
      name := d.name
      params := ps.map (·.2.read)
      returnType := some d.type
      modifiers := ms.map (·.1)
      annotations := as
      span := ⟨start, last⟩
      body := body.map fun b => ⟨last - (b.length + 2), last - 1⟩ }) := by
  have hd := hcore.1
  have hsplit :
      modifiersText ms ++ (CoreText.method d ps blank behind body).text = modifiersText ms ++ d.text ++ ['('] ++
      (parametersText blank ps ++ [')'] ++ behind ++ CoreText.bodyText body) := by
    simp [CoreText.text]
  have hatparen := (stands_append.1 (hsplit ▸ hat)).1
  have hlt : i + (modifiersText ms ++ d.text).length < stop := by
    have := congrArg List.length hsplit
    simp only [length_append, length_singleton] at this hlast ⊢
    omega
  obtain ⟨hfirst, hslice, hmark⟩ := head_of_stands (hms.unmarked.append hd.unmarked) hatparen (by decide) hlt
  simp only [memberAt, hannotations, bind, Except.bind, hfirst, hslice, declaresNestedType_head hms hd, hmark]
  rw [if_neg (by decide), if_pos (by decide), methodAt_of_stands hms hcore hat rfl hlast hstop]
  rfl

theorem memberAt_nested {kind} {body : Text} (hcore : (CoreText.nested kind gap name behind body).Fits)
    (hat : Stands t i (modifiersText ms ++ (CoreText.nested kind gap name behind body).text))
    (hstop : i + (modifiersText ms ++ (CoreText.nested kind gap name behind body).text).length ≤ stop) :
    memberAt t t className stop start = .ok (.nestedType
      ⟨start, i + (modifiersText ms ++ (CoreText.nested kind gap name behind body).text).length⟩) := by
  obtain ⟨⟨hgap, hne⟩, hname, hbehind, hbody⟩ := hcore
  have hunmarked : Unmarked (modifiersText ms ++ (kind.keyword ++ gap ++ name ++ behind)) :=
    hms.unmarked.append ((((unmarked_of_word (all_isWord_keyword kind)).append (unmarked_of_blank hgap)).append
      (unmarked_of_word (all_isWord_of_isIdentifier hname))).append (unmarked_of_blank hbehind))
  have hblock : Enclosed '{' '}' ('{' :: (body ++ ['}'])) := ⟨body, hbody, rfl⟩
  have hsplit : modifiersText ms ++ (CoreText.nested kind gap name behind body).text =
      modifiersText ms ++ (kind.keyword ++ gap ++ name ++ behind) ++ '{' :: (body ++ ['}']) := by
    simp [CoreText.text]
  rw [hsplit] at hat hstop ⊢
  obtain ⟨hathead, hatblock⟩ := stands_append.1 hat
  have hatbrace := hblock.getElem? hatblock
  have hlt : i + (modifiersText ms ++ (kind.keyword ++ gap ++ name ++ behind)).length < stop := by
    rw [length_append, length_cons] at hstop
    omega
  obtain ⟨hfirst, hslice, hmark⟩ := head_of_stands hunmarked
    (stands_append.2 ⟨hathead, stands_cons.2 ⟨hatbrace, stands_nil _ _⟩⟩) (by decide) hlt
  have hbrace := @firstWithin?_of_stands t _ stop [] '{' (· == '{')
    (stands_cons.2 ⟨hatbrace, stands_nil _ _⟩) (by simp) (by decide) (by simpa using hlt)
  rw [length_nil, Nat.add_zero] at hbrace
  have hpos := hblock.length_pos
  simp only [memberAt, hannotations, bind, Except.bind, hfirst, hslice,
    declaresNestedType_nested hms kind hgap hne hname hbehind, Bool.true_or, if_true, hbrace,
    partner_of_stands hblock rfl hatblock, pure, Except.pure, Except.ok.injEq,
    Member.nestedType.injEq, Span.mk.injEq, true_and]
  rw [@List.length_append _ (modifiersText ms ++ (kind.keyword ++ gap ++ name ++ behind))]
  omega

end Kinds

theorem memberAt_of_stands {m : MemberText} (hm : m.Fits) (hat : Stands t start m.text)
    (hstop : start + m.text.length ≤ stop) : memberAt t t className stop start = .ok (m.read start) := by
  obtain ⟨as, ms, core⟩ := m
  have hms : ModifiersFit ms := hm.modifiers
  have hcore : core.Fits := hm.core
  have hat' : Stands t start (annotationsText as ++ (modifiersText ms ++ core.text)) := hat
  obtain ⟨hatas, hatcode⟩ := stands_append.1 hat'
  obtain ⟨c, hc, hword⟩ := head?_code hms hcore
  have hlength : (MemberText.mk as ms core).text.length =
      (annotationsText as).length + (modifiersText ms ++ core.text).length := length_append
  have hne : modifiersText ms ++ core.text ≠ [] := by
    intro hnil
    rw [hnil] at hc
    cases hc
  have hpos := length_pos_iff.2 hne
  have hatnext : Stands t start ([] ++ (annotationsText as ++ [c])) := by
    obtain ⟨rest, hrest⟩ : ∃ rest, modifiersText ms ++ core.text = c :: rest := head?_eq_some_iff.1 hc
    rw [hrest] at hatcode
    rw [nil_append]
    exact stands_append.2 ⟨hatas, stands_cons.2 ⟨(stands_cons.1 hatcode).1, stands_nil _ _⟩⟩
  have hannotations : annotationsFrom t t stop start =
      .ok (annotationsAt start as, start + (annotationsText as).length) :=
    annotationsFrom_of_stands hword hm.annotations (g := []) rfl hatnext (by simp only [length_nil]; omega)
  have hend : start + (annotationsText as).length + (modifiersText ms ++ core.text).length =
      start + (MemberText.mk as ms core).text.length := by omega
  cases core with
  | field d init =>
    rw [memberAt_field hms hannotations hcore hatcode (by omega), hend]
    rfl
  | method d ps blank behind body =>
    rw [memberAt_method hms hannotations hcore hatcode rfl (by omega), hend]
    rfl
  | nested kind gap name behind body =>
    rw [memberAt_nested hms hannotations hcore hatcode (by omega), hend]
    rfl

end Members

end Rebind.Java
