/-
The statements that unbind views.

What is taken out for an unbinder is spelled with its name, or with `this` and its name, from its start to its end
(`IsTeardown`, `Spelled`). Where a statement begins at that start (`Begins`) it is all of that statement, unless an
`else` follows, and no longer expression ends in it (`teardown_whole`). But nothing is asked of what stands
in front: `convert_otherReceivers` is a class that loses the ends of calls on other receivers.
-/
import Rebind.Proofs.Conversion.Excision
import Rebind.Proofs.Conversion.Unbinders
import Rebind.Proofs.Java.Splitting

namespace Rebind.Conversion

open Java Text List

/-! ## Teardowns are statements -/

section Statements

variable {name t : Text} {use more : List Text}

/-- A field's name, which starts no statement of another kind. -/
structure IsPlainName (name : Text) : Prop where
  ne_nil : name ≠ []
  word : ∀ c ∈ name, isWord c = true
  other : name ∉ statementWords

variable (hname : IsPlainName name) (huse : use ∈ fieldTokens name)

include hname huse

theorem exists_of_mem_fieldTokens : ∃ w ws, use = w :: ws ∧ IsPlainName w ∧ (ws = [] ∨ ws.head? = some ".".toList) := by
  simp only [fieldTokens, mem_cons, not_mem_nil, or_false] at huse
  rcases huse with rfl | rfl
  · exact ⟨name, [], rfl, hname, .inl rfl⟩
  · have hthis : "this".toList.all isWord = true := by decide
    exact ⟨"this", [".", name], rfl, ⟨by decide, all_eq_true.1 hthis, by decide⟩, .inr rfl⟩

theorem isSimple_of_spelled (hmore : more = callTokens ∨ more = resetTokens)
    (h : Spelled (use ++ more ++ endTokens) t) : ∃ code, t = code ++ [';'] ∧ IsSimple code := by
  have hchars := fun {c} => @mem_flatten_use name use hname.word huse c
  have hbrackets := brackets_use hname.word huse
  obtain ⟨w, ws, rfl, hw, hnext⟩ := exists_of_mem_fieldTokens hname huse
  obtain ⟨code, g, rfl, hcode, hg⟩ := h.split_last (by simp)
  refine ⟨code ++ g, rfl, ⟨?_, ?_⟩, ?_, ?_⟩
  · have hmark : WellBracketed more.flatten := by
      rcases hmore with rfl | rfl <;> decide
    have hblank : brackets g = [] := brackets_of_blank (all_eq_true.1 hg)
    rw [WellBracketed, ← owedAfter_brackets, brackets_append, brackets_spaced hcode.spaced, hblank,
      append_nil, flatten_append, brackets_append, hbrackets, nil_append, owedAfter_brackets]
    exact hmark
  · intro u v heq
    -- no token but the last has a semicolon
    have hmem : ';' ∈ code ++ g := by simp [heq]
    have hsemi : ';' ∉ more.flatten := by
      rcases hmore with rfl | rfl <;> decide
    rcases mem_append.1 hmem with hmem | hmem
    · rcases hcode.spaced.mem hmem with hblank | hmem
      · exact absurd hblank (by decide)
      · rw [flatten_append, mem_append] at hmem
        rcases hmem with hmem | hmem
        · exact absurd (hchars hmem) (by decide)
        · exact absurd hmem hsemi
    · exact absurd (all_eq_true.1 hg _ hmem) (by decide)
  · obtain ⟨rest, rfl, hrest⟩ := hcode
    have hbehind : ∀ c, (rest ++ g).head? = some c → isWord c = false := by
      obtain ⟨x, xs, hx, hmark⟩ : ∃ x xs, ws ++ more = x :: xs ∧ (x = "." ∨ x = "=") := by
        rcases hnext with rfl | hnext
        · rcases hmore with rfl | rfl
          · exact ⟨_, _, rfl, .inl rfl⟩
          · exact ⟨_, _, rfl, .inr rfl⟩
        · obtain ⟨xs, rfl⟩ := head?_eq_some_iff.1 hnext
          exact ⟨_, _, rfl, .inl rfl⟩
      obtain ⟨gap, more', hgap, rfl, -⟩ : Spaced (x :: xs) rest := hx ▸ hrest
      rw [append_assoc]
      refine not_isNamePart_of_blanks (fun _ => isWord_of_isBlank) hgap fun c hc => ?_
      rcases hmark with rfl | rfl
      · obtain rfl : '.' = c := by simpa using hc
        decide
      · obtain rfl : '=' = c := by simpa using hc
        decide
    rw [append_assoc, takeWhile_word (all_eq_true.2 hw.word) hbehind]
    exact hw.other
  · obtain ⟨rest, rfl, -⟩ := hcode
    obtain ⟨c, w', rfl⟩ := exists_cons_of_ne_nil hw.ne_nil
    have hc : isWord c = true := hw.word c (by simp)
    have hblank : isBlank c = false := by
      cases hblank : isBlank c with
      | false => rfl
      | true => rw [isWord_of_isBlank hblank] at hc; cases hc
    have hbrace : c ≠ '{' := by
      rintro rfl
      revert hc
      decide
    simp [hblank, hbrace]

/-- The test, with blanks behind it, is the front of an `if` statement. -/
theorem isFront_of_spelled (h : Spelled (guardTokens use) t) {g} (hg : isAllBlank g = true) :
    IsFront "if" (t ++ g) := by
  have htokens : guardTokens use =
      (["if", "("] : List Text) ++
      ((use ++ (["!=", "null"] : List Text)) ++ ([")"] : List Text)) := by simp [guardTokens]
  rw [htokens] at h
  obtain ⟨u, v, rfl, ⟨rest, rfl, g1, rest1, hg1, rfl, rfl⟩, hv⟩ := h.split (by simp)
  obtain ⟨inner, last, rfl, hinner, g2, rest2, hg2, rfl, rfl⟩ := hv.split
  have hhead : IsHead ('(' :: ((inner ++ g2) ++ [')'])) := by
    refine ⟨inner ++ g2, owedAfter_of_brackets_nil ?_ [], rfl⟩
    rw [brackets_append, brackets_spaced hinner, flatten_append, brackets_append, brackets_use hname.word huse]
    exact brackets_of_blank (all_eq_true.1 hg2)
  have hfront := @IsFront.mk "if" _ _ _ hg1 hhead hg
  simpa using hfront

end Statements

theorem isBlock_of_spelled {ws t} (hws : WellBracketed ws.flatten) (h : Spelled (blockTokens ws) t) :
    IsBlock t := by
  obtain ⟨u, g, rfl, ⟨rest, rfl, hrest⟩, hg⟩ := h.split_last (by simp)
  refine ⟨rest ++ g, ?_, by simp⟩
  have hblank : brackets g = [] := brackets_of_blank (all_eq_true.1 hg)
  rw [WellBracketed, ← owedAfter_brackets, brackets_append, brackets_spaced hrest, hblank, append_nil,
    owedAfter_brackets]
  exact hws

variable {masked : Text} {stop j : Nat} {c : Char}

/-- An `if` statement without `else` is read to its end, unless an `else` follows it. -/
theorem statementEnd_ifOnly_iff {f t i} (hf : IsFront "if" f) (hat : Stands masked i (f ++ t))
    (hstop : i + (f ++ t).length ≤ stop) (hsolid : Solid masked stop (i + f.length))
    (hinner : statementEnd masked stop (i + f.length) = .ok (i + (f ++ t).length)) :
    statementEnd masked stop i = .ok (i + (f ++ t).length) ↔
      nextWord masked stop (i + (f ++ t).length) ≠ "else" := by
  have hle : i + f.length ≤ i + (f ++ t).length := by rw [length_append]; omega
  rw [statementEnd_control (by decide) hf (stands_append.1 hat).1 (by omega) hsolid hinner]
  by_cases helse : nextWord masked stop (i + (f ++ t).length) = "else"
  · rw [if_pos ⟨rfl, helse⟩]
    refine ⟨fun h => ?_, fun hne => absurd helse hne⟩
    -- the branch behind `else` ends behind it
    simp only [innerEnd] at h
    split at h
    · have hend := (statementEnd_spec h).1
      have h1 := le_skipBlanks masked (skipBlanks masked (i + (f ++ t).length) stop + 4) stop
      have h2 := le_skipBlanks masked (i + (f ++ t).length) stop
      omega
    · cases h
  · rw [if_neg fun h => helse h.2]
    exact ⟨fun _ => helse, fun _ => rfl⟩

/-- A teardown is a statement, and is read to its end unless it is guarded and an `else` follows it. -/
theorem statementEnd_teardown_iff {name masked t guarded tokens stop i}
    (hname : IsPlainName name) (htokens : IsTeardown name guarded tokens) (ht : Spelled tokens t)
    (hat : Stands masked i t) (hstop : i + t.length ≤ stop) :
    IsStatement t ∧ (statementEnd masked stop i = .ok (i + t.length) ↔
      ¬(guarded = true ∧ nextWord masked stop (i + t.length) = "else")) := by
  have simple : ∀ {code : Text}, t = code ++ [';'] → IsSimple code → IsStatement t ∧
      (statementEnd masked stop i = .ok (i + t.length) ↔
        ¬(false = true ∧ nextWord masked stop (i + t.length) = "else")) := by
    rintro code rfl hsimple
    refine ⟨.basic (.simple hsimple), ?_⟩
    simp [statementEnd_of_isSimple hsimple hat hstop]
  have conditional : ∀ {f g u : Text}, t = f ++ (g ++ u) → IsFront "if" (f ++ g) → IsStatement u →
      (∀ {j}, Stands masked j u → j + u.length ≤ stop → statementEnd masked stop j = .ok (j + u.length)) →
      IsStatement t ∧ (statementEnd masked stop i = .ok (i + t.length) ↔
        ¬(true = true ∧ nextWord masked stop (i + t.length) = "else")) := by
    intro f g u heq hf hu hinner
    rw [← append_assoc] at heq
    subst heq
    obtain ⟨o, hsettled⟩ := exists_settled hu
    have hatu := (stands_append.1 hat).2
    refine ⟨.control (by decide) hf hu, ?_⟩
    have hend := @hinner (i + (f ++ g).length) hatu (by rw [length_append] at hstop; omega)
    rw [Nat.add_assoc, ← length_append] at hend
    simpa using statementEnd_ifOnly_iff hf hat hstop (hsettled.solid hatu) hend
  cases htokens with
  | call huse =>
    obtain ⟨code, heq, hsimple⟩ := isSimple_of_spelled hname huse (.inl rfl) ht
    exact simple heq hsimple
  | reset huse =>
    obtain ⟨code, heq, hsimple⟩ := isSimple_of_spelled hname huse (.inr rfl) ht
    exact simple heq hsimple
  | guarded huse huse' =>
    obtain ⟨f, v, rfl, hf, hv⟩ := ht.split (by simp [guardTokens])
    obtain ⟨g, u, hg, rfl, hu⟩ := hv.spelled (by simp [endTokens])
    obtain ⟨code, rfl, hsimple⟩ := isSimple_of_spelled hname huse' (.inl rfl) hu
    exact conditional rfl (isFront_of_spelled hname huse hf hg) (.basic (.simple hsimple))
      (statementEnd_of_isSimple hsimple)
  | guardedBlock huse huse' =>
    obtain ⟨f, v, rfl, hf, hv⟩ := ht.split (by simp [guardTokens])
    obtain ⟨g, u, hg, rfl, hu⟩ := hv.spelled (by simp [blockTokens])
    have hblock := isBlock_of_spelled ((IsTeardown.call huse').wellBracketed hname.word) hu
    exact conditional rfl (isFront_of_spelled hname huse hf hg) (.basic (.block hblock)) fun hatu _ =>
      statementEnd_block hblock hatu

/-! ## Where statements begin -/

/-- A statement of the block that `stop` closes begins at the offset: the first of the block, one behind another, or
one that another holds behind its head, behind `else` or behind `do`. -/
inductive Begins (masked : Text) : (stop i : Nat) → Prop where
  | first {o stop : Nat} (ho : masked[o]? = some '{') (hstop : partner masked o = .ok stop) :
      Begins masked stop (skipBlanks masked (o + 1) stop)
  | next {stop i j : Nat} (hi : Begins masked stop i) (hj : statementEnd masked stop i = .ok j) :
      Begins masked stop (skipBlanks masked j stop)
  | behindHead {stop i k close : Nat} {word rest : Text} (hi : Begins masked stop i)
      (hword : name? (masked.drop i) = some (word, rest)) (hcontrol : word ∈ controlWords)
      (hk : skipBlanks masked (masked.length - rest.length) stop = k) (hparen : masked[k]? = some '(')
      (hclose : partner masked k = .ok close) : Begins masked stop (skipBlanks masked (close + 1) stop)
  | behindElse {stop i j : Nat} (hi : Begins masked stop i) (hj : statementEnd masked stop i = .ok j)
      (helse : nextWord masked stop j = "else") :
      Begins masked stop (skipBlanks masked (skipBlanks masked j stop + 4) stop)
  | behindDo {stop i : Nat} {rest : Text} (hi : Begins masked stop i)
      (hword : name? (masked.drop i) = some ("do".toList, rest)) :
      Begins masked stop (skipBlanks masked (i + 2) stop)

/-- No longer name or expression ends in what starts at the offset: no character of a name and, blanks apart, no dot
stands in front of it. -/
def Unqualified (masked : Text) (i : Nat) : Prop :=
  (∀ c, charBefore masked i = some c → isNamePart c = false) ∧
    ∀ k, masked[k]? = some '.' → k < i → ¬BlankWithin masked (k + 1) i

theorem unqualified_skipBlanks (hj : masked[j]? = some c) (hblank : isBlank c = false) (hdot : c ≠ '.')
    (hpart : isNamePart c = false ∨ j + 1 < skipBlanks masked (j + 1) stop) :
    Unqualified masked (skipBlanks masked (j + 1) stop) := by
  have hle := le_skipBlanks masked (j + 1) stop
  have hbetween := blankWithin_skipBlanks masked (j + 1) stop
  refine ⟨fun d hd => ?_, fun k hk hlt hwithin => ?_⟩
  · obtain ⟨n, hn⟩ : ∃ n, skipBlanks masked (j + 1) stop = n + 1 := ⟨skipBlanks masked (j + 1) stop - 1, by omega⟩
    rw [hn, charBefore] at hd
    by_cases hjn : j = n
    · subst hjn
      rw [hj, Option.some.injEq] at hd
      exact hd ▸ hpart.resolve_right (by omega)
    · exact isNamePart_of_isBlank (hbetween n d (by omega) (by omega) hd)
  · by_cases hkj : k < j
    · have := hwithin j c (by omega) (by omega) hj
      simp [hblank] at this
    · by_cases heq : k = j
      · subst heq
        exact hdot (Option.some.inj (hj.symm.trans hk))
      · have := hbetween k '.' (by omega) hlt hk
        exact absurd this (by decide)

theorem unqualified_of_endsCode (hj : 0 < j) (h : EndsCode masked j) :
    Unqualified masked (skipBlanks masked j stop) := by
  obtain ⟨c, hc, hget⟩ := h
  obtain ⟨n, rfl⟩ : ∃ n, j = n + 1 := ⟨j - 1, by omega⟩
  have hclass : isBlank c = false ∧ c ≠ '.' ∧ isNamePart c = false := by
    simp only [closers, mem_cons, not_mem_nil, or_false] at hc
    rcases hc with rfl | rfl | rfl | rfl <;> decide
  exact unqualified_skipBlanks hget hclass.1 hclass.2.1 (.inl hclass.2.2)

theorem unqualified_behind_word {w : Text} {k} (hw : (masked.drop k).takeWhile isWord = w) (hne : w ≠ [])
    (hc : masked[skipBlanks masked (k + w.length) stop]? = some c) (hcode : isWord c = true) :
    Unqualified masked (skipBlanks masked (k + w.length) stop) := by
  have hpos := length_pos_iff.2 hne
  obtain ⟨hrun, hend, -⟩ := takeWhile_run isWord (masked.drop k)
  rw [hw] at hrun hend
  obtain ⟨d, hd, hword⟩ := hrun (w.length - 1) (by omega)
  rw [getElem?_drop] at hd
  have hsolid : isBlank d = false := by
    cases hblank : isBlank d with
    | false => rfl
    | true => rw [isWord_of_isBlank hblank] at hword; cases hword
  have hdot : d ≠ '.' := by
    rintro rfl
    revert hword
    decide
  have hle := le_skipBlanks masked (k + w.length) stop
  have hlt : k + w.length < skipBlanks masked (k + w.length) stop := by
    refine Nat.lt_of_le_of_ne hle fun heq => ?_
    rw [← heq] at hc
    have hstop := hend c (by rw [getElem?_drop]; exact hc)
    simp [hcode] at hstop
  have heq : k + w.length = k + (w.length - 1) + 1 := by omega
  rw [heq] at hlt ⊢
  exact unqualified_skipBlanks hd hsolid hdot (.inr hlt)

theorem Begins.unqualified {masked stop i c} (h : Begins masked stop i)
    (hc : masked[i]? = some c) (hword : isWord c = true) : Unqualified masked i := by
  cases h with
  | first ho => exact unqualified_skipBlanks ho (by decide) (by decide) (.inl (by decide))
  | next _ hj =>
    obtain ⟨hlt, -, hends⟩ := statementEnd_spec hj
    exact unqualified_of_endsCode (by omega) hends
  | behindHead _ _ _ _ _ hclose => exact unqualified_of_endsCode (by omega) (endsCode_partner hclose)
  | behindElse _ _ helse => exact unqualified_behind_word helse (by decide) hc hword
  | behindDo _ hname =>
    exact unqualified_behind_word (takeWhile_isWord_of_name? hname (by decide)) (by decide) hc hword

/-- What is taken out for an unbinder is spelled with its name, or with `this` and its name, and is a statement. The
reader of statements goes from its start to its end, unless it is guarded and an `else` follows. Where a statement
begins at its start, no longer expression ends in it. -/
theorem teardown_whole {plan : Plan} {f : Java.Field} {name : Text} {layouts : Keyed Text Bytes} {text : Text}
    {out : Outcome} {draft : Edit.Draft} {kept : List Edit}
    (happlied : Applied plan.options layouts text out plan.unit draft kept) (hclears : plan.Clears f)
    (hname : name ∈ f.names) (hother : name ∉ statementWords) {m : Java.Method} {b : Java.Block} {s : Span}
    (hm : m ∈ plan.type.methods) (hb : m.body = some b) (hs : s ∈ unbinderStatements plan.unit.masked name b) :
    (∀ i, s.covers i = true → ∀ c, (c, .source i) ∉ Edit.origins text (draft.effective kept)) ∧
    ∃ guarded tokens, IsTeardown name guarded tokens ∧ Spelled tokens (slice plan.unit.masked s.start s.stop) ∧
      Java.IsStatement (slice plan.unit.masked s.start s.stop) ∧
      ∀ stop, s.stop ≤ stop →
        (statementEnd plan.unit.masked stop s.start = .ok s.stop ↔
          ¬(guarded = true ∧ nextWord plan.unit.masked stop s.stop = "else".toList)) ∧
        (Begins plan.unit.masked stop s.start → Unqualified plan.unit.masked s.start) := by
  obtain ⟨htext, hunit⟩ := Java.placed_of_readUnit happlied.read
  have htype := hunit.types _ (mem_classesOf hclears.type_mem)
  have hbody := Java.partner_lt_length ((htype.method hm).2.2.2.body b hb).1
  obtain ⟨hne, hword⟩ := isWord_of_mem_names (htype.field hclears.field_mem).2.2.2.2 hname
  have hplain : IsPlainName name := ⟨hne, hword, hother⟩
  have hmem : s ∈ plan.teardowns f := by
    refine mem_cons_of_mem _ (mem_flatMap.2 ⟨name, hname, mem_flatMap.2 ⟨b, ?_, hs⟩⟩)
    exact mem_filterMap.2 ⟨m, hm, hb⟩
  refine ⟨fun i hi => happlied.not_copied hclears.type_mem (fun _ => hclears.removal_mem hmem) hi, ?_⟩
  obtain ⟨-, hle, hstop, guarded, tokens, htokens, hspelled⟩ :=
    spelled_of_mem_unbinderStatements (Nat.le_of_lt hbody.1) (Nat.le_of_lt hbody.2) hs
  have hat : Stands plan.unit.masked s.start (slice plan.unit.masked s.start s.stop) := Java.stands_slice _ _ _
  have hlen : s.start + (slice plan.unit.masked s.start s.stop).length = s.stop := by
    rw [length_slice]
    omega
  have hends := fun {stop} (hle : s.stop ≤ stop) =>
    @statementEnd_teardown_iff _ _ _ _ _ stop s.start hplain htokens hspelled hat (by omega)
  refine ⟨guarded, tokens, htokens, hspelled, (hends (Nat.le_refl _)).1, fun stop hstop => ⟨?_, fun hbegins => ?_⟩⟩
  · have hend := (hends hstop).2
    rwa [hlen] at hend
  · obtain ⟨d, hd, hword⟩ := htokens.head? hplain.word hplain.ne_nil hspelled
    refine hbegins.unqualified ?_ hword
    rw [head?_eq_getElem?, getElem?_slice, Nat.add_zero] at hd
    split at hd
    · exact hd
    · cases hd

theorem teardown_whole_guardedTeardown :
    ∃ (plan : Plan) (f : Java.Field) (out : Outcome) (draft : Edit.Draft) (kept : List Edit),
      Applied plan.options [] guardedTeardown out plan.unit draft kept ∧ plan.Clears f ∧ "u".toList ∈ f.names ∧
      Begins plan.unit.masked 125 92 ∧ Unqualified plan.unit.masked 92 ∧
      statementEnd plan.unit.masked 125 92 = .ok 123 ∧
      ∀ i, 92 ≤ i → i < 123 → ∀ c, (c, .source i) ∉ Edit.origins guardedTeardown (draft.effective kept) := by
  obtain ⟨plan, f, out, draft, kept, happlied, hclears, hname, ⟨m, hm, hb⟩, hs, hbrace, hclose, hskip, helse⟩ :=
    exists_clears_guardedTeardown (P := fun plan f => "u".toList ∈ f.names ∧
      (∃ m ∈ plan.type.methods, m.body = some ⟨88, 125⟩) ∧
      ⟨92, 123⟩ ∈ unbinderStatements plan.unit.masked "u" ⟨88, 125⟩ ∧ plan.unit.masked[88]? = some '{' ∧
      125 ∈ (partner plan.unit.masked 88).toOption ∧ skipBlanks plan.unit.masked 89 125 = 92 ∧
      nextWord plan.unit.masked 125 123 ≠ "else".toList) <| by
      unfold guardedTeardown
      repeat rewrite [String.toList_ofList]
      decide +kernel
  have hbegins : Begins plan.unit.masked 125 92 := hskip ▸ .first hbrace (toOption_eq_some.1 hclose)
  obtain ⟨hgone, guarded, tokens, -, -, -, hends⟩ := teardown_whole happlied hclears hname (by decide) hm hb hs
  obtain ⟨hend, hunqualified⟩ := hends 125 (by decide)
  refine ⟨plan, f, out, draft, kept, happlied, hclears, hname, hbegins, hunqualified hbegins,
    hend.2 fun h => helse h.2, fun i h1 h2 => hgone i (Span.covers_iff.2 ⟨h1, h2⟩)⟩

/-- A class that unbinds other things whose names end as that of its unbinder. -/
def otherReceivers : Text :=
  "import butterknife.*;\nclass A \x7b\n @BindView(R.id.t)\n V t;\n Unbinder u;\n void onDestroy() \x7b\n" ++
    "  menu.unbind();\n  x.u.unbind();\n \x7d\n\x7d\n"

theorem convert_otherReceivers : ∃ out, convert toBinding [] otherReceivers = .ok out ∧
    out.text = "class A \x7b\n V t;\n void onDestroy() \x7b\n  men\n  x.\n \x7d\n\x7d\n".toList := by
  apply exists_convert
  unfold otherReceivers
  repeat rewrite [String.toList_ofList]
  decide +kernel

end Rebind.Conversion
