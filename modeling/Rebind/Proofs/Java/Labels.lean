/-
Statements with labels.
 A label hides the word that a statement starts with, so the reader takes what it labels for code that a semicolon ends.
A body is cut into its statements if and only if each labelled one is such code (`statements_labelled_iff`).
-/
import Rebind.Proofs.Java.Heads
import Rebind.Proofs.Java.Splitting

namespace Rebind.Java

open Text List Option

/-! ## Labels -/

/-- A name and a colon, with blanks behind both. -/
inductive IsLabel : Text → Prop where
  | mk {name g g' : Text} (hname : name ≠ []) (hpart : name.all isNamePart = true)
      (hword : name.takeWhile isWord ∉ statementWords) (hg : isAllBlank g = true) (hg' : isAllBlank g' = true) :
      IsLabel (name ++ g ++ ':' :: g')

/-- A statement behind blanks and a label, or without the label. -/
structure LabelledStatement where
  gap : Text
  label : Text
  code : Text
  isBlank_gap : isAllBlank gap = true
  isLabel : label = [] ∨ IsLabel label
  isStatement : IsStatement code

def LabelledStatement.part (s : LabelledStatement) : Text × Text := (s.gap, s.label ++ s.code)

variable {label t u masked : Text} {i stop : Nat}

theorem Unended.append (ht : Unended t) (hu : Unended u) : Unended (t ++ u) where
  nests := ht.nests.append hu.nests
  goesOn := by
    intro front back h hfront
    rcases append_eq_append_iff.1 h with ⟨w, rfl, hw⟩ | ⟨w, hw, hback⟩
    · refine hu.goesOn w back hw ?_
      rw [WellBracketed, owedAfter_append, show owedAfter [] t = some [] from ht.nests, bind_some] at hfront
      exact hfront
    · cases w with
      | nil =>
        exact hu.goesOn [] back (by simpa using hback.symm) rfl
      | cons c w =>
        obtain ⟨rfl, rfl⟩ : ';' = c ∧ back = w ++ u := by simpa using hback
        exact ht.goesOn front w hw hfront

theorem IsLabel.unended (h : IsLabel label) : Unended label := by
  obtain ⟨-, hpart, -, hg, hg'⟩ := h
  have hname := unended_of_forall fun c hc => by
    have hpart := all_eq_true.1 hpart c hc
    refine ⟨not_isBracket_of_isNamePart hpart, ?_⟩
    rintro rfl
    revert hpart
    decide
  exact (hname.append (unended_of_blank hg)).append
    ((show Unended [':'] by decide).append (unended_of_blank hg'))

theorem IsLabel.takeWhile (h : IsLabel label) (rest : Text) : (label ++ rest).takeWhile isWord ∉ statementWords := by
  obtain @⟨name, g, g', -, -, hword, hg, -⟩ := h
  rw [append_assoc, cons_append, takeWhile_before (by decide)]
  cases g with
  | nil => rwa [append_nil]
  | cons c g => rwa [takeWhile_before (isWord_of_isBlank (all_eq_true.1 hg c (by simp)))]

theorem IsLabel.head (h : IsLabel label) : ∃ c rest, label = c :: rest ∧ isBlank c = false ∧ c ≠ '{' ∧ c ≠ ';' := by
  obtain @⟨name, g, g', hname, hpart, -, -, -⟩ := h
  obtain ⟨c, name, rfl⟩ := exists_cons_of_ne_nil hname
  have hc : isNamePart c = true := all_eq_true.1 hpart c (by simp)
  refine ⟨c, _, rfl, ?_, ?_, ?_⟩
  · cases hblank : isBlank c with
    | false => rfl
    | true => rw [isNamePart_of_isBlank hblank] at hc; cases hc
  · rintro rfl
    revert hc
    decide
  · rintro rfl
    revert hc
    decide

/-! ## Where a labelled statement ends -/

/-- The scan goes no further than to a semicolon that no bracket encloses. -/
theorem exists_semicolonAfter? {u} (hu : WellBracketed u) (pos : Nat) (rest : Text) :
    ∃ j ≤ pos + u.length + 1, semicolonAfter? 0 pos (u ++ ';' :: rest) = some j := by
  by_cases h : Unended u
  · exact ⟨_, Nat.le_refl _, by rw [h.runsOn]; simp [semicolonAfter?]⟩
  · obtain ⟨v, w, rfl, hv⟩ : ∃ v w, u = v ++ ';' :: w ∧ WellBracketed v := by
      apply Classical.byContradiction
      intro hnot
      exact h ⟨hu, fun v w hvw hv => hnot ⟨v, w, hvw, hv⟩⟩
    obtain ⟨j, hj, hfound⟩ := exists_semicolonAfter? hv pos (w ++ ';' :: rest)
    refine ⟨j, ?_, by simpa using hfound⟩
    simp only [length_append, length_cons]
    omega
termination_by u.length

theorem unended_of_statementEnd (hlabel : IsLabel label) (ht : IsStatement t) (hat : Stands masked i (label ++ t))
    (hstop : i + (label ++ t).length ≤ stop) (h : statementEnd masked stop i = .ok (i + (label ++ t).length)) :
    ∃ code, Unended code ∧ t = code ++ [';'] := by
  obtain ⟨c, rest, hc, -, hbrace, hsemi⟩ := hlabel.head
  have hfirst : masked[i]? = some c := by
    rw [hc] at hat
    exact (stands_cons.1 hat).1
  rw [statementEnd_simple (by simp [hfirst]) (by simpa [hfirst] using hbrace) (by simpa [hfirst] using hsemi)
    (by rw [hat.drop, append_assoc]; exact hlabel.takeWhile _)] at h
  -- the statement ends with the semicolon that the scan finds
  obtain ⟨hlt, -, -, hend⟩ := declarationEnd_spec h
  obtain ⟨o, hsettled⟩ := exists_settled ht
  obtain ⟨code, d, rfl⟩ : ∃ code d, t = code ++ [d] := ⟨_, _, (dropLast_append_getLast hsettled.ne_nil).symm⟩
  have hat' := hat
  rw [← append_assoc] at hat'
  have hlast := (stands_append.1 hat').2
  have hlen : (label ++ (code ++ [d])).length = (label ++ code).length + 1 := by simp [Nat.add_assoc]
  rw [hlen, ← Nat.add_assoc, Nat.add_sub_cancel, (stands_cons.1 hlast).1] at hend
  obtain rfl : d = ';' := some.inj hend
  refine ⟨code, ⟨?_, ?_⟩, rfl⟩
  · have hnests : owedAfter [] (code ++ [';']) = some [] := ht.wellBracketed
    rw [owedAfter_append] at hnests
    obtain ⟨owed, hcode, hsemi⟩ := bind_eq_some_iff.1 hnests
    rw [WellBracketed, hcode, ← hsemi, owedAfter_of_brackets_nil rfl]
  · rintro u v rfl hu
    -- an earlier semicolon outside of brackets would have ended the scan
    obtain ⟨j, hj, hfound⟩ := exists_semicolonAfter? (hlabel.unended.nests.append hu) i
      (v ++ ';' :: slice masked (i + (label ++ (u ++ ';' :: v ++ [';'])).length) stop)
    have hslice := hat.slice_stop hstop
    simp only [append_assoc, cons_append, nil_append] at hfound hslice h hj
    rw [declarationEnd, hslice, hfound] at h
    simp only [Except.ok.injEq, length_append, length_cons, length_nil] at h hj
    omega

theorem isStatement_labelled {code} (hlabel : IsLabel label) (hcode : Unended code) :
    IsStatement (label ++ (code ++ [';'])) := by
  rw [← append_assoc]
  refine .basic (.simple ⟨hlabel.unended.append hcode, hlabel.takeWhile code, ?_⟩)
  obtain ⟨c, rest, rfl, hblank, hbrace, -⟩ := hlabel.head
  simp [hblank, hbrace]

theorem exists_statementsAt (text : Text) {last} : ∀ {parts i},
    Stands masked i (spread parts last) → ∀ p ∈ parts, ∃ s ∈ statementsAt text i parts,
      Stands masked s.span.start p.2 ∧ s.span.stop = s.span.start + p.2.length ∧
        s.span.stop ≤ i + (spread parts last).length
  | (gap, code) :: parts, i, hat, p, hp => by
    obtain ⟨-, hatcode, hatrest⟩ := hat.split
    simp only [spread, length_append, ← Nat.add_assoc] at hatrest ⊢
    rcases mem_cons.1 hp with rfl | hp
    · exact ⟨_, mem_cons_self, hatcode, rfl, Nat.le_add_right _ _⟩
    · obtain ⟨s, hs, hat, hstop, hle⟩ := exists_statementsAt text hatrest p hp
      exact ⟨s, mem_cons_of_mem _ hs, hat, hstop, hle⟩

/-- A body of statements, some of them labelled, is cut into these if and only if each labelled one is code that its
first semicolon outside of brackets ends. -/
theorem statements_labelled_iff {text : Text} {unit : CompilationUnit} {type : TypeDecl} {m : Method} {b : Block}
    (hread : readUnit text = .ok unit) (htype : type ∈ unit.types) (hm : m ∈ type.methods) (hb : m.body = some b)
    {parts : List LabelledStatement} {last : Text} (hlast : isAllBlank last = true)
    (hbody : slice unit.masked (b.opening + 1) b.closing = spread (parts.map (·.part)) last) :
    statements unit m = .ok (statementsAt unit.text (b.opening + 1) (parts.map (·.part))) ↔
      ∀ s ∈ parts, s.label ≠ [] → ∃ code, Unended code ∧ s.code = code ++ [';'] := by
  obtain ⟨hat, hstop, hcloser⟩ := stands_body hread htype hm hb hbody
  rw [statements, hb]
  constructor
  · intro h s hs hne
    obtain ⟨found, hfound, hats, hends, hle⟩ := exists_statementsAt unit.text hat s.part (mem_map_of_mem hs)
    obtain ⟨-, -, -, -, -, hend, -⟩ :=
      mem_statementsFrom (P := fun _ => True) (fun _ _ _ => trivial) trivial h found hfound
    rw [hends] at hend
    exact unended_of_statementEnd (s.isLabel.resolve_left hne) s.isStatement hats
      (by rw [hends] at hle; exact hstop ▸ hle) hend
  · intro h
    refine statementsFrom_of_spread hlast hcloser (fun p hp => ?_) hat hstop
    obtain ⟨s, hs, rfl⟩ := mem_map.1 hp
    refine ⟨s.isBlank_gap, ?_⟩
    change IsStatement (s.label ++ s.code)
    by_cases hne : s.label = []
    · rw [hne]
      exact s.isStatement
    · obtain ⟨code, hcode, heq⟩ := h s hs hne
      rw [heq]
      exact isStatement_labelled (s.isLabel.resolve_left hne) hcode

/-- A body with a labelled loop around a block, and a statement behind it. -/
def labelledText : Text := "class A \x7b void f() \x7b a: while (b) \x7b g(); \x7d h(); \x7d \x7d"

def labelledLoop : LabelledStatement where
  gap := " "
  label := "a: "
  code := "while (b) \x7b g(); \x7d"
  isBlank_gap := rfl
  isLabel := .inr (@IsLabel.mk "a" [] " " (by decide) (by decide) (by decide) rfl rfl)
  isStatement := .control (by decide)
    (@IsFront.mk "while" " " "(b)" " " rfl ⟨"b", by decide, rfl⟩ rfl)
    (.basic (.block ⟨" g(); ", by decide, rfl⟩))

def labelledParts : List LabelledStatement :=
  [labelledLoop, ⟨" ", [], "h();", rfl, .inl rfl, .basic (@IsBasic.simple "h()" ⟨by decide, by decide, by decide⟩)⟩]

theorem exists_labelledLoop : ∃ unit ∈ (readUnit labelledText).toOption, ∃ type ∈ unit.types, ∃ m ∈ type.methods,
    ∃ b ∈ m.body, slice unit.masked (b.opening + 1) b.closing = spread (labelledParts.map (·.part)) " " ∧
      (statements unit m).toOption = some [⟨"a: while (b) \x7b g(); \x7d h();", ⟨21, 47⟩⟩] := by
  decide +kernel

theorem statements_labelled_iff_loop : ∃ unit type m b, readUnit labelledText = .ok unit ∧ type ∈ unit.types ∧
    m ∈ type.methods ∧ m.body = some b ∧
    statements unit m ≠ .ok (statementsAt unit.text (b.opening + 1) (labelledParts.map (·.part))) := by
  obtain ⟨unit, hread, type, htype, m, hm, b, hb, hbody, -⟩ := exists_labelledLoop
  have hread := toOption_eq_some.1 hread
  refine ⟨unit, type, m, b, hread, htype, hm, hb, fun h => ?_⟩
  obtain ⟨code, -, hcode⟩ := (statements_labelled_iff hread htype hm hb rfl hbody).1 h labelledLoop mem_cons_self
    (by decide)
  have hlast := congrArg List.getLast? hcode
  simp [labelledLoop] at hlast

/-- The labelled loop and the statement behind it are taken for one statement. -/
theorem statements_labelledText : ∃ unit type m, readUnit labelledText = .ok unit ∧ type ∈ unit.types ∧
    m ∈ type.methods ∧ statements unit m = .ok [⟨"a: while (b) \x7b g(); \x7d h();", ⟨21, 47⟩⟩] := by
  obtain ⟨unit, hread, type, htype, m, hm, _, _, _, hfound⟩ := exists_labelledLoop
  exact ⟨unit, type, m, toOption_eq_some.1 hread, htype, hm, toOption_eq_some.1 hfound⟩

end Rebind.Java
