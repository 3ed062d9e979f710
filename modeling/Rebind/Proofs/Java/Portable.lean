/-
Code that is moved together with its line breaks.

When code is indented, a piece in the middle of it keeps its characters, but its line breaks are written anew with what
its lines are indented by (`reflow`). Of a piece that stays closed then (`Portable`) it does not matter whether its
comments and literals hold line breaks.
-/
import Rebind.Proofs.Java.Closed

namespace Rebind.Java

open Text List

variable {u : Text}

/-! ## Line breaks within code -/

/-- A line of blanks comes first, and a line break behind it. -/
def startsBlankLine : Text → Bool
  | [] => false
  | c :: t => isLineBreak c || (isBlank c && startsBlankLine t)

/-- What is put in front of the line that comes first. -/
def padFor (pad t : Text) : Text := if startsBlankLine t then [] else pad

/-- What becomes of a piece of code when the code is indented, if the line it starts on is not blank before it and the
one it ends on is not blank behind it. -/
def reflow (pad : Text) : Text → Text
  | [] => []
  | '\r' :: '\n' :: t => '\n' :: (padFor pad t ++ reflow pad t)
  | c :: t =>
    if isLineBreak c then '\n' :: (padFor pad t ++ reflow pad t) else c :: reflow pad t

theorem not_isLineBreak_of_not_isBlank {c} (h : isBlank c = false) : isLineBreak c = false := by
  cases hc : isLineBreak c with
  | false => rfl
  | true => rw [isBlank_of_isLineBreak hc] at h; cases h

theorem reflow_cons {c} (hc : isLineBreak c = false) (pad t : Text) : reflow pad (c :: t) = c :: reflow pad t := by
  have hreturn : c ≠ '\r' := by
    rintro rfl
    revert hc
    decide
  rw [reflow.eq_def]
  split
  · next heq => cases heq
  · next heq => exact absurd (List.cons.inj heq).1 hreturn
  · next d s _ heq =>
    obtain ⟨rfl, rfl⟩ := List.cons.inj heq
    rw [if_neg (by simp [hc])]

theorem reflow_append_of_forall {w} (hw : ∀ c ∈ w, isLineBreak c = false) (pad t : Text) :
    reflow pad (w ++ t) = w ++ reflow pad t := by
  induction w with
  | nil => rfl
  | cons c w ih => rw [cons_append, reflow_cons (hw c (by simp)), ih (forall_mem_cons.1 hw).2, cons_append]

theorem reflow_lineBreak {c} (hc : isLineBreak c = true) (pad t : Text) :
    reflow pad (c :: t) = '\n' :: padFor pad t ++ reflow pad t ∨ reflow pad (c :: t) = reflow pad t := by
  rw [reflow.eq_def pad (c :: t)]
  split
  · next heq => cases heq
  · next s heq =>
    obtain ⟨-, rfl⟩ := List.cons.inj heq
    have hnext : reflow pad ('\n' :: s) = '\n' :: (padFor pad s ++ reflow pad s) := by simp [reflow, isLineBreak]
    exact .inr hnext.symm
  · next d s _ heq =>
    obtain ⟨rfl, rfl⟩ := List.cons.inj heq
    rw [if_pos hc]
    exact .inl rfl

variable {d : Char} {line t : Text}

theorem startsBlankLine_append (hd : isBlank d = false) (t v : Text) :
    startsBlankLine (t ++ d :: v) = startsBlankLine t := by
  induction t with
  | nil => simp [startsBlankLine, hd, not_isLineBreak_of_not_isBlank hd]
  | cons c t ih => simp only [cons_append, startsBlankLine, ih]

theorem reflow_append (hd : isBlank d = false) (pad u v : Text) :
    reflow pad (u ++ d :: v) = reflow pad u ++ reflow pad (d :: v) := by
  fun_induction reflow pad u with
  | case1 => rfl
  | case2 t ih => rw [cons_append, cons_append, reflow, padFor, startsBlankLine_append hd, ih, padFor]; simp
  | case3 c t hnot hc ih =>
    rw [cons_append, reflow, if_pos hc, padFor, startsBlankLine_append hd, ih, padFor]
    · simp
    · rintro s rfl
      cases t with
      | nil =>
        intro heq
        obtain ⟨rfl, -⟩ := List.cons.inj heq
        revert hd
        decide
      | cons e t =>
        intro heq
        obtain ⟨rfl, -⟩ := List.cons.inj heq
        exact hnot t rfl rfl
  | case4 c t hnot hc ih => rw [cons_append, reflow_cons (by simpa using hc), ih, cons_append]

theorem startsBlankLine_lineBreak (hline : ∀ c ∈ line, isLineBreak c = false) {c} (hc : isLineBreak c = true)
    (t : Text) : startsBlankLine (line ++ c :: t) = isAllBlank line := by
  induction line with
  | nil => simp [startsBlankLine, hc, isAllBlank]
  | cons d line ih =>
    rw [cons_append, startsBlankLine, hline d (by simp), ih (forall_mem_cons.1 hline).2]
    simp [isAllBlank]

theorem startsBlankLine_of_forall (hline : ∀ c ∈ line, isLineBreak c = false) : startsBlankLine line = false := by
  induction line with
  | nil => rfl
  | cons c line ih => simp [startsBlankLine, hline c (by simp), ih (forall_mem_cons.1 hline).2]

theorem linesFrom_ne_nil (h : line ++ t ≠ []) : linesFrom line t ≠ [] := by
  fun_induction linesFrom line t with
  | case1 line hline => simp_all
  | case2 line hline | case3 line t ih | case4 line c t hnot hc ih => simp
  | case5 line c t hnot hc ih => exact ih (by simp)

theorem getLast?_of_append_cons {c} (h : (u ++ c :: t).getLast? = some d) (hc : c ≠ d) :
    t.getLast? = some d := by
  cases t with
  | nil => simp [hc] at h
  | cons e t => simpa using h

theorem join_linesFrom (hd : isBlank d = false) (pad line t : Text) (hline : ∀ c ∈ line, isLineBreak c = false)
    (hlast : (line.reverse ++ t).getLast? = some d) :
    join ['\n'] ((linesFrom line t).map fun l => if isAllBlank l then l else pad ++ l) =
      padFor pad (line.reverse ++ t) ++ line.reverse ++ reflow pad t := by
  -- a line that a line break ends, and the lines behind it
  have hbreak : ∀ (line t rest : Text) (c : Char), (∀ c ∈ line, isLineBreak c = false) → isLineBreak c = true →
      t ≠ [] → join ['\n'] ((linesFrom [] t).map fun l => if isAllBlank l then l else pad ++ l) =
        padFor pad t ++ reflow pad t →
      join ['\n'] ((line.reverse :: linesFrom [] t).map fun l => if isAllBlank l then l else pad ++ l) =
        padFor pad (line.reverse ++ c :: rest) ++ line.reverse ++
          '\n' :: (padFor pad t ++ reflow pad t) := by
    intro line t rest c hline hc ht ih
    have hlead : padFor pad (line.reverse ++ c :: rest) = if isAllBlank line.reverse then [] else pad := by
      rw [padFor, startsBlankLine_lineBreak (by simpa using hline) hc]
    rw [map_cons, join_cons _ _ (by simpa using linesFrom_ne_nil (t := t) (by simpa using ht)), ih, hlead]
    split <;> simp
  fun_induction linesFrom line t with
  | case1 line hempty =>
    obtain rfl := List.isEmpty_iff.1 hempty
    cases hlast
  | case2 line hempty =>
    rw [append_nil] at hlast
    have hcode : isAllBlank line.reverse = false := by
      rw [isAllBlank, all_eq_false]
      exact ⟨d, mem_of_getLast? hlast, by simp [hd]⟩
    rw [append_nil, padFor, startsBlankLine_of_forall (by simpa using hline), map_singleton, hcode]
    simp [join, reflow]
  | case3 line t ih =>
    have hrest : t.getLast? = some d := by
      have hne : ∀ c, isBlank c = true → c ≠ d := by
        rintro c hc rfl
        rw [hd] at hc
        cases hc
      exact getLast?_of_append_cons (u := []) (getLast?_of_append_cons hlast (hne _ (by decide))) (hne _ (by decide))
    refine hbreak line t _ '\r' hline (by decide) (by rintro rfl; cases hrest) (by simpa using ih (by simp) hrest)
  | case4 line c t hnot hc ih =>
    have hrest : t.getLast? = some d := by
      refine getLast?_of_append_cons hlast ?_
      rintro rfl
      rw [isBlank_of_isLineBreak hc] at hd
      cases hd
    rw [reflow, if_pos hc]
    · exact hbreak line t _ c hline hc (by rintro rfl; cases hrest) (by simpa using ih (by simp) hrest)
    · exact hnot
  | case5 line c t hnot hc ih =>
    have hc : isLineBreak c = false := by simpa using hc
    rw [ih (by simpa [hc] using hline) (by simpa using hlast), reflow_cons hc]
    simp

theorem indent_eq_reflow {c} (hc : isBlank c = false) (hd : isBlank d = false)
    (hlast : (c :: t).getLast? = some d) (pad : Text) : indent pad (c :: t) = pad ++ reflow pad (c :: t) := by
  have hjoin := join_linesFrom hd pad [] (c :: t) (by simp) (by simpa using hlast)
  have hfirst : startsBlankLine (c :: t) = false := by
    simp [startsBlankLine, hc, not_isLineBreak_of_not_isBlank hc]
  simpa [indent, lines, padFor, hfirst] using hjoin

/-! ## Code that can be moved -/

/-- The code can be moved with lines that are indented: where the closing brackets of the first list are owed, those of
the second are owed behind it. -/
def Ports (pad : Text) (a : List Char) (u : Text) (b : List Char) : Prop :=
  ∀ below, Turns (a ++ below) (reflow pad u) (b ++ below)

/-- Code that stays closed when it is moved with lines that are indented. -/
abbrev Portable (pad u : Text) : Prop := Ports pad [] u []

namespace Ports

variable {pad u v : Text} {a b c : List Char}

theorem frame (h : Portable pad u) (a : List Char) : Ports pad a u a := fun below => h (a ++ below)

variable {d : Char}

theorem append_cons (hu : Ports pad a u b) (hd : isBlank d = false) (hv : Ports pad b (d :: v) c) :
    Ports pad a (u ++ d :: v) c := by
  intro below
  rw [reflow_append hd]
  exact (hu below).append (hv below)

theorem concat_append (hd : isBlank d = false) (hu : Ports pad a (u ++ [d]) b) (hv : Ports pad b v c) :
    Ports pad a (u ++ [d] ++ v) c := by
  intro below
  have hbreak := not_isLineBreak_of_not_isBlank hd
  have hsplit : reflow pad (u ++ [d] ++ v) = reflow pad (u ++ [d]) ++ reflow pad v := by
    rw [append_assoc, singleton_append, reflow_append hd, reflow_append hd, reflow_cons hbreak, reflow_cons hbreak]
    simp [reflow]
  rw [hsplit]
  exact (hu below).append (hv below)

theorem comma (hu : Portable pad u) (hv : Portable pad v) : Portable pad (u ++ (", " ++ v)) := by
  have hcomma : Portable pad (", " ++ v) := by
    intro below
    exact ((closed_text ", " rfl).turns _).append (hv below)
  exact hu.append_cons (d := ',') (by decide) hcomma

theorem of_plain (hplain : u.all isPlain = true) (hline : ∀ c ∈ u, isLineBreak c = false) : Portable pad u := by
  intro below
  have hsame := reflow_append_of_forall hline pad []
  rw [reflow, append_nil] at hsame
  rw [hsame]
  exact (closed_of_plain hplain).turns below

end Ports

section Pad

variable {pad : Text} (hpad : ∀ c ∈ pad, isBlank c = true)

include hpad

theorem Tame.reflow (hu : Tame u) :
    Whole (Java.reflow pad u) ∧ brackets (mask (Java.reflow pad u)) = brackets (mask u) := by
  have hblank : ∀ t, ∀ c ∈ '\n' :: padFor pad t, isBlank c = true := by
    intro t c hc
    rcases mem_cons.1 hc with rfl | hc
    · decide
    · rw [padFor] at hc
      split at hc
      · cases hc
      · exact hpad c hc
  induction hu with
  | nil => exact ⟨whole_nil, rfl⟩
  | @lineBreak c t hc ht ih =>
    rw [brackets_mask_lineBreak hc]
    rcases reflow_lineBreak hc pad t with heq | heq
    · have htame := tame_of_blank (hblank t)
      rw [heq]
      refine ⟨(whole_of_forall htame).append ih.1, ?_⟩
      rw [mask_append_of_tame htame, brackets_append, brackets_of_blank (hblank t), nil_append, ih.2]
    · rw [heq]
      exact ih
  | @piece w t hw hbreak ht ih =>
    rw [reflow_append_of_forall hbreak]
    refine ⟨hw.append ih.1, ?_⟩
    rw [(hw _).mask_append, (hw _).mask_append, brackets_append, brackets_append, ih.2]

theorem Bears.ports {a b} (hu : Bears a u b) : Ports pad a u b := by
  intro below
  obtain ⟨hwhole, hbrackets⟩ := hu.tame.reflow hpad
  refine ⟨hwhole, ?_⟩
  rw [← owedAfter_brackets, hbrackets, owedAfter_brackets]
  exact hu.owed below

/-- A statement made of portable pieces closes what it opens. -/
theorem Ports.turns_indent {c d} (hu : Portable pad (c :: u)) (hc : isBlank c = false)
    (hlast : (c :: u).getLast? = some d) (hd : isBlank d = false) (owed : List Char) :
    Turns owed (indent pad (c :: u)) owed := by
  rw [indent_eq_reflow hc hd hlast]
  exact (turns_blank_append hpad).2 (hu owed)

end Pad

end Rebind.Java
