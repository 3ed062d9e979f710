/-
Code that can stand anywhere.

Generated code is put together from names, fixed texts and code that is copied. It is tame if it consists of pieces that
keep their lexemes wherever they come to stand and of line breaks between them (`Tame`); then it may be indented.
Brackets are counted piece by piece (`Bears`), and where they pair the code is closed (`Closed`).
-/
import Rebind.Listener.Registration
import Rebind.Proofs.Java.Balance
import Rebind.Proofs.Text.Pieces
import Rebind.Text.Lines

namespace Rebind.Java

open Text List

variable {u : Text}

/-! ## Tame code -/

def isTame (c : Char) : Bool := c != '"' && c != '\'' && c != '/'

theorem isTame_iff {c} : isTame c = true ↔ c ≠ '"' ∧ c ≠ '\'' ∧ c ≠ '/' := by
  simp [isTame, and_assoc]

/-- What names and blanks are made of: no quote, slash or bracket. -/
def isPlain (c : Char) : Bool := isTame c && !isBracket c

theorem isPlain_iff {c} : isPlain c = true ↔ isTame c = true ∧ isBracket c = false := by
  simp [isPlain]

theorem isPlain_of_class {p} (hp : ("\"'/()\x7b\x7d[]".toList.any p) = false) {c}
    (hc : p c = true) : isPlain c = true := by
  cases hplain : isPlain c with
  | true => rfl
  | false =>
    have hmem : c ∈ "\"'/()\x7b\x7d[]".toList := by
      simp only [isPlain, isTame, isBracket, openers, closers, Bool.and_eq_false_iff, bne_eq_false_iff_eq,
        Bool.not_eq_false', Bool.or_eq_true, contains_iff_mem, mem_cons, not_mem_nil, or_false] at hplain
      rcases hplain with ((rfl | rfl) | rfl) | (rfl | rfl | rfl) | (rfl | rfl | rfl) <;> decide
    have hnot := any_eq_false.1 hp c hmem
    contradiction

theorem isPlain_of_isLineBreak {c} (h : isLineBreak c = true) : isPlain c = true :=
  isPlain_of_class (by decide) h

theorem isPlain_of_isBlank {c} (h : isBlank c = true) : isPlain c = true := isPlain_of_class (by decide) h

theorem isTame_of_isPlain {c} (h : isPlain c = true) : isTame c = true := (isPlain_iff.1 h).1

theorem isTame_of_isLineBreak {c} (h : isLineBreak c = true) : isTame c = true :=
  isTame_of_isPlain (isPlain_of_isLineBreak h)

theorem whole_cons_of_isTame {c} (hc : isTame c = true) (hu : Whole u) : Whole (c :: u) := by
  obtain ⟨h1, h2, h3⟩ := isTame_iff.1 hc
  exact whole_cons h1 h2 h3 hu

theorem mask_cons_of_isTame {c} (hc : isTame c = true) (t : Text) : mask (c :: t) = c :: mask t := by
  obtain ⟨h1, h2, h3⟩ := isTame_iff.1 hc
  rw [mask_cons, lexemeAt_code h1 h2 fun h => absurd h h3]
  rfl

theorem mask_append_of_tame : ∀ {u}, (∀ c ∈ u, isTame c = true) → ∀ t, mask (u ++ t) = u ++ mask t
  | [], _, t => rfl
  | c :: u, h, t => by
    rw [cons_append, mask_cons_of_isTame (h c (by simp)), mask_append_of_tame (forall_mem_cons.1 h).2,
      cons_append]

theorem whole_of_forall : ∀ {u}, (∀ c ∈ u, isTame c = true) → Whole u
  | [], _ => whole_nil
  | c :: u, h => whole_cons_of_isTame (h c (by simp)) (whole_of_forall (forall_mem_cons.1 h).2)

/-- Pieces that keep their lexemes, and line breaks between them. -/
inductive Tame : Text → Prop where
  | nil : Tame []
  | lineBreak {c : Char} {t : Text} (hc : isLineBreak c = true) (ht : Tame t) : Tame (c :: t)
  | piece {w t : Text} (hw : Whole w) (hbreak : ∀ c ∈ w, isLineBreak c = false) (ht : Tame t) : Tame (w ++ t)

theorem tame_of_forall {t} (h : ∀ c ∈ t, isTame c = true) : Tame t := by
  induction t with
  | nil => exact .nil
  | cons c t ih =>
    have ht := ih (forall_mem_cons.1 h).2
    cases hc : isLineBreak c with
    | true => exact .lineBreak hc ht
    | false => exact .piece (w := [c]) (whole_cons_of_isTame (h c (by simp)) whole_nil) (by simpa using hc) ht

namespace Tame

variable {t u : Text}

theorem append (hu : Tame u) (ht : Tame t) : Tame (u ++ t) := by
  induction hu with
  | nil => exact ht
  | lineBreak hc _ ih => exact .lineBreak hc ih
  | piece hw hbreak _ ih => rw [append_assoc]; exact .piece hw hbreak ih

theorem whole (ht : Tame t) : Whole t := by
  induction ht with
  | nil => exact whole_nil
  | lineBreak hc _ ih => exact whole_cons_of_isTame (isTame_of_isLineBreak hc) ih
  | piece hw _ _ ih => exact hw.append ih

theorem split {c} (hc : isLineBreak c = true) (h : Tame (u ++ c :: t)) : Tame u ∧ Tame t := by
  generalize hw : u ++ c :: t = w at h
  induction h generalizing u with
  | nil => simp at hw
  | @lineBreak d s hd hs ih =>
    cases u with
    | nil =>
      obtain ⟨-, rfl⟩ : c = d ∧ t = s := by simpa using hw
      exact ⟨.nil, hs⟩
    | cons e u =>
      obtain ⟨rfl, hs⟩ : e = d ∧ u ++ c :: t = s := by simpa using hw
      obtain ⟨hu, ht⟩ := ih hs
      exact ⟨.lineBreak hd hu, ht⟩
  | @piece v s hv hbreak hs ih =>
    rcases append_eq_append_iff.1 hw with ⟨x, rfl, hx⟩ | ⟨x, rfl, rfl⟩
    · cases x with
      | nil =>
        obtain ⟨-, ht⟩ := ih (u := []) (by simpa using hx)
        exact ⟨by simpa using Tame.piece hv hbreak .nil, ht⟩
      | cons d x =>
        -- no piece holds a line break
        obtain ⟨rfl, -⟩ : c = d ∧ t = x ++ s := by simpa using hx
        rw [hbreak c (by simp)] at hc
        cases hc
    · obtain ⟨hx, ht⟩ := ih rfl
      exact ⟨.piece hv hbreak hx, ht⟩

end Tame

/-! ## Lines -/

theorem linesFrom_append {w} (hw : ∀ c ∈ w, isLineBreak c = false) (line t : Text) :
    linesFrom line (w ++ t) = linesFrom (w.reverse ++ line) t := by
  induction w generalizing line with
  | nil => rfl
  | cons c w ih =>
    have hc := hw c (by simp)
    have hreturn : c ≠ '\r' := by
      rintro rfl
      revert hc
      decide
    rw [cons_append, linesFrom, if_neg (by simp [hc]), ih (forall_mem_cons.1 hw).2]
    · simp
    · intro s h
      exact absurd h hreturn

theorem linesFrom_lineBreak {c} (hc : isLineBreak c = true) (line t : Text) :
    linesFrom line (c :: t) = line.reverse :: linesFrom [] t ∨
      ∃ s, t = '\n' :: s ∧ linesFrom line (c :: t) = line.reverse :: linesFrom [] s := by
  rw [linesFrom.eq_def]
  split
  · next heq => simp at heq
  · next s heq =>
    obtain ⟨-, rfl⟩ : c = '\r' ∧ t = '\n' :: s := by simpa using heq
    exact .inr ⟨s, rfl, rfl⟩
  · next d s hnot heq =>
    obtain ⟨rfl, rfl⟩ : c = d ∧ t = s := by simpa using heq
    rw [if_pos hc]
    exact .inl rfl

theorem brackets_mask_lineBreak {c} (hc : isLineBreak c = true) (t : Text) :
    brackets (mask (c :: t)) = brackets (mask t) := by
  have hnot := (isPlain_iff.1 (isPlain_of_isLineBreak hc)).2
  rw [mask_cons_of_isTame (isTame_of_isLineBreak hc), brackets, filter_cons_of_neg (by simp [hnot])]
  rfl

theorem Tame.linesFrom {t} (ht : Tame t) : ∀ {line}, Whole line.reverse →
    (∀ l ∈ Text.linesFrom line t, Whole l) ∧
      (Text.linesFrom line t).flatMap (fun l => brackets (mask l)) = brackets (mask line.reverse) ++ brackets
      (mask t) := by
  induction ht with
  | nil =>
    intro line hline
    cases line with
    | nil => simp [Text.linesFrom, brackets]
    | cons c line => simpa [Text.linesFrom, brackets] using hline
  | @lineBreak c t hc ht ih =>
    intro line hline
    obtain ⟨hwhole, hflat⟩ := @ih [] whole_nil
    rw [brackets_mask_lineBreak hc]
    rcases linesFrom_lineBreak hc line t with heq | ⟨s, rfl, heq⟩
    · rw [heq]
      refine ⟨?_, by rw [flatMap_cons, hflat]; simp [brackets]⟩
      intro l hl
      rcases mem_cons.1 hl with rfl | hl
      · exact hline
      · exact hwhole l hl
    · -- the two characters of a line break
      have hnext : Text.linesFrom [] ('\n' :: s) = [] :: Text.linesFrom [] s := by simp [Text.linesFrom, isLineBreak]
      rw [hnext] at hwhole hflat
      rw [heq]
      refine ⟨?_, ?_⟩
      · intro l hl
        rcases mem_cons.1 hl with rfl | hl
        · exact hline
        · exact hwhole l (by simp [hl])
      · have hrest : (Text.linesFrom [] s).flatMap (fun l => brackets (mask l)) = brackets (mask ('\n' :: s)) := by
          simpa [brackets] using hflat
        rw [flatMap_cons, hrest]
  | @piece w t hw hbreak _ ih =>
    intro line hline
    rw [linesFrom_append hbreak]
    have hboth : Whole (w.reverse ++ line).reverse := by simpa using hline.append hw
    obtain ⟨hwhole, hflat⟩ := ih hboth
    refine ⟨hwhole, ?_⟩
    rw [hflat, reverse_append, reverse_reverse, (hline w).mask_append, (hw t).mask_append, brackets_append,
      brackets_append, append_assoc]

theorem whole_join : ∀ {ls}, (∀ l ∈ ls, Whole l) →
    Whole (join ['\n'] ls) ∧ brackets (mask (join ['\n'] ls)) = ls.flatMap fun l => brackets (mask l)
  | [], _ => by simpa [join, brackets] using whole_nil
  | [l], h => by simpa [join] using h l (by simp)
  | l :: m :: ls, h => by
    obtain ⟨hrest, hflat⟩ := whole_join fun n (hn : n ∈ m :: ls) => h n (mem_cons_of_mem l hn)
    have hl := h l (by simp)
    have hbreak : Whole (['\n'] ++ join ['\n'] (m :: ls)) := whole_cons_of_isTame (by decide) hrest
    rw [join_cons _ _ (by simp)]
    refine ⟨hl.append hbreak, ?_⟩
    rw [(hl _).mask_append, brackets_append, mask_append_of_tame (by simp [isTame]), brackets_append, hflat,
      flatMap_cons]
    rfl

/-! ## Brackets of generated code -/

/-- The code is tame; where the closing brackets of the first list are owed, those of the second are owed behind it. -/
structure Bears (a : List Char) (u : Text) (b : List Char) : Prop where
  tame : Tame u
  owed : ∀ below, owedAfter (a ++ below) (mask u) = some (b ++ below)

/-- Code that can stand anywhere: it is tame, and its brackets pair. -/
abbrev Closed (u : Text) : Prop := Bears [] u []

namespace Bears

variable {a b c : List Char} {u v : Text}

theorem append (hu : Bears a u b) (hv : Bears b v c) : Bears a (u ++ v) c := by
  refine ⟨hu.tame.append hv.tame, fun below => ?_⟩
  rw [(hu.tame.whole v).mask_append, owedAfter_append, hu.owed, Option.bind_some, hv.owed]

theorem under (hu : Bears a u b) (c : List Char) : Bears (a ++ c) u (b ++ c) := by
  refine ⟨hu.tame, fun below => ?_⟩
  rw [append_assoc, append_assoc]
  exact hu.owed (c ++ below)

theorem frame (hu : Closed u) (a : List Char) : Bears a u a := hu.under a

theorem of_tame (htame : u.all isTame = true) (howed : ∀ below, owedAfter (a ++ below) u = some (b ++ below)) :
    Bears a u b := by
  have hall : ∀ c ∈ u, isTame c = true := all_eq_true.1 htame
  refine ⟨tame_of_forall hall, fun below => ?_⟩
  have hmask := mask_append_of_tame hall []
  rw [append_nil, mask_nil, append_nil] at hmask
  rw [hmask]
  exact howed below

theorem text (s : String) (a b : List Char) (htame : s.toList.all isTame = true)
    (howed : ∀ below, owedAfter (a ++ below) s.toList = some (b ++ below)) : Bears a s.toList b := of_tame htame howed

theorem turns (hu : Closed u) (owed : List Char) : Turns owed u owed := ⟨hu.tame.whole, hu.owed owed⟩

end Bears

theorem closed_of_plain (h : u.all isPlain = true) : Closed u := by
  have hplain : ∀ c ∈ u, isTame c = true ∧ isBracket c = false := fun c hc => isPlain_iff.1 (all_eq_true.1 h c hc)
  refine .of_tame (all_eq_true.2 fun c hc => (hplain c hc).1) fun below => ?_
  exact owedAfter_of_brackets_nil (brackets_eq_nil fun c hc => (hplain c hc).2) _

theorem closed_nil : Closed [] := closed_of_plain rfl

theorem closed_text (s : String) (h : s.toList.all isPlain = true) : Closed s.toList := closed_of_plain h

theorem closed_join {sep} (hsep : Closed sep) : ∀ {parts}, (∀ p ∈ parts, Closed p) →
    Closed (join sep parts)
  | [], _ => closed_nil
  | [p], h => by simpa [join] using h p (by simp)
  | p :: q :: rest, h => by
    exact (h p (by simp)).append (hsep.append (closed_join hsep fun r hr => h r (mem_cons_of_mem p hr)))

theorem closed_null : Closed "'\\0'" := by
  have hread : ∀ v, lexemeAt '\'' ("\\0'" ++ v) = (.literal ['\''] ['\\', '0'] ['\''], v) := fun _ => rfl
  have halone : lexemes "'\\0'" = [.literal ['\''] ['\\', '0'] ['\'']] := by
    have := hread []
    rw [append_nil] at this
    show lexemes ('\'' :: "\\0'") = _
    rw [lexemes_cons, this, lexemes_nil]
  have hwhole : Whole "'\\0'" := by
    intro v
    rw [Joins, halone]
    show lexemes ('\'' :: ("\\0'" ++ v)) = _
    rw [lexemes_cons, hread]
    rfl
  have htame : Tame ("'\\0'".toList ++ []) := .piece hwhole (by simp [isLineBreak]) .nil
  refine ⟨by simpa using htame, fun below => ?_⟩
  rw [mask, halone]
  rfl

/-! ## Indentation -/

section Indent

variable {pad : Text} (hpad : ∀ c ∈ pad, isBlank c = true)

include hpad

theorem tame_of_blank : ∀ c ∈ pad, isTame c = true := fun c hc => isTame_of_isPlain (isPlain_of_isBlank (hpad c hc))

theorem brackets_of_blank : brackets pad = [] :=
  brackets_eq_nil fun c hc => (isPlain_iff.1 (isPlain_of_isBlank (hpad c hc))).2

theorem turns_blank_append {owed owed'} : Turns owed (pad ++ u) owed' ↔ Turns owed u owed' := by
  have htame := tame_of_blank hpad
  have hmask : ∀ v, owedAfter owed (mask (pad ++ v)) = owedAfter owed (mask v) := by
    intro v
    rw [mask_append_of_tame htame, owedAfter_append, owedAfter_of_brackets_nil (brackets_of_blank hpad),
      Option.bind_some]
  constructor
  · rintro ⟨hwhole, howed⟩
    refine ⟨fun v => ?_, by rwa [hmask] at howed⟩
    have hjoins := hwhole v
    rw [Joins, append_assoc, whole_of_forall htame (u ++ v), whole_of_forall htame u, append_assoc] at hjoins
    exact append_cancel_left hjoins
  · rintro ⟨hwhole, howed⟩
    exact ⟨(whole_of_forall htame).append hwhole, by rwa [hmask]⟩

theorem Bears.turns_indent (hu : Closed u) (owed : List Char) : Turns owed (indent pad u) owed := by
  have htame := tame_of_blank hpad
  obtain ⟨hlines, hflat⟩ := @Tame.linesFrom u hu.tame [] whole_nil
  have hpadded : ∀ l, Whole l → Whole (if isAllBlank l then l else pad ++ l) ∧
      brackets (mask (if isAllBlank l then l else pad ++ l)) = brackets (mask l) := by
    intro l hl
    split
    · exact ⟨hl, rfl⟩
    · refine ⟨(whole_of_forall htame).append hl, ?_⟩
      rw [mask_append_of_tame htame, brackets_append, brackets_of_blank hpad, nil_append]
  have hall : ∀ l ∈ (lines u).map (fun l => if isAllBlank l then l else pad ++ l), Whole l := by
    intro l hl
    obtain ⟨m, hm, rfl⟩ := mem_map.1 hl
    exact (hpadded m (hlines m hm)).1
  obtain ⟨hwhole, hbrackets⟩ := whole_join hall
  refine ⟨hwhole, ?_⟩
  have hsame : brackets (mask (indent pad u)) = brackets (mask u) := by
    have hmap : ((lines u).map fun l => if isAllBlank l then l else pad ++ l).flatMap (fun l => brackets (mask l)) =
        (lines u).flatMap fun l => brackets (mask l) := by
      rw [flatMap_map]
      exact flatMap_congr fun l hl => (hpadded l (hlines l hl)).2
    rw [indent, hbrackets, hmap, lines, hflat]
    simp [brackets]
  rw [← owedAfter_brackets, hsame, owedAfter_brackets]
  exact hu.owed owed

end Indent

theorem isBlank_of_isLineBreak {c} (h : isLineBreak c = true) : isBlank c = true := by
  have hall : ∀ n ∈ [0xa, 0xb, 0xc, 0xd, 0x1c, 0x1d, 0x1e, 0x85, 0x2028, 0x2029], blankTable.holds n = true := by decide
  refine hall c.toNat ?_
  simp only [isLineBreak, Bool.or_eq_true, Bool.and_eq_true, decide_eq_true_eq, beq_iff_eq] at h
  simp only [mem_cons, not_mem_nil, or_false]
  omega

theorem exists_linesFrom_cons (c : Char) : ∀ (line t : Text), ∃ w rest, linesFrom (line ++ [c]) t = (c :: w) :: rest
  | line, [] => ⟨line.reverse, [], by simp [linesFrom]⟩
  | line, d :: t => by
    cases hd : isLineBreak d with
    | true =>
      rcases linesFrom_lineBreak hd (line ++ [c]) t with heq | ⟨s, -, heq⟩ <;> rw [heq]
      · exact ⟨line.reverse, linesFrom [] t, by simp⟩
      · exact ⟨line.reverse, linesFrom [] s, by simp⟩
    | false =>
      have happend := linesFrom_append (w := [d]) (by simpa using hd) (line ++ [c]) t
      obtain ⟨w, rest, h⟩ := exists_linesFrom_cons c (d :: line) t
      exact ⟨w, rest, by rw [← h]; exact happend⟩

theorem exists_indent_eq (pad : Text) {c} (hc : isBlank c = false) (u : Text) :
    ∃ rest, indent pad (c :: u) = pad ++ c :: rest := by
  have hbreak : isLineBreak c = false := by
    cases hb : isLineBreak c with
    | false => rfl
    | true => rw [isBlank_of_isLineBreak hb] at hc; cases hc
  have hfirst := linesFrom_append (w := [c]) (by simpa using hbreak) [] u
  obtain ⟨w, rest, hlines⟩ := exists_linesFrom_cons c [] u
  have hcode : isAllBlank (c :: w) = false := by simp [isAllBlank, hc]
  have heq : lines (c :: u) = (c :: w) :: rest := hfirst.trans hlines
  rw [indent, heq, map_cons, hcode]
  cases rest with
  | nil => exact ⟨w, by simp [join]⟩
  | cons l ls =>
    rw [join_cons _ _ (by simp)]
    exact ⟨_, by rw [if_neg (by simp), append_assoc, cons_append]⟩

theorem turns_join_cons {owed owed' statement} (hs : Turns owed statement owed') :
    ∀ {after}, (∀ p ∈ after, Turns owed' p owed') → Turns owed (join ['\n'] (statement :: after)) owed'
  | [], _ => by simpa [join] using hs
  | p :: after, h => by
    have hbreak : Turns owed' ['\n'] owed' := (closed_of_plain (by decide)).turns owed'
    exact hs.append (hbreak.append (turns_join_cons (h p (by simp)) (forall_mem_cons.1 h).2))

theorem turns_join {owed owed' statement after} (hs : Turns owed statement owed')
    (hafter : ∀ p ∈ after, Turns owed' p owed') : ∀ {before}, (∀ p ∈ before, Turns owed p owed) →
    Turns owed (join ['\n'] (before ++ statement :: after)) owed'
  | [], _ => turns_join_cons hs hafter
  | p :: before, h => by
    have hbreak : Turns owed ['\n'] owed := (closed_of_plain (by decide)).turns owed
    rw [cons_append, join_cons _ _ (by simp)]
    exact (h p (by simp)).append (hbreak.append (turns_join hs hafter (forall_mem_cons.1 h).2))

theorem closed_of_cons_break (h : Closed ('\n' :: u)) : Closed u := by
  refine ⟨(Tame.split (u := []) (by decide) h.tame).2, fun below => ?_⟩
  have howed := h.owed below
  rwa [mask_cons_of_isTame (by decide), owedAfter_cons, owedStep_of_not_isBracket (by decide),
    Option.bind_some] at howed

theorem closed_of_append_break (h : Closed (u ++ ['\n'])) : Closed u := by
  obtain ⟨htame, -⟩ := h.tame.split (by decide)
  refine ⟨htame, fun below => ?_⟩
  have howed := h.owed below
  rw [← owedAfter_brackets, (htame.whole _).mask_append, brackets_append,
    show brackets (mask ['\n']) = [] by decide +kernel, append_nil, owedAfter_brackets] at howed
  exact howed

theorem closed_stripBreaks (hu : Closed u) : Closed (Listener.stripBreaks u) := by
  have hfront : ∀ v : Text, Closed v → Closed (v.dropWhile (· == '\n')) := by
    intro v hv
    induction v with
    | nil => exact hv
    | cons c v ih =>
      rw [dropWhile_cons]
      split
      · next hc =>
        obtain rfl : c = '\n' := by simpa using hc
        exact ih (closed_of_cons_break hv)
      · exact hv
  have hback : ∀ v : Text, Closed v.reverse → Closed (v.dropWhile (· == '\n')).reverse := by
    intro v hv
    induction v with
    | nil => exact hv
    | cons c v ih =>
      rw [dropWhile_cons]
      split
      · next hc =>
        obtain rfl : c = '\n' := by simpa using hc
        rw [reverse_cons] at hv
        exact ih (closed_of_append_break hv)
      · exact hv
  refine hback _ ?_
  rw [reverse_reverse]
  exact hfront u hu

end Rebind.Java
