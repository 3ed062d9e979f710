/-
What is written for a content statement.

Pieces of the statement stay, and code is written between, before and behind them. All of it together opens and closes
what the statement did (`Sits.turns_activity`, `Sits.turns_fragment`, `Sits.turns_returned`), with the lines before and
behind it indented as the statement was (`Sits.fits_content`).
-/
import Rebind.Proofs.Conversion.Excision

namespace Rebind

namespace Java

open Edit Text List

/-! ## Pieces of a text -/

variable {i j : Nat} {c : Char} {t : Text} {owed owed' : List Char}

theorem take_slice (t : Text) {n} (h : i + n ≤ j) : (slice t i j).take n = slice t i (i + n) := by
  rw [slice, slice, drop_take, drop_take, take_take, Nat.add_sub_cancel_left, Nat.min_eq_left (by omega)]

theorem drop_slice (t : Text) (i j n : Nat) : (slice t i j).drop n = slice t (i + n) j := by
  rw [slice, slice, drop_drop]

theorem not_isBlank_of_mem_closers (hc : c ∈ ';' :: closers) : isBlank c = false := by
  simp only [closers, mem_cons, not_mem_nil, or_false] at hc
  rcases hc with rfl | rfl | rfl | rfl <;> decide

theorem strip_eq_dropBlanks (h : t.getLast? = some c) (hc : isBlank c = false) : strip t = dropBlanks t := by
  have hsplit : t.takeWhile isBlank ++ dropBlanks t = t := takeWhile_append_dropWhile
  have hlast : (dropBlanks t).getLast? = some c := by
    rw [← hsplit, getLast?_append] at h
    cases hrest : (dropBlanks t).getLast? with
    | some d => rwa [hrest] at h
    | none =>
      rw [hrest] at h
      have hblank := all_eq_true.1 all_takeWhile c (mem_of_getLast? h)
      rw [hc] at hblank
      cases hblank
  obtain ⟨front, hfront⟩ := getLast?_eq_some_iff.1 hlast
  rw [strip, hfront, dropBlanksEnd, reverse_append, reverse_singleton, singleton_append,
    dropWhile_cons_of_neg (by simp [hc]), reverse_cons, reverse_reverse]

theorem Boundary.of_tame (h : Boundary t i) (hij : i ≤ j)
    (htame : ∀ k c, i ≤ k → k < j → t[k]? = some c → isTame c = true) : Boundary t j := by
  obtain ⟨n, rfl⟩ := Nat.exists_eq_add_of_le hij
  induction n with
  | zero => exact h
  | succ n ih =>
    have hn := ih (Nat.le_add_right i n) fun k c hk hk' => htame k c hk (by omega)
    rcases Nat.lt_or_ge (i + n) t.length with hlt | hge
    · obtain ⟨h1, h2, h3⟩ := isTame_iff.1 (htame (i + n) t[i + n] (by omega) (by omega) (getElem?_eq_getElem hlt))
      have hnext := hn.next (drop_eq_getElem_cons hlt)
      rw [lexemeAt_code h1 h2 fun h => absurd h h3] at hnext
      exact hnext
    · exact boundary_of_length_le (by omega)

theorem turns_slice_append {u : Text} {d owed''} (hi : Boundary t i) (hj : Boundary t j)
    (hij : i ≤ j) (hlt : j < t.length) (hline : OffLine t j) (hd : isApart d = true)
    (howed : owedAt (mask t) i = some owed) (howed' : owedAt (mask t) j = some owed') (hu : Turns owed' (d :: u) owed'')
    : Turns owed (slice t i j ++ d :: u) owed'' := by
  simp only [isApart, Bool.and_eq_true, bne_iff_ne] at hd
  obtain ⟨hwhole, hjoins⟩ := whole_slice_append hi hj hij hlt hline hd.1.1 hd.1.2 hd.2 hu.whole
  refine ⟨hwhole, ?_⟩
  rw [owedAt_slice hij, howed, Option.bind_some, ← hi.mask_slice hj] at howed'
  rw [hjoins.mask_append, owedAfter_append, howed', Option.bind_some, hu.owedAfter_eq]

theorem turns_slice_of_free (hi : Boundary t i) (hj : Free t j) (hij : i ≤ j)
    (howed : owedAt (mask t) i = some owed) (howed' : owedAt (mask t) j = some owed') :
    Turns owed (slice t i j) owed' :=
  turns_slice hi hj.boundary hij
    (whole_slice hi hj.boundary hij hj.inside hj.offLine hj.clear.1 hj.clear.2) howed howed'

theorem free_of_endsCode (hclosed : BlocksClosed t) (h : EndsCode (mask t) j) (hpos : 0 < j) (hj : j < t.length) :
    Free t j := by
  refine ⟨h.codeAt.boundary_stop hclosed, hj, .inl ?_, h.clear⟩
  obtain ⟨c, hc, hget⟩ := h
  refine ⟨c, ?_, .inl ?_⟩
  · obtain ⟨k, rfl⟩ : ∃ k, j = k + 1 := ⟨j - 1, by omega⟩
    exact hget
  · exact not_isBlank_of_mem_closers hc

/-! ## Statements in their bodies -/

/-- Where a statement stands in the body of its method. -/
structure Statement.Sits (text : Text) (b : Block) (s : Statement) : Prop where
  body : partner (mask text) b.opening = .ok b.closing
  opening_lt : b.opening < s.span.start
  start_lt : s.span.start < s.span.stop
  stop_le : s.span.stop ≤ b.closing
  uncut : Uncut text s.span
  first : text[s.span.start]? ≠ some '\n'
  last : EndsCode (mask text) s.span.stop
  level_start : SameLevel (mask text) (b.opening + 1) s.span.start
  level_stop : SameLevel (mask text) (b.opening + 1) s.span.stop
  text_eq : s.text = slice text s.span.start s.span.stop

theorem sits_of_mem_statementsFrom {text b ss} (hclosed : BlocksClosed text)
    (hwell : WellBracketed (mask text)) (hbody : partner (mask text) b.opening = .ok b.closing)
    (h : statementsFrom text (mask text) b.closing (b.opening + 1) = .ok ss) : ∀ s ∈ ss, s.Sits text b := by
  intro s hs
  obtain ⟨opener, closer, hopener, hkind, hlt, -⟩ := partner_spec hbody
  have hplaced := statementsFrom_spec h s hs
  have hle := hplaced.le_start
  obtain ⟨hstart, hstop⟩ := statementsFrom_level hwell hbody (Nat.lt_succ_self _) (.refl _ _) h s hs
  have hbehind : Boundary text (b.opening + 1) := by
    refine (boundary_of_code hclosed hopener ?_).2
    rcases closerOf?_cases hkind with ⟨rfl, -⟩ | ⟨rfl, -⟩ | ⟨rfl, -⟩ <;> decide
  refine ⟨hbody, by omega, hplaced.start_lt_stop, ?_, statementsFrom_boundary hclosed hbehind h s hs, fun hbreak => ?_,
    hplaced.endsCode, hstart, hstop, text_of_mem_statementsFrom h s hs⟩
  · exact hplaced.reaches.within b.opening hwell hbody (by omega) (Nat.le_of_lt hplaced.start_lt)
  · obtain ⟨j, -, -, hfirst, hlt, -⟩ := mem_statementsFrom (P := fun _ => True) (fun _ _ _ => trivial) trivial h s hs
    have hbreak := getElem?_mask_newline.2 hbreak
    rw [hfirst] at hlt hbreak
    have hblank := not_isBlank_skipBlanks hlt hbreak
    simp [isBlank_newline] at hblank

end Java

namespace Conversion

open Java (Boundary BlocksClosed Closed SameLevel Statement Turns WellBracketed mask owedAt partner)
open Text

/-! ## The statement itself -/

section Statements

variable {text : Text} {b : Java.Block} {s : Statement} (hs : s.Sits text b)

include hs

theorem Sits.stop_lt : s.span.stop < text.length := by
  have := hs.stop_le
  have := (Java.partner_lt_length hs.body).2
  rw [Java.length_mask] at this
  omega

variable (hclosed : BlocksClosed text)

include hclosed

theorem Sits.free_stop : Edit.Free text s.span.stop := by
  have := hs.start_lt
  exact Java.free_of_endsCode hclosed hs.last (by omega) (Sits.stop_lt hs)

variable {owed owed' : List Char} {closing : Nat}

theorem Sits.turns (howed : owedAt (mask text) s.span.start = some owed)
    (howed' : owedAt (mask text) s.span.stop = some owed') : Turns owed s.text owed' := by
  rw [hs.text_eq]
  exact Java.turns_slice_of_free hs.uncut.start (Sits.free_stop hs hclosed) (Nat.le_of_lt hs.start_lt) howed howed'

omit hclosed in
theorem Sits.getLast?_text : ∃ c ∈ ';' :: Java.closers, s.text.getLast? = some c := by
  obtain ⟨c, hc, hlast⟩ := hs.last
  refine ⟨c, hc, ?_⟩
  have hlength := Sits.stop_lt hs
  have hstart := hs.start_lt
  rw [hs.text_eq, List.getLast?_eq_getElem?, getElem?_slice, length_slice, if_pos (by omega),
    show s.span.start + (min s.span.stop text.length - s.span.start - 1) = s.span.stop - 1 by omega]
  exact Java.getElem?_of_mask hlast (Java.not_isBlank_of_mem_closers hc)

theorem Sits.turns_rest (howed : owedAt (mask text) s.span.start = some owed)
    (howed' : owedAt (mask text) s.span.stop = some owed') {front rest} (hsplit : s.text = front ++ rest)
    (hfront : ∀ d ∈ front, Java.isPlain d = true) : Turns owed rest owed' := by
  have hle : s.span.start + front.length ≤ s.span.stop := by
    have := congrArg List.length hsplit
    rw [hs.text_eq, length_slice, List.length_append] at this
    have := hs.start_lt
    omega
  have hplain : ∀ k d, s.span.start ≤ k → k < s.span.start + front.length → text[k]? = some d →
      Java.isPlain d = true := by
    intro k d hk hk' hd
    refine hfront d (List.mem_of_getElem? (i := k - s.span.start) ?_)
    have hthere := getElem?_front (hs.text_eq.symm.trans hsplit) (k := k - s.span.start) (by omega)
    rw [← hthere, show s.span.start + (k - s.span.start) = k by omega, hd]
  have hboundary : Boundary text (s.span.start + front.length) :=
    hs.uncut.start.of_tame (Nat.le_add_right _ _) fun k d hk hk' hd => Java.isTame_of_isPlain (hplain k d hk hk' hd)
  have hlevel : SameLevel (mask text) s.span.start (s.span.start + front.length) := by
    refine Java.level_of_brackets_nil (Nat.le_add_right _ _) (Java.brackets_eq_nil fun d hd => ?_)
    obtain ⟨k, hk, hk', hd⟩ := mem_slice.1 hd
    cases hblank : isBlank d with
    | true => exact Java.not_isBracket_of_isBlank hblank
    | false => exact (Java.isPlain_iff.1 (hplain k d hk hk' (Java.getElem?_of_mask hd hblank))).2
  have hrest : rest = slice text (s.span.start + front.length) s.span.stop := by
    rw [← Java.drop_slice, ← hs.text_eq, hsplit, List.drop_left]
  rw [SameLevel, howed] at hlevel
  rw [hrest]
  exact Java.turns_slice_of_free hboundary (Sits.free_stop hs hclosed) hle hlevel.symm howed'

theorem Sits.turns_returned (howed : owedAt (mask text) s.span.start = some owed)
    (howed' : owedAt (mask text) s.span.stop = some owed') (hreturn : startsWithReturn s.text = true) :
    Turns owed (strip (s.text.drop "return".length)) owed' := by
  obtain ⟨rest, hrest, -⟩ := (Option.any_eq_true _ _).1 hreturn
  have htext := after?_eq_some.1 hrest
  have hdrop : s.text.drop "return".length = rest := by rw [htext]; rfl
  have hword : "return".toList.all Java.isPlain = true := by decide
  -- the statement ends with code, and not with the word
  obtain ⟨c, hc, hlast⟩ := Sits.getLast?_text hs
  have hlast' : rest.getLast? = some c := by
    rw [htext, List.getLast?_append] at hlast
    cases hnil : rest.getLast? with
    | some d => rwa [hnil] at hlast
    | none =>
      rw [hnil] at hlast
      obtain rfl : 'n' = c := by simpa using hlast
      simp [Java.closers] at hc
  rw [hdrop, Java.strip_eq_dropBlanks hlast' (Java.not_isBlank_of_mem_closers hc)]
  have hsplit : s.text = "return" ++ rest.takeWhile isBlank ++ dropBlanks rest := by
    rw [htext, List.append_assoc, dropBlanks, List.takeWhile_append_dropWhile]
  refine Sits.turns_rest hs hclosed howed howed' hsplit fun d hd => ?_
  rcases List.mem_append.1 hd with hd | hd
  · exact List.all_eq_true.1 hword d hd
  · exact Java.isPlain_of_isBlank (List.all_eq_true.1 List.all_takeWhile d hd)

variable (hwell : WellBracketed (mask text)) {middle : Text} {d : Char} (hmiddle : Closed (d :: middle))

include hwell hmiddle

theorem Sits.turns_activity {call} (howed : owedAt (mask text) s.span.start = some owed)
    (howed' : owedAt (mask text) s.span.stop = some owed')
    (hcall : search (mask text) s.span.start s.span.stop Before.unqualified contentCall? = some call)
    (hclosing : partner (mask text) (call.stop - 1) = .ok closing) :
    Turns owed (s.text.take (call.stop - 1 - s.span.start + 1) ++ d :: middle ++ s.text.drop (closing - s.span.start))
      owed' := by
  have hlength := Sits.stop_lt hs
  have hstart := hs.start_lt
  have hwithin := search_spec hcall (Nat.le_of_lt hstart) (by rw [Java.length_mask]; omega)
  have hle := hwithin.le_start
  have hstop := hwithin.stop_le
  obtain ⟨hlt, -, -⟩ := level_call hwell hwithin (fun h => takes_callTo (callTo_contentCall? h)) hclosing
  have hbetween := (Java.partner_lt_length hclosing).1
  have hin : closing < s.span.stop :=
    Java.partner_lt_of_level hwell hs.body hs.opening_lt hs.level_stop (by omega) (by omega) hs.stop_le hclosing
  obtain ⟨opener, closer, hopener, hkind, -, hcloser, -⟩ := Java.partner_spec hclosing
  obtain ⟨inner, hinner⟩ := Java.exists_owedAt hwell (call.stop - 1 + 1)
  have hsame : owedAt (mask text) closing = some inner := by
    rw [← hinner]
    exact (Java.level_inside_partner hwell hclosing).symm
  have hfree : Edit.Free text (call.stop - 1 + 1) := by
    have hbracket : opener = '(' ∨ opener = '{' ∨ opener = '[' := by
      rcases Java.closerOf?_cases hkind with ⟨rfl, -⟩ | ⟨rfl, -⟩ | ⟨rfl, -⟩ <;> simp
    refine ⟨(Java.boundary_of_code hclosed hopener ?_).2, by omega, .inl ⟨opener, hopener, .inl ?_⟩, ?_⟩
    · rcases hbracket with rfl | rfl | rfl <;> decide
    · rcases hbracket with rfl | rfl | rfl <;> decide
    · rcases hbracket with rfl | rfl | rfl <;>
        exact Java.clear_of_last hopener (by decide) (by decide)
  rw [hs.text_eq, Java.take_slice _ (by omega), Java.drop_slice,
    show s.span.start + (call.stop - 1 - s.span.start + 1) = call.stop - 1 + 1 by omega,
    show s.span.start + (closing - s.span.start) = closing by omega]
  have hfront := Java.turns_slice_of_free hs.uncut.start hfree (by omega) howed hinner
  have hback := Java.turns_slice_of_free (Java.codeAt_partner hclosing |>.boundary hclosed) (Sits.free_stop hs hclosed)
    (Nat.le_of_lt hin) hsame howed'
  exact (hfront.append (hmiddle.turns inner)).append hback

theorem Sits.turns_fragment {call} (hd : Edit.isApart d = true)
    (howed : owedAt (mask text) s.span.start = some owed) (howed' : owedAt (mask text) s.span.stop = some owed')
    (hcall : search (mask text) s.span.start s.span.stop Before.unqualified inflateCall? = some call)
    (hclosing : partner (mask text) (call.stop - 1) = .ok closing) (hcode : Java.CodeAt text call.start) :
    Turns owed (s.text.take (call.start - s.span.start) ++ d :: middle ++ s.text.drop (closing + 1 - s.span.start))
      owed' := by
  have hlength := Sits.stop_lt hs
  have hstart := hs.start_lt
  have hwithin := search_spec hcall (Nat.le_of_lt hstart) (by rw [Java.length_mask]; omega)
  have hle := hwithin.le_start
  have hstop := hwithin.stop_le
  obtain ⟨hlt, -, hlevel⟩ := level_call hwell hwithin (takes_inflateCall? hwell) hclosing
  have hbetween := (Java.partner_lt_length hclosing).1
  have hin : closing < s.span.stop :=
    Java.partner_lt_of_level hwell hs.body hs.opening_lt hs.level_stop (by omega) (by omega) hs.stop_le hclosing
  obtain ⟨inner, hinner⟩ := Java.exists_owedAt hwell call.start
  rw [hs.text_eq, Java.take_slice _ (by omega), Java.drop_slice,
    show s.span.start + (call.start - s.span.start) = call.start by omega,
    show s.span.start + (closing + 1 - s.span.start) = closing + 1 by omega, List.append_assoc, List.cons_append]
  rw [SameLevel, hinner] at hlevel
  have hback := Java.turns_slice_of_free ((Java.codeAt_partner hclosing).boundary_stop (i := closing + 1) hclosed)
    (Sits.free_stop hs hclosed) (by omega) hlevel.symm howed'
  exact Java.turns_slice_append hs.uncut.start (hcode.boundary hclosed) hle (by omega)
    (Edit.offLine_of_ne (by omega) (Edit.ne_newline_of_codeAt hcode)) hd howed hinner
    ((hmiddle.turns inner).append hback)

end Statements

theorem starts_inflateCall? {t rest n} (h : inflateCall? t = some (n, rest)) : Starts t := by
  obtain ⟨r, hr, h⟩ := List.exists_of_findSome?_eq_some h
  simp only [Option.bind_eq_bind, Option.bind_eq_some_iff] at h
  obtain ⟨u, ⟨v, hv, -⟩, -⟩ := h
  have hself : r = t → Starts t := by
    rintro rfl
    rw [after?_eq_some.1 hv]
    exact ⟨'i', rfl, by decide⟩
  rw [List.mem_reverse, afterReceivers] at hr
  split at hr
  · next u hu =>
    -- a receiver starts with a name
    simp only [receiverPart?, Option.bind_eq_bind, Option.bind_eq_some_iff] at hu
    obtain ⟨⟨w, x⟩, hw, -⟩ := hu
    cases t with
    | nil => simp [name?] at hw
    | cons c t =>
      simp only [name?] at hw
      split at hw
      · next hc =>
        simp only [isNameStart, Bool.or_eq_true, beq_iff_eq] at hc
        rcases hc with (hc | rfl) | rfl
        · exact ⟨c, rfl, Java.isCode_of_letter (.inl hc)⟩
        · exact ⟨'_', rfl, by decide⟩
        · exact ⟨'$', rfl, by decide⟩
      · simp at hw
  · exact hself (List.mem_singleton.1 hr)

/-! ## The statement with lines before and behind it -/

theorem exists_join_eq {sep p parts} (h : parts.head? = some p) : ∃ v, join sep parts = p ++ v := by
  cases parts with
  | nil => simp at h
  | cons q rest =>
    obtain rfl : q = p := by simpa using h
    cases rest with
    | nil => exact ⟨[], by simp [join]⟩
    | cons r rest => exact ⟨_, join_cons sep q (by simp)⟩

section Lines

variable {text pad statement : Text} {b : Java.Block} {s : Statement} {before after : List Text} (hs : s.Sits text b)
  (hpad : ∀ c ∈ pad, isBlank c = true)

/-- What is written in the place of a content statement starts, behind the indentation, with a character that the lexeme
in front of the statement does not take up. -/
def Leads (text pad : Text) (start : Nat) (parts : List Text) : Prop :=
  ∃ d u, parts.head? = some (pad ++ d :: u) ∧
    ∀ l, (Java.lexemes (text.take start)).getLast? = some l → l.Meets (some d)

include hs

variable {u : Text}

theorem leads_of_before {d} (hd : Edit.isApart d = true) (hblank : isBlank d = false)
    (hbefore : before.head? = some (d :: u)) :
    Leads text pad s.span.start (before.map (indent pad) ++ [pad ++ statement] ++ after.map (indent pad)) := by
  obtain ⟨rest, hrest⟩ := Java.exists_indent_eq pad hblank u
  have hinside : s.span.start < text.length := Nat.lt_trans hs.start_lt (Sits.stop_lt hs)
  refine ⟨d, rest, ?_, fun l hl => ?_⟩
  · cases before with
    | nil => simp at hbefore
    | cons a before =>
      obtain rfl : a = d :: u := by simpa using hbefore
      simp [hrest]
  · exact Edit.meets_apart hs.uncut.start (Nat.le_of_lt hinside) (Edit.offLine_of_ne hinside hs.first) hd hl

theorem leads_of_statement {d} (hd : Edit.isApart d = true) (hstatement : statement = d :: u) :
    Leads text pad s.span.start
      (([] : List Text).map (indent pad) ++ [pad ++ statement] ++ after.map (indent pad)) := by
  have hinside : s.span.start < text.length := Nat.lt_trans hs.start_lt (Sits.stop_lt hs)
  refine ⟨d, u, by simp [hstatement], fun l hl => ?_⟩
  exact Edit.meets_apart hs.uncut.start (Nat.le_of_lt hinside) (Edit.offLine_of_ne hinside hs.first) hd hl

theorem leads_of_text :
    Leads text pad s.span.start (([] : List Text).map (indent pad) ++ [pad ++ s.text] ++ after.map (indent pad)) := by
  have hinside : s.span.start < text.length := Nat.lt_trans hs.start_lt (Sits.stop_lt hs)
  have hlt := hs.start_lt
  obtain ⟨u, hu⟩ : ∃ u, s.text = text[s.span.start] :: u := by
    rw [hs.text_eq, slice, List.drop_take, List.drop_eq_getElem_cons hinside]
    obtain ⟨n, hn⟩ : ∃ n, s.span.stop - s.span.start = n + 1 := ⟨s.span.stop - s.span.start - 1, by omega⟩
    rw [hn]
    exact ⟨_, rfl⟩
  refine ⟨text[s.span.start], u, by simp [hu], fun l hl => ?_⟩
  have hmeets := (hs.uncut.start.lexemes_take.2.last hl).meets
  rwa [List.head?_drop, List.getElem?_eq_getElem hinside] at hmeets

include hpad

theorem Sits.fits_content (hstatement : ∀ owed owed', owedAt (mask text) s.span.start = some owed →
      owedAt (mask text) s.span.stop = some owed' → Turns owed statement owed')
    (hbefore : ∀ u ∈ before, ∀ owed, Turns owed (indent pad u) owed)
    (hafter : ∀ u ∈ after, ∀ owed, Turns owed (indent pad u) owed)
    (hleads : Leads text pad s.span.start (before.map (indent pad) ++ [pad ++ statement] ++ after.map (indent pad))) :
    (⟨s.span.start, s.span.stop,
      (join ['\n'] (before.map (indent pad) ++ [pad ++ statement] ++ after.map (indent pad))).drop pad.length⟩ :
        Edit).Fits text := by
  obtain ⟨d, u, hhead, hmeets⟩ := hleads
  obtain ⟨v, hjoin⟩ := @exists_join_eq ['\n'] _ _ hhead
  rw [hjoin, List.append_assoc, List.drop_left]
  refine ⟨hs.uncut.start, hs.uncut.stop, Nat.lt_trans hs.start_lt (Sits.stop_lt hs), fun owed owed' howed howed' => ?_,
    fun l hl w => hmeets l hl⟩
  refine (Java.turns_blank_append hpad).1 ?_
  rw [← List.append_assoc, ← hjoin, List.append_assoc]
  refine Java.turns_join ((Java.turns_blank_append hpad).2 (hstatement owed owed' howed howed')) ?_ ?_
  · intro p hp
    obtain ⟨w, hw, rfl⟩ := List.mem_map.1 hp
    exact hafter w hw owed'
  · intro p hp
    obtain ⟨w, hw, rfl⟩ := List.mem_map.1 hp
    exact hbefore w hw owed

end Lines

end Conversion

end Rebind
