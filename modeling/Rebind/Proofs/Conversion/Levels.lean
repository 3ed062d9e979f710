/-
The brackets of the calls that a conversion looks for.

What a recogniser passes over turns what is owed in front of it into what is owed behind it (`Takes`).
-/
import Rebind.Proofs.Conversion.Phrases

namespace Rebind.Conversion

open Java Text List Option

/-! ## Brackets that are passed over -/

section Takes

variable {masked : Text} {e : Nat} {a b c : List Char} {t u rest : Text}

/-- Before `e` the text goes on with `t`, and further on with `rest`. In between the brackets turn what is owed: where
the closing brackets of the first list come first, there come those of the second. -/
def Takes (masked : Text) (e : Nat) (a : List Char) (t rest : Text) (b : List Char) : Prop :=
  rest <:+ t ∧ ∀ i owed, slice masked i e = t → owedAt masked i = some (a ++ owed) →
    owedAt masked (i + (t.length - rest.length)) = some (b ++ owed)

theorem slice_of_suffix {i} (ht : slice masked i e = t) (h : u <:+ t) :
    slice masked (i + (t.length - u.length)) e = u := by
  rw [suffix_iff_eq_drop.1 h, length_drop, ← ht, slice, slice, drop_drop]
  congr 1
  omega

namespace Takes

theorem refl (masked : Text) (e : Nat) (a : List Char) (t : Text) : Takes masked e a t t a :=
  ⟨suffix_refl t, fun i owed _ howed => by simpa using howed⟩

theorem trans (h : Takes masked e a t u b) (h' : Takes masked e b u rest c) : Takes masked e a t rest c := by
  refine ⟨h'.1.trans h.1, fun i owed ht howed => ?_⟩
  have hu := h.1.length_le
  have hrest := h'.1.length_le
  have hlast := h'.2 _ owed (slice_of_suffix ht h.1) (h.2 i owed ht howed)
  rw [show i + (t.length - rest.length) = i + (t.length - u.length) + (u.length - rest.length) by omega]
  exact hlast

theorem front {piece} (h : t = piece ++ rest)
    (hpiece : ∀ below, owedAfter (a ++ below) piece = some (b ++ below)) : Takes masked e a t rest b := by
  refine ⟨⟨piece, h.symm⟩, fun i owed ht howed => ?_⟩
  have hlength : t.length - rest.length = piece.length := by simp [h]
  rw [hlength, owedAt_slice (Nat.le_add_right i _), howed, bind_some, slice_front (ht.trans h)]
  exact hpiece owed

theorem past {p} (hp : "()\x7b\x7d[]".toList.any p = false) (h : Past p t rest) (a : List Char) :
    Takes masked e a t rest a := by
  obtain ⟨piece, h, hpiece⟩ := h
  refine .front h fun _ => owedAfter_of_brackets_nil (brackets_eq_nil fun c hc => ?_) _
  exact not_isBracket_of_class hp (all_eq_true.1 hpiece c hc)

theorem after (p : String) (h : after? p.toList t = some rest)
    (hp : ∀ below, owedAfter (a ++ below) p.toList = some (b ++ below)) : Takes masked e a t rest b :=
  .front (after?_eq_some.1 h) hp

end Takes

variable (masked e a)

theorem takes_dropBlanks (t : Text) : Takes masked e a t (dropBlanks t) a :=
  .past (p := isBlank) (by decide) (.of_dropWhile (fun _ => id) t) a

theorem takes_name? {v} (h : name? t = some (v, rest)) : Takes masked e a t rest a := by
  refine .past (p := fun c => isNameStart c || isNamePart c) (by decide +kernel) ?_ a
  cases t with
  | nil => simp [name?] at h
  | cons c t =>
    simp only [name?] at h
    split at h
    · next hc =>
      obtain ⟨-, rfl⟩ := Prod.mk.inj (some.inj h)
      exact .trans ⟨[c], rfl, by simp [hc]⟩ (.of_dropWhile (fun _ h => by simp [h]) t)
    · simp at h

theorem takes_dot? (h : dot? t = some rest) : Takes masked e a t rest a := by
  obtain ⟨u, hu, rfl⟩ := map_eq_some_iff.1 h
  exact (takes_dropBlanks masked e a t).trans
    ((Takes.after "." hu fun _ => rfl).trans (takes_dropBlanks masked e a u))

variable {masked e a}

theorem takes_spaced? (p : String) (h : spaced? p.toList t = some rest)
    (hp : ∀ below, owedAfter (a ++ below) p.toList = some (b ++ below)) : Takes masked e a t rest b :=
  (takes_dropBlanks masked e a t).trans (.after p h hp)

end Takes

/-! ## Calls -/

section Calls

variable {masked : Text} {e : Nat} {t rest : Text}

theorem takes_callTo (h : CallTo t rest) : Takes masked e [] t rest [')'] :=
  (Takes.past (by decide +kernel) h.2 []).trans (.front (singleton_append).symm fun _ => rfl)

theorem closeAfter_afterArguments? : ∀ {t inner}, afterArguments? inner t = some rest →
    rest.length < t.length ∧ rest <:+ t ∧ ∀ more pos,
      closeAfter '(' ')' (if inner then 2 else 1) pos (t ++ more) = some (pos + (t.length - rest.length - 1))
  | [], inner, h => by simp [afterArguments?] at h
  | c :: t, inner, h => by
    have next : ∀ {inner'}, afterArguments? inner' t = some rest → rest.length < (c :: t).length ∧ rest <:+ c :: t ∧
        ∀ more pos, closeAfter '(' ')' (if inner' then 2 else 1) (pos + 1) (t ++ more) =
          some (pos + ((c :: t).length - rest.length - 1)) := by
      intro inner' h
      obtain ⟨hlt, hsuffix, hclose⟩ := closeAfter_afterArguments? h
      refine ⟨by rw [length_cons]; omega, hsuffix.trans (suffix_cons c t), fun more pos => ?_⟩
      rw [hclose, length_cons]
      congr 1
      omega
    simp only [afterArguments?] at h
    by_cases hopen : c = '('
    · rw [if_pos (by simpa using hopen)] at h
      cases inner with
      | true => simp at h
      | false =>
        obtain ⟨hlt, hsuffix, hclose⟩ := next h
        refine ⟨hlt, hsuffix, fun more pos => ?_⟩
        rw [cons_append, closeAfter, if_pos (by simpa using hopen)]
        exact hclose more pos
    · rw [if_neg (by simpa using hopen)] at h
      by_cases hclosing : c = ')'
      · rw [if_pos (by simpa using hclosing)] at h
        cases inner with
        | true =>
          obtain ⟨hlt, hsuffix, hclose⟩ := next h
          refine ⟨hlt, hsuffix, fun more pos => ?_⟩
          rw [cons_append, closeAfter, if_neg (by simpa using hopen), if_pos (by simpa using hclosing),
            if_neg (by simp)]
          exact hclose more pos
        | false =>
          obtain rfl : t = rest := by simpa using h
          refine ⟨by simp, suffix_cons c t, fun more pos => ?_⟩
          rw [cons_append, closeAfter, if_neg (by simpa using hopen), if_pos (by simpa using hclosing),
            if_pos (by simp)]
          simp
      · rw [if_neg (by simpa using hclosing)] at h
        obtain ⟨hlt, hsuffix, hclose⟩ := next h
        refine ⟨hlt, hsuffix, fun more pos => ?_⟩
        rw [cons_append, closeAfter, if_neg (by simpa using hopen), if_neg (by simpa using hclosing)]
        exact hclose more pos

theorem partner_of_closeAfter {masked i j opener closer} (hi : masked[i]? = some opener)
    (hkind : closerOf? opener = some closer) (h : closeAfter opener closer 1 (i + 1) (masked.drop (i + 1)) = some j) :
    partner masked i = .ok j := by
  obtain ⟨hlt, hget⟩ := List.getElem?_eq_some_iff.1 hi
  simp only [partner, drop_eq_getElem_cons hlt, hget, hkind, h]

variable (hwell : WellBracketed masked)

include hwell

theorem takes_arguments {u} (hu : spaced? "(" t = some u) (h : afterArguments? false u = some rest) :
    Takes masked e [] t rest [] := by
  have hopen := after?_eq_some.1 hu
  obtain ⟨hlt, hsuffix, hclose⟩ := closeAfter_afterArguments? h
  have hlength : (dropBlanks t).length = u.length + 1 := by simp [hopen]
  refine (takes_dropBlanks masked e [] t).trans ⟨hsuffix.trans ⟨_, hopen.symm⟩, fun i owed ht howed => ?_⟩
  rw [hopen] at ht
  have hget := getElem?_front (k := 0) ht (by simp)
  have hie : i + 1 ≤ e := by
    have := congrArg List.length ht
    simp only [length_slice, length_append] at this
    omega
  have hdrop : masked.drop (i + 1) = u ++ masked.drop e := by
    have hrest : slice masked (i + 1) e = u := by
      rw [slice, ← tail_drop, ← slice, ht]
      rfl
    rw [← hrest, slice, drop_take]
    conv => lhs; rw [← take_append_drop (e - (i + 1)) (masked.drop (i + 1)), drop_drop, Nat.add_sub_cancel' hie]
  have hpartner : partner masked i = .ok (i + 1 + (u.length - rest.length - 1)) := by
    refine partner_of_closeAfter hget rfl ?_
    rw [hdrop]
    exact hclose _ _
  have hlevel := level_partner hwell hpartner
  rw [SameLevel, howed] at hlevel
  rw [hlength, show i + (u.length + 1 - rest.length) = i + 1 + (u.length - rest.length - 1) + 1 by omega]
  exact hlevel.symm

theorem takes_receiverPart? (h : receiverPart? t = some rest) : Takes masked e [] t rest [] := by
  simp only [receiverPart?, bind_eq_bind, bind_eq_some_iff, or_eq_some_iff] at h
  obtain ⟨⟨v, u⟩, hu, h⟩ := h
  refine (takes_name? masked e _ hu).trans ?_
  rcases h with ⟨x, ⟨y, hy, hx⟩, h⟩ | ⟨-, h⟩
  · exact (takes_arguments hwell hy hx).trans (takes_dot? masked e _ h)
  · exact takes_dot? masked e _ h

theorem takes_afterReceivers {r} (hr : r ∈ afterReceivers t) : Takes masked e [] t r [] := by
  fun_induction afterReceivers t with
  | case1 t u hu hlt ih =>
    rcases mem_cons.1 hr with rfl | hr
    · exact .refl masked e [] r
    · exact (takes_receiverPart? hwell hu).trans (ih hr)
  | case2 t u hu hlt =>
    rw [mem_singleton.1 hr]
    exact .refl masked e [] t
  | case3 t hnone =>
    rw [mem_singleton.1 hr]
    exact .refl masked e [] t

theorem takes_inflateCall? {n} (h : inflateCall? t = some (n, rest)) : Takes masked e [] t rest [')'] := by
  obtain ⟨r, hr, h⟩ := exists_of_findSome?_eq_some h
  simp only [bind_eq_bind, bind_eq_some_iff, some.injEq, Prod.mk.injEq] at h
  obtain ⟨u, ⟨v, hv, hu⟩, -, rfl⟩ := h
  exact (takes_afterReceivers hwell (mem_reverse.1 hr)).trans
    ((Takes.after "inflate" hv fun _ => rfl).trans (takes_spaced? "(" hu fun _ => rfl))

end Calls

/-! ## Matches -/

section Matches

variable {α : Type} {r : Recogniser α} {masked : Text} {s e : Nat} {m : Match α} (hwell : WellBracketed masked)
  (hm : MatchWithin r masked s e m)

include hwell hm

theorem level_match (hr : ∀ {t v rest}, r t = some (v, rest) → Takes masked e [] t rest []) :
    SameLevel masked m.start m.stop := by
  obtain ⟨rest, haccept, hstop⟩ := hm.accepts
  obtain ⟨owed, howed⟩ := exists_owedAt hwell m.start
  rw [SameLevel, hstop, (hr haccept).2 m.start owed rfl howed, howed]
  rfl

/-- A call is found up to its opening parenthesis, and closes with the partner of that one. -/
theorem level_call (hr : ∀ {t v rest}, r t = some (v, rest) → Takes masked e [] t rest [')']) {closing}
    (hclosing : partner masked (m.stop - 1) = .ok closing) :
    m.start < m.stop ∧ SameLevel masked m.start (m.stop - 1) ∧ SameLevel masked m.start (closing + 1) := by
  obtain ⟨rest, haccept, hstop⟩ := hm.accepts
  obtain ⟨owed, howed⟩ := exists_owedAt hwell m.start
  obtain ⟨below, hbelow⟩ := exists_owedAt hwell (m.stop - 1)
  have hopen : owedAt masked m.stop = some (')' :: owed) := by
    rw [hstop]
    exact (hr haccept).2 m.start owed rfl howed
  have hlt : m.start < m.stop := by
    rcases Nat.lt_or_ge m.start m.stop with hlt | hge
    · exact hlt
    · rw [Nat.le_antisymm hge hm.start_le, howed] at hopen
      simp at hopen
  obtain ⟨opener, closer, hget, hkind, -⟩ := partner_spec hclosing
  have hstep := owedAt_succ hget
  rw [Nat.sub_add_cancel (by omega), hopen, hbelow, bind_some] at hstep
  obtain ⟨-, rfl⟩ : ')' = closer ∧ owed = below := by simpa [owedStep, hkind] using hstep
  have hlevel : SameLevel masked m.start (m.stop - 1) := howed.trans hbelow.symm
  exact ⟨hlt, hlevel, hlevel.trans (level_partner hwell hclosing)⟩

end Matches

end Rebind.Conversion
