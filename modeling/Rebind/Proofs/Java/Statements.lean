/-
Where statements end.

A statement may run past the body it stands in, but not where the brackets of the text nest: then every step on the way
to its end stays in the body and leaves nothing open (`Reaches`).
-/
import Rebind.Java.Statement
import Rebind.Proofs.Java.Balance
import Rebind.Proofs.Java.Members

namespace Rebind.Java

open Text List Option Except

variable {masked text : Text} {o stop i j r : Nat} {ss : List Statement}

/-! ## Declarations -/

/-- The count of open brackets is that of the brackets owed above `base`, which stays owed up to `stop`. So nothing
is owed above it behind the semicolon that is found. -/
theorem owedAt_semicolonAfter? {masked o stop j base}
    (hbase : ∀ m, o < m → m ≤ stop → ∃ more, owedAt masked m = some (more ++ base)) :
    ∀ {t k more}, o < k → slice masked k stop = t →
    owedAt masked k = some (more ++ base) → semicolonAfter? more.length k t = some j → owedAt masked j = some base
  | [], k, more, _, _, _, h => by simp [semicolonAfter?] at h
  | c :: t, k, more, hok, ht, howed, h => by
    have hget : ∀ n, (c :: t)[n]? = if k + n < stop then masked[k + n]? else none := by
      intro n
      rw [← ht, getElem?_slice]
    have hk := hget 0
    have hlt : k < stop := by
      apply Classical.byContradiction
      intro hnot
      simp [hnot] at hk
    obtain hc : masked[k]? = some c := by simpa [hlt] using hk.symm
    have hrest : slice masked (k + 1) stop = t := by
      rw [slice, ← tail_drop, ← slice, ht]
      rfl
    obtain ⟨more', hnext⟩ := hbase (k + 1) (by omega) hlt
    have hstep : owedStep (more ++ base) c = some (more' ++ base) := by
      rw [owedAt_succ hc, howed, bind_some] at hnext
      exact hnext
    simp only [semicolonAfter?] at h
    split at h
    · next hend =>
      simp only [Bool.and_eq_true, beq_iff_eq, some.injEq] at h hend
      obtain ⟨rfl, hdepth⟩ := hend
      obtain rfl : more = [] := by simpa using hdepth
      subst h
      rw [hnext, ← hstep]
      exact owedStep_of_not_isBracket (by decide) base
    · refine owedAt_semicolonAfter? hbase (by omega) hrest hnext ?_
      have hdepth := length_of_owedStep hstep
      simp only [length_append] at hdepth
      rwa [show (more.length : Int) + bracketStep openers closers c = more'.length by omega] at h

theorem level_declarationEnd (hwell : WellBracketed masked)
    (ho : partner masked o = .ok stop) (hoi : o < i) (hi : SameLevel masked (o + 1) i)
    (h : declarationEnd masked i stop = .ok j) : SameLevel masked (o + 1) j := by
  obtain ⟨base, hopen, hwithin⟩ := exists_owedAt_within hwell ho
  simp only [declarationEnd] at h
  split at h
  · next k hk =>
    simp only [ok.injEq] at h
    subst h
    have howed : owedAt masked i = some ([] ++ base) := by
      rw [nil_append, ← hopen]
      exact hi.symm
    rw [SameLevel, hopen]
    exact (owedAt_semicolonAfter? hwithin hoi rfl howed hk).symm
  · simp at h

/-! ## Steps on the way to the end of a statement -/

/-- The reader goes from `i` on to `j`. Where the brackets nest and `stop` closes one that opens before
`i`, it does not go past `stop`, and leaves no bracket open on the way. -/
structure Reaches (masked : Text) (stop i j : Nat) : Prop where
  le : i ≤ j
  within : ∀ o, WellBracketed masked → partner masked o = .ok stop → o < i → i ≤ stop → j ≤ stop
  level : ∀ o, WellBracketed masked → partner masked o = .ok stop → o < i → i ≤ stop → SameLevel masked (o + 1) i →
    SameLevel masked (o + 1) j

namespace Reaches

variable {masked : Text} {stop i j k : Nat}

theorem refl (masked : Text) (stop i : Nat) : Reaches masked stop i i :=
  ⟨Nat.le_refl _, fun _ _ _ _ h => h, fun _ _ _ _ _ h => h⟩

theorem trans (h : Reaches masked stop i j) (h' : Reaches masked stop j k) : Reaches masked stop i k where
  le := Nat.le_trans h.le h'.le
  within o hwell ho hi hstop := h'.within o hwell ho (Nat.lt_of_lt_of_le hi h.le) (h.within o hwell ho hi hstop)
  level o hwell ho hi hstop hlevel :=
    h'.level o hwell ho (Nat.lt_of_lt_of_le hi h.le) (h.within o hwell ho hi hstop) (h.level o hwell ho hi hstop hlevel)

theorem skipBlanks (masked : Text) (stop i : Nat) : Reaches masked stop i (skipBlanks masked i stop) where
  le := le_skipBlanks masked i stop
  within _ _ _ _ hstop := skipBlanks_le hstop
  level _ _ _ _ _ hlevel := hlevel.trans (level_skipBlanks masked i stop)

theorem partner (h : partner masked i = .ok j) : Reaches masked stop i (j + 1) where
  le := Nat.le_succ_of_le (Nat.le_of_lt (partner_lt_length h).1)
  within o hwell ho hi hstop := by
    -- the bracket that opens at `i` is not the one that closes at `stop`
    have hne : i ≠ stop := by
      rintro rfl
      obtain ⟨_, closer, -, hkind, -, hcloser, -⟩ := partner_spec ho
      obtain ⟨opener, closer', hopener, hkind', -⟩ := partner_spec h
      rw [hcloser, some.injEq] at hopener
      rw [← hopener, closerOf?_of_mem_closers (mem_closers hkind)] at hkind'
      simp at hkind'
    exact partner_lt hwell ho hi (by omega) h
  level _ hwell _ _ _ hlevel := hlevel.trans (level_partner hwell h)

theorem front {front rest : Text} (h : masked.drop i = front ++ rest) (hfront : brackets front = []) :
    Reaches masked stop i (i + front.length) where
  le := Nat.le_add_right _ _
  within o _ ho _ hstop := by
    apply Classical.byContradiction
    intro hlt
    obtain ⟨_, closer, -, hkind, -, hcloser, -⟩ := partner_spec ho
    have hget := congrArg (·[stop - i]?) h
    simp only [getElem?_drop, getElem?_append_left (show stop - i < front.length by omega),
      show i + (stop - i) = stop by omega, hcloser] at hget
    have hbracket : isBracket closer = true := by simp [isBracket, mem_closers hkind]
    have hmem : closer ∈ brackets front := mem_filter.2 ⟨mem_of_getElem? hget.symm, hbracket⟩
    rw [hfront] at hmem
    cases hmem
  level _ _ _ _ _ hlevel := by
    refine hlevel.trans (level_of_brackets_nil (Nat.le_add_right _ _) ?_)
    rw [slice, drop_take, Nat.add_sub_cancel_left, h, take_left]
    exact hfront

theorem name {word rest} (h : name? (masked.drop i) = some (word, rest)) :
    i < masked.length - rest.length ∧ Reaches masked stop i (masked.length - rest.length) := by
  cases hdrop : masked.drop i with
  | nil => simp [hdrop, name?] at h
  | cons c t =>
    rw [hdrop, name?] at h
    split at h
    · next hc =>
      obtain ⟨-, rfl⟩ := h
      have hsplit : masked.drop i = (c :: t.takeWhile isNamePart) ++ t.dropWhile isNamePart := by
        rw [hdrop, cons_append, takeWhile_append_dropWhile]
      have hlen := congrArg List.length hsplit
      rw [length_drop, length_append, length_cons] at hlen
      have hreach := @front masked stop i _ _ hsplit (brackets_eq_nil fun d hd => by
        rcases mem_cons.1 hd with rfl | hd
        · exact not_isBracket_of_class (by decide) hc
        · exact not_isBracket_of_isNamePart (all_eq_true.1 all_takeWhile d hd))
      rw [length_cons, show i + ((t.takeWhile isNamePart).length + 1) =
        masked.length - (t.dropWhile isNamePart).length by omega] at hreach
      exact ⟨by omega, hreach⟩
    · simp at h

theorem declaration (h : declarationEnd masked i stop = .ok j) : Reaches masked stop i j where
  le := Nat.le_of_lt (declarationEnd_spec h).1
  within _ _ _ _ _ := (declarationEnd_spec h).2.1
  level _ hwell ho hi _ hlevel := level_declarationEnd hwell ho hi hlevel h

end Reaches

/-- The code before an offset ends with a semicolon or a closing bracket. -/
def EndsCode (masked : Text) (j : Nat) : Prop := ∃ c ∈ ';' :: closers, masked[j - 1]? = some c

theorem endsCode_partner (h : partner masked i = .ok j) : EndsCode masked (j + 1) := by
  obtain ⟨_, closer, -, hkind, -, hj, -⟩ := partner_spec h
  exact ⟨closer, mem_cons_of_mem _ (mem_closers hkind), hj⟩

theorem EndsCode.le_length (h : EndsCode masked j) (hj : 0 < j) : j ≤ masked.length := by
  obtain ⟨c, -, hc⟩ := h
  have := (List.getElem?_eq_some_iff.1 hc).1
  omega

theorem clausesEnd_spec {masked stop j r} (h : clausesEnd masked stop j = .ok r) :
    Reaches masked stop j r ∧ (EndsCode masked j → EndsCode masked r) := by
  have next : ∀ {b}, Reaches masked stop j b →
      (do
        let last ← partner masked b
        if _h : j < last + 1 ∧ j < masked.length then clausesEnd masked stop (last + 1)
        else return last + 1) = .ok r → Reaches masked stop j r ∧ EndsCode masked r := by
    intro b hb h
    obtain ⟨last, hlast, h⟩ := bind_eq_ok.1 h
    have hreach := hb.trans (.partner hlast)
    split at h
    · obtain ⟨h1, h2⟩ := clausesEnd_spec h
      exact ⟨hreach.trans h1, h2 (endsCode_partner hlast)⟩
    · rw [pure_eq_ok] at h
      subst h
      exact ⟨hreach, endsCode_partner hlast⟩
  rw [clausesEnd] at h
  split at h
  · next word rest hname =>
    have hword := (Reaches.skipBlanks masked stop j).trans (Reaches.name hname).2
    split at h
    · obtain ⟨head, hhead, h⟩ := bind_eq_ok.1 h
      obtain ⟨h1, h2⟩ := next (((hword.trans (.skipBlanks ..)).trans (.partner hhead)).trans (.skipBlanks ..)) h
      exact ⟨h1, fun _ => h2⟩
    · split at h
      · obtain ⟨h1, h2⟩ := next (hword.trans (.skipBlanks ..)) h
        exact ⟨h1, fun _ => h2⟩
      · simp only [ok.injEq] at h
        subst h
        exact ⟨.refl masked stop j, id⟩
  · simp only [ok.injEq] at h
    subst h
    exact ⟨.refl masked stop j, id⟩
termination_by masked.length - j

/-- A statement may end there: behind its start, with a semicolon or a closing bracket, and in the body
where brackets nest. -/
def Ends (masked : Text) (stop i r : Nat) : Prop := i < r ∧ Reaches masked stop i r ∧ EndsCode masked r

theorem ends_declaration {masked stop i r} (h : declarationEnd masked i stop = .ok r) :
    Ends masked stop i r :=
  ⟨(declarationEnd_spec h).1, .declaration h, ';', by simp, (declarationEnd_spec h).2.2.2⟩

theorem ends_partner (h : partner masked i = .ok j) : Ends masked stop i (j + 1) :=
  ⟨Nat.lt_succ_of_lt (partner_lt_length h).1, .partner h, endsCode_partner h⟩

theorem ends_semicolon (h : masked[i]? = some ';') : Ends masked stop i (i + 1) := by
  have hsplit : masked.drop i = [';'] ++ masked.drop (i + 1) := by
    obtain ⟨hlt, hget⟩ := List.getElem?_eq_some_iff.1 h
    rw [drop_eq_getElem_cons hlt, hget]
    rfl
  exact ⟨Nat.lt_succ_self i, .front hsplit rfl, ';', by simp, by simpa using h⟩

theorem ends_clauses (hj : Reaches masked stop i j)
    (h : (do clausesEnd masked stop ((← partner masked j) + 1)) = .ok r) : Ends masked stop i r := by
  obtain ⟨last, hlast, h⟩ := bind_eq_ok.1 h
  obtain ⟨h1, h2⟩ := clausesEnd_spec h
  have := (partner_lt_length hlast).1
  have := h1.le
  have := hj.le
  exact ⟨by omega, (hj.trans (.partner hlast)).trans h1, h2 (endsCode_partner hlast)⟩

/-- Behind a controlled statement one more may follow, after `else`. -/
theorem ends_else {word : Text} {next : Nat → Except ReadError Nat} (hj : Ends masked stop i j)
    (hnext : ∀ {k}, Reaches masked stop i k → next k = .ok r → Ends masked stop i r)
    (h : (match if word == "if" then after? "else" (masked.drop (skipBlanks masked j stop)) else none with
      | some rest => if wordEnds rest then next (skipBlanks masked j stop + 4) else pure j
      | none => pure j) = .ok r) : Ends masked stop i r := by
  split at h
  · next rest helse =>
    split at h
    · split at helse
      · exact hnext ((hj.2.1.trans (.skipBlanks ..)).trans
          (.front (after?_eq_some.1 helse) rfl)) h
      · simp at helse
    · rw [pure_eq_ok] at h
      exact h ▸ hj
  · rw [pure_eq_ok] at h
    exact h ▸ hj

/-- A statement ends with a semicolon or a closing bracket, behind its start and in the text. -/
theorem statementEnd_spec {masked : Text} {stop i r : Nat} (h : statementEnd masked stop i = .ok r) :
    Ends masked stop i r := by
  have inner : ∀ {j r}, Reaches masked stop i j →
      (if _h : i < skipBlanks masked j stop ∧ i < masked.length then
        statementEnd masked stop (skipBlanks masked j stop)
      else .error .endOfText) = .ok r → Ends masked stop i r := by
    intro j r hj h
    split at h
    · next hlt =>
      obtain ⟨h1, h2, h3⟩ := statementEnd_spec h
      exact ⟨by omega, (hj.trans (.skipBlanks ..)).trans h2, h3⟩
    · simp at h
  rw [statementEnd] at h
  split at h
  · simp at h
  · obtain ⟨j, hj, h⟩ := bind_eq_ok.1 h
    rw [pure_eq_ok] at h
    exact h ▸ ends_partner hj
  · next hi =>
    simp only [ok.injEq] at h
    exact h ▸ ends_semicolon hi
  · simp only at h
    split at h
    · exact ends_declaration h
    · next word rest hname =>
      obtain ⟨hlt, hword⟩ := @Reaches.name masked stop i word rest hname
      split at h
      · have hhead := hword.trans (.skipBlanks ..)
        split at h
        · obtain ⟨close, hclose, h⟩ := bind_eq_ok.1 h
          rw [pure_bind] at h
          obtain ⟨j, hj, h⟩ := bind_eq_ok.1 h
          exact ends_else (inner (hhead.trans (.partner hclose)) hj) (fun hk => inner hk) h
        · rw [pure_bind] at h
          obtain ⟨j, hj, h⟩ := bind_eq_ok.1 h
          exact ends_else (inner hhead hj) (fun hk => inner hk) h
      · split at h
        · obtain ⟨j, hj, h⟩ := bind_eq_ok.1 h
          obtain ⟨h1, h2, -⟩ := inner hword hj
          obtain ⟨h3, h4, h5⟩ := @ends_declaration masked stop j r h
          exact ⟨by omega, h2.trans h4, h5⟩
        · split at h
          · have hblock := hword.trans (.skipBlanks ..)
            split at h
            · obtain ⟨close, hclose, h⟩ := bind_eq_ok.1 h
              exact ends_clauses ((hblock.trans (.partner hclose)).trans (.skipBlanks ..)) h
            · exact ends_clauses hblock h
          · exact ends_declaration h
termination_by masked.length - i

/-- A statement of a body starts in the body and ends as statements do. -/
structure Statement.Placed (masked : Text) (start stop : Nat) (s : Statement) : Prop where
  le_start : start ≤ s.span.start
  start_lt : s.span.start < stop
  start_lt_stop : s.span.start < s.span.stop
  reaches : Reaches masked stop s.span.start s.span.stop
  endsCode : EndsCode masked s.span.stop

/-- Each statement is read behind the blanks from an offset at which holds what holds where reading starts and is kept
by the reading of a statement. -/
theorem mem_statementsFrom {P : Nat → Prop} {text masked stop i ss}
    (hnext : ∀ {j last}, P j → skipBlanks masked j stop < stop →
      statementEnd masked stop (skipBlanks masked j stop) = .ok last → P last)
    (hi : P i) (h : statementsFrom text masked stop i = .ok ss) :
    ∀ s ∈ ss, ∃ j, P j ∧ i ≤ j ∧ s.span.start = skipBlanks masked j stop ∧ s.span.start < stop ∧
      statementEnd masked stop s.span.start = .ok s.span.stop ∧ s.text = slice text s.span.start s.span.stop := by
  have hij := le_skipBlanks masked i stop
  rw [statementsFrom] at h
  split at h
  · next hj =>
    obtain ⟨last, hlast, h⟩ := bind_eq_ok.1 h
    have hlt := (statementEnd_spec hlast).1
    rw [dif_pos hlt] at h
    obtain ⟨rest, hrest, rfl⟩ := bind_pure_eq_ok.1 h
    intro s hs
    rcases mem_cons.1 hs with rfl | hs
    · exact ⟨i, hi, Nat.le_refl _, rfl, hj, hlast, rfl⟩
    · obtain ⟨j, hP, hle, hread⟩ := mem_statementsFrom hnext (hnext hi hj hlast) hrest s hs
      exact ⟨j, hP, by omega, hread⟩
  · simp only [ok.injEq] at h
    subst h
    simp
termination_by stop - i

theorem statementsFrom_spec (h : statementsFrom text masked stop i = .ok ss) : ∀ s ∈ ss, s.Placed masked i stop := by
  intro s hs
  obtain ⟨j, -, hij, hstart, hlt, hend, -⟩ :=
    mem_statementsFrom (P := fun _ => True) (fun _ _ _ => trivial) trivial h s hs
  obtain ⟨h1, h2, h3⟩ := statementEnd_spec hend
  have hskip := le_skipBlanks masked j stop
  exact ⟨by omega, hlt, h1, h2, h3⟩

theorem statementsFrom_level (hwell : WellBracketed masked)
    (ho : partner masked o = .ok stop) (hoi : o < i) (hlevel : SameLevel masked (o + 1) i)
    (h : statementsFrom text masked stop i = .ok ss) :
    ∀ s ∈ ss, SameLevel masked (o + 1) s.span.start ∧ SameLevel masked (o + 1) s.span.stop := by
  have next : ∀ {j last}, o < j ∧ SameLevel masked (o + 1) j → skipBlanks masked j stop < stop →
      statementEnd masked stop (skipBlanks masked j stop) = .ok last → o < last ∧ SameLevel masked (o + 1) last := by
    intro j last hj hlt hend
    obtain ⟨h1, h2, -⟩ := statementEnd_spec hend
    have hskip := le_skipBlanks masked j stop
    exact ⟨by omega, h2.level o hwell ho (by omega) (by omega) (hj.2.trans (level_skipBlanks masked j stop))⟩
  intro s hs
  obtain ⟨j, hj, -, hstart, hlt, hend, -⟩ := mem_statementsFrom next ⟨hoi, hlevel⟩ h s hs
  rw [hstart] at hlt hend ⊢
  exact ⟨hj.2.trans (level_skipBlanks masked j stop), (next hj hlt hend).2⟩

theorem partner_lt_of_level {k l : Nat} (hwell : WellBracketed masked)
    (ho : partner masked o = .ok stop) (hoi : o < i) (hj : SameLevel masked (o + 1) j) (hik : i ≤ k) (hkj : k < j)
    (hjs : j ≤ stop) (hk : partner masked k = .ok l) : l < j := by
  apply Classical.byContradiction
  intro hnot
  -- what is owed inside of the inner pair is more than what is owed at `j`
  obtain ⟨base, hbase, hwithin⟩ := exists_owedAt_within hwell ho
  obtain ⟨closer, below, hbelow, hwithin', -⟩ := owedAfter_partner hwell hk
  obtain ⟨more, hmore⟩ := hwithin k (by omega) (by omega)
  obtain ⟨more', hmore'⟩ := hwithin' j hkj (by omega)
  obtain rfl : below = more ++ base := some.inj (hbelow.symm.trans hmore)
  have hsame : some base = some (more' ++ closer :: (more ++ base)) := by
    rw [← hbase, ← hmore']
    exact hj
  have hlen := congrArg List.length (some.inj hsame)
  simp only [length_cons, length_append] at hlen
  omega

theorem text_of_mem_statementsFrom
    (h : statementsFrom text masked stop i = .ok ss) : ∀ s ∈ ss, s.text = slice text s.span.start s.span.stop := by
  intro s hs
  obtain ⟨j, -, -, -, -, -, htext⟩ := mem_statementsFrom (P := fun _ => True) (fun _ _ _ => trivial) trivial h s hs
  exact htext

end Rebind.Java
