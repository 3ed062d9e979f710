/-
Brackets and their partners. A partner is found by counting brackets of one kind only.
-/
import Rebind.Java.Bracket
import Rebind.Proofs.Except
import Rebind.Proofs.Text.Offset

namespace Rebind.Java

open Text List Option

variable {owed owed' : List Char}

/-! ## Where partners and semicolons stand -/

theorem closeAfter_spec {opener closer} : ∀ {t depth pos j},
    closeAfter opener closer depth pos t = some j →
    pos ≤ j ∧ j < pos + t.length ∧ t[j - pos]? = some closer
  | [], _, _, _, h => by simp [closeAfter] at h
  | c :: t, depth, pos, j, h => by
    have next : ∀ {d}, closeAfter opener closer d (pos + 1) t = some j →
        pos ≤ j ∧ j < pos + (c :: t).length ∧ (c :: t)[j - pos]? = some closer := by
      intro d hd
      obtain ⟨h1, h2, h3⟩ := closeAfter_spec hd
      refine ⟨by omega, by simp only [length_cons]; omega, ?_⟩
      rw [show j - pos = j - (pos + 1) + 1 by omega, getElem?_cons_succ]
      exact h3
    simp only [closeAfter] at h
    split at h
    · exact next h
    · split at h
      · next hc =>
        split at h
        · simp only [some.injEq] at h
          subst h
          simp only [beq_iff_eq] at hc
          simp [hc]
        · exact next h
      · exact next h

variable {masked : Text} {i j o c : Nat} {opener closer : Char}

theorem partner_spec (h : partner masked i = .ok j) :
    ∃ opener closer, masked[i]? = some opener ∧ closerOf? opener = some closer ∧ i < j ∧
      masked[j]? = some closer ∧ closeAfter opener closer 1 (i + 1) (masked.drop (i + 1)) = some j := by
  simp only [partner] at h
  split at h
  · simp at h
  · next opener rest hdrop =>
    have hi : masked[i]? = some opener := by
      have := congrArg (·[0]?) hdrop
      simpa using this
    have hrest : masked.drop (i + 1) = rest := by
      rw [← tail_drop, hdrop]
      rfl
    split at h
    · simp at h
    · next closer hcloser =>
      split at h
      · next k hk =>
        simp only [Except.ok.injEq] at h
        subst h
        obtain ⟨h1, -, h3⟩ := closeAfter_spec hk
        refine ⟨opener, closer, hi, hcloser, by omega, ?_, by rw [hrest]; exact hk⟩
        rw [← hrest, getElem?_drop, show i + 1 + (k - (i + 1)) = k by omega] at h3
        exact h3
      · simp at h

theorem partner_lt_length (h : partner masked i = .ok j) : i < j ∧ j < masked.length := by
  obtain ⟨_, _, -, -, hij, hj, -⟩ := partner_spec h
  exact ⟨hij, (List.getElem?_eq_some_iff.1 hj).1⟩

theorem semicolonAfter?_spec : ∀ {t depth pos j}, semicolonAfter? depth pos t = some j →
    pos < j ∧ j ≤ pos + t.length ∧ t[j - 1 - pos]? = some ';'
  | [], _, _, _, h => by simp [semicolonAfter?] at h
  | c :: t, depth, pos, j, h => by
    simp only [semicolonAfter?] at h
    split at h
    · next hc =>
      simp only [some.injEq] at h
      simp only [Bool.and_eq_true, beq_iff_eq] at hc
      subst h
      simp [hc.1]
    · obtain ⟨h1, h2, h3⟩ := semicolonAfter?_spec h
      refine ⟨by omega, by simp only [length_cons]; omega, ?_⟩
      rw [show j - 1 - pos = j - 1 - (pos + 1) + 1 by omega, getElem?_cons_succ]
      exact h3

theorem declarationEnd_spec {stop} (h : declarationEnd masked i stop = .ok j) :
    i < j ∧ j ≤ stop ∧ j ≤ masked.length ∧ masked[j - 1]? = some ';' := by
  simp only [declarationEnd] at h
  split at h
  · next k hk =>
    simp only [Except.ok.injEq] at h
    subst h
    obtain ⟨h1, h2, h3⟩ := semicolonAfter?_spec hk
    rw [getElem?_slice] at h3
    split at h3
    · rw [show i + (k - 1 - i) = k - 1 by omega] at h3
      have := (List.getElem?_eq_some_iff.1 h3).1
      exact ⟨h1, by omega, by omega, h3⟩
    · simp at h3
  · simp at h

/-! ## Brackets of one kind -/

theorem closeAfter_of_lt {opener closer} : ∀ {t d e pos j}, 1 ≤ d → d < e →
    closeAfter opener closer e pos t = some j →
    ∃ k, k < j ∧ closeAfter opener closer d pos t = some k
  | [], _, _, _, _, _, _, h => by simp [closeAfter] at h
  | c :: t, d, e, pos, j, hd, hde, h => by
    simp only [closeAfter] at h ⊢
    split at h
    · next hc => rw [if_pos hc]; exact closeAfter_of_lt (by omega) (by omega) h
    · next hc =>
      rw [if_neg hc]
      split at h
      · next hc' =>
        rw [if_pos hc']
        split at h
        · omega
        · split
          · exact ⟨pos, by have := (closeAfter_spec h).1; omega, rfl⟩
          · exact closeAfter_of_lt (by omega) (by omega) h
      · next hc' => rw [if_neg hc']; exact closeAfter_of_lt hd hde h

theorem closeAfter_drop {opener closer} : ∀ {n t depth pos j}, 1 ≤ depth →
    pos + n ≤ j → closeAfter opener closer depth pos t = some j →
    ∃ d, 1 ≤ d ∧ closeAfter opener closer d (pos + n) (t.drop n) = some j
  | 0, _, depth, _, _, hd, _, h => ⟨depth, hd, h⟩
  | n + 1, [], _, _, _, _, _, h => by simp [closeAfter] at h
  | n + 1, c :: t, depth, pos, j, hd, hle, h => by
    rw [drop_succ_cons, show pos + (n + 1) = pos + 1 + n by omega]
    simp only [closeAfter] at h
    split at h
    · exact closeAfter_drop (by omega) (by omega) h
    · split at h
      · split at h
        · simp only [some.injEq] at h
          omega
        · exact closeAfter_drop (by omega) (by omega) h
      · exact closeAfter_drop hd (by omega) h

/-- For brackets of one kind the same holds of every text. -/
theorem partner_lt_of_same (h : partner masked o = .ok c) (hoi : o < i) (hic : i < c) (hkind : masked[i]? = masked[o]?)
    (hj : partner masked i = .ok j) : j < c := by
  obtain ⟨opener, closer, ho, hcl, -, -, hclose⟩ := partner_spec h
  obtain ⟨opener', closer', hi, hcl', -, -, hclose'⟩ := partner_spec hj
  obtain rfl : opener = opener' := by
    rw [hkind, ho] at hi
    exact some.inj hi
  obtain rfl : closer = closer' := by
    rw [hcl] at hcl'
    exact some.inj hcl'
  obtain ⟨d, hd, hdrop⟩ := @closeAfter_drop opener closer (i - (o + 1)) _ 1 (o + 1) c (by omega) (by omega) hclose
  rw [show o + 1 + (i - (o + 1)) = i by omega, drop_drop, show o + 1 + (i - (o + 1)) = i by omega] at hdrop
  obtain ⟨hlt, hget⟩ := List.getElem?_eq_some_iff.1 hi
  rw [drop_eq_getElem_cons hlt, hget, closeAfter, if_pos (by simp)] at hdrop
  obtain ⟨k, hk, hclose''⟩ := closeAfter_of_lt (Nat.le_refl 1) (by omega) hdrop
  rw [hclose'] at hclose''
  simp only [some.injEq] at hclose''
  omega

/-! ## Brackets of all kinds -/

/-- How a character changes the closing brackets that are owed, the next one first. A bracket may only
close what was opened last. -/
def owedStep (owed : List Char) (c : Char) : Option (List Char) :=
  match closerOf? c with
  | some closer => some (closer :: owed)
  | none =>
    if closers.contains c then
      match owed with
      | d :: rest => if d = c then some rest else none
      | [] => none
    else some owed

/-- The closing brackets that are owed after a text, given those owed before it. -/
def owedAfter (owed : List Char) (t : Text) : Option (List Char) := t.foldlM owedStep owed

/-- The round, curly and square brackets of a text close one another in pairs. -/
def WellBracketed (t : Text) : Prop := owedAfter [] t = some []

instance (t : Text) : Decidable (WellBracketed t) := inferInstanceAs (Decidable (_ = _))

theorem owedAfter_cons (owed : List Char) (c : Char) (t : Text) :
    owedAfter owed (c :: t) = (owedStep owed c).bind fun owed => owedAfter owed t := by
  simp [owedAfter]

theorem owedAfter_append (owed : List Char) (t u : Text) :
    owedAfter owed (t ++ u) = (owedAfter owed t).bind fun owed => owedAfter owed u := by
  simp [owedAfter, foldlM_append]

theorem closerOf?_cases (h : closerOf? opener = some closer) :
    (opener = '(' ∧ closer = ')') ∨ (opener = '{' ∧ closer = '}') ∨ (opener = '[' ∧ closer = ']') := by
  simp only [closerOf?] at h
  split at h <;> simp_all [eq_comm]

theorem closerOf?_inj {a b} (ha : closerOf? a = some closer) (hb : closerOf? b = some closer) : a = b := by
  rcases closerOf?_cases ha with ⟨rfl, rfl⟩ | ⟨rfl, rfl⟩ | ⟨rfl, rfl⟩ <;>
    rcases closerOf?_cases hb with ⟨rfl, h⟩ | ⟨rfl, h⟩ | ⟨rfl, h⟩ <;> simp_all

theorem closerOf?_of_mem_closers {c} (h : c ∈ closers) : closerOf? c = none := by
  simp only [closers, mem_cons, not_mem_nil, or_false] at h
  rcases h with rfl | rfl | rfl <;> rfl

theorem mem_closers (h : closerOf? opener = some closer) : closer ∈ closers := by
  rcases closerOf?_cases h with ⟨-, rfl⟩ | ⟨-, rfl⟩ | ⟨-, rfl⟩ <;> decide

theorem owedStep_eq_some {c} (h : owedStep owed c = some owed') :
    (∃ closer, closerOf? c = some closer ∧ owed' = closer :: owed) ∨ (c ∈ closers ∧ owed = c :: owed') ∨
      (closerOf? c = none ∧ c ∉ closers ∧ owed' = owed) := by
  simp only [owedStep, contains_iff_mem] at h
  split at h
  · next closer hc => exact .inl ⟨closer, hc, by simpa using h.symm⟩
  · next hc =>
    split at h
    · next hmem =>
      split at h
      · split at h
        · next hd => exact .inr (.inl ⟨hmem, by simp_all⟩)
        · simp at h
      · simp at h
    · next hmem => exact .inr (.inr ⟨hc, hmem, by simpa using h.symm⟩)

theorem isOpener_iff {c} : openers.contains c = (closerOf? c).isSome := by
  cases hc : closerOf? c with
  | some closer => rcases closerOf?_cases hc with ⟨rfl, -⟩ | ⟨rfl, -⟩ | ⟨rfl, -⟩ <;> rfl
  | none =>
    simp only [isSome_none, openers, contains_eq_mem, decide_eq_false_iff_not, mem_cons, not_mem_nil, or_false]
    rintro (rfl | rfl | rfl) <;> simp [closerOf?] at hc

/-- The count of open brackets goes with the brackets owed. -/
theorem length_of_owedStep {c} (h : owedStep owed c = some owed') :
    (owed.length : Int) + bracketStep openers closers c = owed'.length := by
  rw [bracketStep, isOpener_iff]
  rcases owedStep_eq_some h with ⟨closer, hc, rfl⟩ | ⟨hc, rfl⟩ | ⟨hc, hc', rfl⟩
  · rw [hc, isSome_some, if_pos rfl, length_cons]
    omega
  · rw [closerOf?_of_mem_closers hc, if_neg (by simp), if_pos (contains_iff_mem.2 hc), length_cons]
    omega
  · rw [hc, if_neg (by simp), if_neg (by simpa using hc'), Int.add_zero]

theorem owedAfter_above : ∀ {t owed owed'} (below : List Char), owedAfter owed t = some owed' →
    owedAfter (owed ++ below) t = some (owed' ++ below)
  | [], owed, owed', below, h => by
    obtain rfl : owed = owed' := by simpa [owedAfter] using h
    rfl
  | c :: t, owed, owed', below, h => by
    obtain ⟨next, hstep, hrest⟩ := bind_eq_some_iff.1 h
    have hstep' : owedStep (owed ++ below) c = some (next ++ below) := by
      rcases owedStep_eq_some hstep with ⟨closer, hc, rfl⟩ | ⟨hc, rfl⟩ | ⟨hc, hc', rfl⟩
      · simp [owedStep, hc]
      · simp [owedStep, closerOf?_of_mem_closers hc, hc]
      · simp [owedStep, hc, hc']
    rw [owedAfter_cons, hstep', bind_some, owedAfter_above below hrest]

/-- The search for a closing bracket counts those of its kind that are owed. -/
theorem closeAfter_of_owedStep {opener closer c} (hkind : closerOf? opener = some closer)
    (hstep : owedStep owed c = some owed') (pos : Nat) (t : Text) :
    closeAfter opener closer (owed.count closer + 1) pos (c :: t) =
      closeAfter opener closer (owed'.count closer + 1) (pos + 1) t := by
  have hcloser := closerOf?_of_mem_closers (mem_closers hkind)
  simp only [closeAfter, beq_iff_eq]
  rcases owedStep_eq_some hstep with ⟨closer', hc, rfl⟩ | ⟨hc, rfl⟩ | ⟨hc, hc', rfl⟩
  · have hne : c ≠ closer := by rintro rfl; simp [hc] at hcloser
    by_cases hco : c = opener
    · subst hco
      obtain rfl : closer' = closer := by simpa [hc] using hkind
      simp
    · have hne' : closer' ≠ closer := by rintro rfl; exact hco (closerOf?_inj hc hkind)
      rw [if_neg hco, if_neg hne, count_cons_of_ne hne']
  · have hco : c ≠ opener := by rintro rfl; simp [closerOf?_of_mem_closers hc] at hkind
    rw [if_neg hco]
    by_cases hcc : c = closer
    · subst hcc
      rw [if_pos rfl, count_cons_self, if_neg (by omega)]
      rfl
    · rw [if_neg hcc, count_cons_of_ne hcc]
  · have hco : c ≠ opener := by rintro rfl; simp [hc] at hkind
    have hne : c ≠ closer := by rintro rfl; exact hc' (mem_closers hkind)
    rw [if_neg hco, if_neg hne]

/-- Counting one kind finds the bracket that closes: up to it, what is owed is owed still, and with it
nothing more is owed than before the opening one. The count is that of the kind among what is owed. -/
theorem owedAfter_closeAfter {opener closer} (hkind : closerOf? opener = some closer)
    {below} : ∀ {t extra pos j},
    (owedAfter (extra ++ closer :: below) t).isSome →
    closeAfter opener closer (extra.count closer + 1) pos t = some j →
    (∀ n, pos + n ≤ j → ∃ more, owedAfter (extra ++ closer :: below) (t.take n) = some (more ++ closer :: below)) ∧
      owedAfter (extra ++ closer :: below) (t.take (j - pos + 1)) = some below
  | [], _, _, _, _, h => by simp [closeAfter] at h
  | c :: t, extra, pos, j, hsome, h => by
    obtain ⟨owed, hstep⟩ : ∃ owed, owedStep (extra ++ closer :: below) c = some owed := by
      exact isSome_iff_exists.mp (isSome_of_isSome_bind hsome)
    rw [owedAfter_cons, hstep, bind_some] at hsome
    by_cases hends : extra = [] ∧ c = closer
    · obtain ⟨rfl, rfl⟩ := hends
      have hco : c ≠ opener := by rintro rfl; simp [closerOf?_of_mem_closers (mem_closers hkind)] at hkind
      obtain rfl : pos = j := by simpa [closeAfter, hco] using h
      refine ⟨fun n hn => ?_, ?_⟩
      · obtain rfl : n = 0 := by omega
        exact ⟨[], rfl⟩
      · simp [owedAfter, owedStep, closerOf?_of_mem_closers (mem_closers hkind), mem_closers hkind]
    · -- a step that leaves the pair open
      obtain ⟨extra', hstep', rfl⟩ : ∃ extra', owedStep extra c = some extra' ∧ owed = extra' ++ closer :: below := by
        rcases owedStep_eq_some hstep with ⟨closer', hc, rfl⟩ | ⟨hc, howed⟩ | ⟨hc, hc', rfl⟩
        · exact ⟨closer' :: extra, by simp [owedStep, hc], rfl⟩
        · cases extra with
          | nil => exact absurd ⟨rfl, (List.cons.inj howed).1.symm⟩ hends
          | cons d extra =>
            obtain ⟨rfl, rfl⟩ := List.cons.inj howed
            exact ⟨extra, by simp [owedStep, closerOf?_of_mem_closers hc, hc], rfl⟩
        · exact ⟨extra, by simp [owedStep, hc, hc'], rfl⟩
      rw [closeAfter_of_owedStep hkind hstep'] at h
      have hpos := (closeAfter_spec h).1
      obtain ⟨h1, h2⟩ := owedAfter_closeAfter hkind hsome h
      refine ⟨fun n hn => ?_, ?_⟩
      · cases n with
        | zero => exact ⟨extra, rfl⟩
        | succ n =>
          rw [take_succ_cons, owedAfter_cons, hstep, bind_some]
          exact h1 n (by omega)
      · rw [take_succ_cons, owedAfter_cons, hstep, bind_some, show j - pos = j - (pos + 1) + 1 by omega]
        exact h2

theorem owedAfter_partner (hwell : WellBracketed masked) (h : partner masked o = .ok c) :
    ∃ closer below, owedAfter [] (masked.take o) = some below ∧
      (∀ m, o < m → m ≤ c → ∃ more, owedAfter [] (masked.take m) = some (more ++ closer :: below)) ∧
      owedAfter [] (masked.take (c + 1)) = some below := by
  obtain ⟨opener, closer, ho, hkind, hoc, -, hclose⟩ := partner_spec h
  obtain ⟨hlt, hget⟩ := List.getElem?_eq_some_iff.1 ho
  have hsplit : masked = masked.take o ++ opener :: masked.drop (o + 1) := by
    rw [← hget, ← drop_eq_getElem_cons hlt, take_append_drop]
  have hlen : (masked.take o).length = o := by rw [length_take]; omega
  have hwell' : owedAfter [] masked = some [] := hwell
  rw [hsplit, owedAfter_append] at hwell'
  obtain ⟨below, hbelow, hrest⟩ := bind_eq_some_iff.1 hwell'
  have hopen : owedStep below opener = some (closer :: below) := by simp [owedStep, hkind]
  rw [owedAfter_cons, hopen, bind_some] at hrest
  have take : ∀ n, owedAfter [] (masked.take (o + 1 + n)) =
      owedAfter (closer :: below) ((masked.drop (o + 1)).take n) := by
    intro n
    have htake : masked.take (o + 1 + n) = masked.take o ++ opener :: (masked.drop (o + 1)).take n := by
      conv => lhs; rw [hsplit]
      rw [take_append, hlen, take_of_length_le (by omega), show o + 1 + n - o = n + 1 by omega, take_succ_cons]
    rw [htake, owedAfter_append, hbelow, bind_some, owedAfter_cons, hopen, bind_some]
  obtain ⟨h1, h2⟩ := @owedAfter_closeAfter opener closer hkind below _ [] (o + 1) c
    (by simp [hrest]) hclose
  refine ⟨closer, below, hbelow, fun m hom hmc => ?_, ?_⟩
  · obtain ⟨n, rfl⟩ := Nat.exists_eq_add_of_le hom
    rw [take]
    exact h1 n hmc
  · rw [show c + 1 = o + 1 + (c - (o + 1) + 1) by omega, take]
    exact h2

/-- Where a text nests its brackets of all kinds, a bracket that opens inside a pair closes inside it. -/
theorem partner_lt (hwell : WellBracketed masked) (h : partner masked o = .ok c) (hoi : o < i) (hic : i < c)
    (hj : partner masked i = .ok j) : j < c := by
  obtain ⟨closer, below, -, within, after⟩ := owedAfter_partner hwell h
  obtain ⟨closer', below', before', within', after'⟩ := owedAfter_partner hwell hj
  obtain ⟨more, hmore⟩ := within i hoi (by omega)
  have hbelow' : more ++ closer :: below = below' := by
    rw [before'] at hmore
    exact (some.inj hmore).symm
  have hlen : below.length < below'.length := by
    rw [← hbelow']
    simp only [length_append, length_cons]
    omega
  apply Classical.byContradiction
  intro hnot
  rcases Nat.lt_or_ge c j with hcj | hcj
  · obtain ⟨more', hmore'⟩ := within' (c + 1) (by omega) hcj
    rw [after] at hmore'
    have := congrArg List.length (some.inj hmore')
    simp only [length_append, length_cons] at this
    omega
  · obtain rfl : j = c := by omega
    rw [after] at after'
    rw [some.inj after'] at hlen
    omega

end Rebind.Java
