/-
Where the variables of a body are in scope.

A name that a bracket stands directly around is in scope up to the partner of that bracket or, in a head, to the end of
what follows it (`scopeAt?_of_brace`, `scopeAt?_of_head`). Of the variables that a statement declares only the first is
seen to be declared, and only if its type is seen to be one (`variable_scope_iff`).
-/
import Rebind.Proofs.Java.Statements
import Rebind.Proofs.Java.TypeGrammar
import Rebind.Proofs.Java.Uses

namespace Rebind.Java

open Text List Except

variable {scopes : List Span} {t back : Text}

/-! ## Occurrences -/

/-- The name stands at the offset and in front of `e`, as a word of its own. -/
structure NameAt (masked : Text) (e q : Nat) (name : Text) : Prop where
  ne_nil : name ≠ []
  parts : name.all isNamePart = true
  stands : Stands masked q name
  le : q + name.length ≤ e
  before : ∀ c, charBefore masked q = some c → isNamePart c = false
  ends : NameEnds masked (q + name.length)

variable {masked name : Text} {s e q i : Nat} {c : Char}

/-- No match hides a later word of its own: the names that a match can overlap with are longer words. -/
theorem mem_matchesFrom_name (hne : name ≠ []) (hparts : name.all isNamePart = true) :
    ∀ {t n skip pos prev b}, skip ≤ n → name <+: t.drop n →
    nameEnds (t.drop (n + name.length)) = true → (prev :: t.map some)[n]? = some b → Before.nameStart b = true →
    ∃ m ∈ matchesFrom Before.nameStart (exactName? name) skip prev pos t,
      m.start = pos + n ∧ m.stop = pos + n + name.length
  | [], n, skip, pos, prev, b, _, hat, _, _, _ => by
    rw [drop_nil, prefix_nil] at hat
    exact absurd hat hne
  | c :: t, n + 1, skip + 1, pos, prev, b, hskip, hat, hends, hb, hbefore => by
    rw [Nat.add_right_comm] at hends
    obtain ⟨m, hm, hstart, hstop⟩ := @mem_matchesFrom_name hne hparts t n skip (pos + 1) (some c) b (by omega) hat hends
      hb hbefore
    exact ⟨m, hm, by omega, by omega⟩
  | c :: t, 0, 0, pos, prev, b, _, hat, hends, hb, hbefore => by
    obtain ⟨rest, hrest⟩ := hat
    rw [drop_zero] at hrest
    rw [← hrest, Nat.zero_add, drop_left] at hends
    obtain rfl : prev = b := by simpa using hb
    have haccepts : exactName? name (c :: t) = some ((), rest) := by
      rw [exactName?, after?_eq_some.2 hrest.symm]
      exact if_pos hends
    have hlen := congrArg List.length hrest
    rw [length_append] at hlen
    simp only [matchesFrom, matchHere, hbefore, if_true, haccepts, Option.map_some]
    exact ⟨_, mem_cons_self, rfl, by simp only; omega⟩
  | c :: t, n + 1, 0, pos, prev, b, _, hat, hends, hb, hbefore => by
    rw [Nat.add_right_comm] at hends
    have later : ∀ skip ≤ n, ∃ m ∈ matchesFrom Before.nameStart (exactName? name) skip (some c) (pos + 1) t,
        m.start = pos + (n + 1) ∧ m.stop = pos + (n + 1) + name.length := by
      intro skip hskip
      obtain ⟨m, hm, hstart, hstop⟩ := @mem_matchesFrom_name hne hparts t n skip (pos + 1) (some c) b hskip hat hends
        hb hbefore
      exact ⟨m, hm, by omega, by omega⟩
    simp only [matchesFrom]
    split
    · next m' hm' =>
      obtain ⟨rest, hr, hstart, hstop⟩ := matchHere_eq_some hm'
      simp only [exactName?] at hr
      split at hr
      · next rest' hafter =>
        split at hr
        · obtain ⟨-, rfl⟩ := Prod.mk.inj (Option.some.inj hr)
          rw [after?_eq_some] at hafter
          have hlen := congrArg List.length hafter
          rw [length_append] at hlen
          -- a word that starts inside the match would follow a character of the name
          have hle : name.length ≤ n + 1 := by
            refine Nat.le_of_not_lt fun hlt => ?_
            have hn : n < name.length := by omega
            have hd : (c :: t)[n]? = some name[n] := by
              rw [hafter, getElem?_append_left hn, getElem?_eq_getElem hn]
            rw [getElem?_cons_succ, getElem?_map, hd, Option.map_some, Option.some.injEq] at hb
            have hpart := all_eq_true.1 hparts _ (getElem_mem hn)
            rw [← hb, Before.nameStart, Option.any_some, hpart] at hbefore
            cases hbefore
          obtain ⟨m, hm, hspan⟩ := later (m'.stop - m'.start - 1) (by omega)
          exact ⟨m, mem_cons_of_mem _ hm, hspan⟩
        · cases hr
      · cases hr
    · exact later 0 (Nat.zero_le _)

theorem NameAt.occurs (h : NameAt masked e q name) (hs : s ≤ q) :
    ⟨q, q + name.length⟩ ∈ occurrences masked s e name := by
  have hle := h.le
  have hslice : (slice masked s e).drop (q - s) = slice masked q e := by
    rw [slice, slice, drop_drop, Nat.add_sub_cancel' hs]
  have hb : (charBefore masked s :: (slice masked s e).map some)[q - s]? = some (charBefore masked q) := by
    cases hk : q - s with
    | zero =>
      obtain rfl : q = s := by omega
      rfl
    | succ k =>
      obtain ⟨q', rfl⟩ : ∃ q', q = q' + 1 := ⟨q - 1, by omega⟩
      have hlt : q' < masked.length := by
        have := h.stands.le_length h.ne_nil
        omega
      rw [getElem?_cons_succ, getElem?_map, getElem?_slice, if_pos (by omega), show s + k = q' by omega,
        charBefore, getElem?_eq_getElem hlt]
      rfl
  have hbefore : Before.nameStart (charBefore masked q) = true := by
    rw [Before.nameStart, Bool.not_eq_true', Option.any_eq_false_iff_get]
    intro hsome
    simpa using h.before _ (Option.eq_some_of_isSome hsome)
  have hends : nameEnds ((slice masked s e).drop (q - s + name.length)) = true := by
    rw [← drop_drop, hslice, h.stands.slice_stop hle, drop_left]
    cases hrest : slice masked (q + name.length) e with
    | nil => rfl
    | cons c rest =>
      have hc := congrArg (·[0]?) hrest
      simp only [getElem?_slice, Nat.add_zero, getElem?_cons_zero] at hc
      split at hc
      · simp [nameEnds, h.ends c hc]
      · cases hc
  obtain ⟨m, hm, hstart, hstop⟩ := @mem_matchesFrom_name name h.ne_nil h.parts (slice masked s e) (q - s) 0 s
    (charBefore masked s) _ (Nat.zero_le _) ⟨_, by rw [hslice, ← h.stands.slice_stop hle]⟩ hends hb hbefore
  refine mem_map.2 ⟨m, hm, ?_⟩
  rw [hstart, hstop, Nat.add_sub_cancel' hs]

/-! ## Brackets of a body -/

/-- The braces at the offsets stand around code that nests its brackets. -/
def Body (masked : Text) (s e : Nat) : Prop :=
  ∃ t, Enclosed '{' '}' t ∧ Stands masked s t ∧ s + t.length = e + 1

theorem exists_closing {k owed} : ∀ {v extra},
    owedAfter (extra ++ k :: owed) v = some [] → ∃ w rest, v = w ++ k :: rest ∧ owedAfter extra w = some []
  | [], extra, h => by simp [owedAfter] at h
  | c :: v, extra, h => by
    obtain ⟨owed', hstep, h⟩ := Option.bind_eq_some_iff.1 h
    have more : ∀ {extra' : List Char}, owedStep extra c = some extra' → owed' = extra' ++ k :: owed →
        ∃ w rest, c :: v = w ++ k :: rest ∧ owedAfter extra w = some [] := by
      rintro extra' hstep' rfl
      obtain ⟨w, rest, rfl, hw⟩ := exists_closing h
      exact ⟨c :: w, rest, rfl, by rw [owedAfter_cons, hstep', Option.bind_some, hw]⟩
    rcases owedStep_eq_some hstep with ⟨closer, hc, rfl⟩ | ⟨hc, heq⟩ | ⟨hc, hc', rfl⟩
    · exact @more (closer :: extra) (by simp [owedStep, hc]) rfl
    · cases extra with
      | nil =>
        obtain ⟨rfl, -⟩ := List.cons.inj heq
        exact ⟨[], v, rfl, rfl⟩
      | cons d extra =>
        obtain ⟨rfl, rfl⟩ := List.cons.inj heq
        exact more (by simp [owedStep, closerOf?_of_mem_closers hc, hc]) rfl
    · exact more (by simp [owedStep, hc, hc']) rfl

theorem openerBefore?_of_owed {depth back} : ∀ {b extra pos},
    owedAfter extra b = some [] →
    openerBefore? depth (pos + b.length) (b.reverse ++ back) = openerBefore? (depth + extra.length) pos back
  | [], extra, pos, h => by
    obtain rfl : extra = [] := by simpa [owedAfter] using h
    rfl
  | c :: b, extra, pos, h => by
    obtain ⟨owed, hstep, h⟩ := Option.bind_eq_some_iff.1 h
    rw [reverse_cons, append_assoc, singleton_append, length_cons,
      show pos + (b.length + 1) = pos + 1 + b.length by omega, openerBefore?_of_owed h, openerBefore?]
    rcases owedStep_eq_some hstep with ⟨closer, hc, rfl⟩ | ⟨hc, rfl⟩ | ⟨hc, hc', rfl⟩
    · have hnot : closers.contains c = false := by
        rcases closerOf?_cases hc with ⟨rfl, -⟩ | ⟨rfl, -⟩ | ⟨rfl, -⟩ <;> rfl
      rw [hnot, isOpener_iff, hc, if_neg (by simp), if_pos (by simp), if_neg (by simp)]
      simp
    · rw [if_pos (contains_iff_mem.2 hc)]
      rfl
    · rw [if_neg (by simpa using hc'), isOpener_iff, hc, if_neg (by simp)]
      rfl

theorem openerBefore?_spec : ∀ {back depth pos}, openerBefore? depth pos back = some (i, c) →
    (closerOf? c).isSome = true ∧ ∃ k, back[k]? = some c ∧ i = pos - 1 - k
  | [], depth, pos, h => by cases h
  | d :: back, depth, pos, h => by
    have later : ∀ {depth}, openerBefore? depth (pos - 1) back = some (i, c) →
        (closerOf? c).isSome = true ∧ ∃ k, (d :: back)[k]? = some c ∧ i = pos - 1 - k := by
      intro depth h
      obtain ⟨hc, k, hk, hi⟩ := openerBefore?_spec h
      exact ⟨hc, k + 1, hk, by omega⟩
    simp only [openerBefore?] at h
    split at h
    · exact later h
    · split at h
      · next hopener =>
        split at h
        · obtain ⟨rfl, rfl⟩ := Prod.mk.inj (Option.some.inj h)
          exact ⟨isOpener_iff ▸ hopener, 0, rfl, rfl⟩
        · exact later h
      · exact later h

namespace Body

theorem le_length (h : Body masked s e) : s < e ∧ e < masked.length := by
  obtain ⟨t, ht, hat, hlen⟩ := h
  have := ht.length_pos
  have := hat.le_length ht.ne_nil
  omega

/-- Every opening bracket of the body has a partner. -/
theorem exists_partner (h : Body masked s e) (hs : s ≤ i) (hi : i < e) (hc : masked[i]? = some c)
    (hopener : (closerOf? c).isSome = true) : ∃ j, partner masked i = .ok j := by
  obtain ⟨k, hkind⟩ := Option.isSome_iff_exists.1 hopener
  obtain ⟨t, ht, hat, hlen⟩ := h
  have hwell := ht.wellBracketed rfl
  have hlt : i - s < t.length := by omega
  have hsplit := (take_append_drop (i - s) t).symm
  have hget : t[i - s] = c := by
    have hstands := hat.slice ▸ getElem?_slice masked s (s + t.length) (i - s)
    rw [if_pos (by omega), Nat.add_sub_cancel' hs, hc, getElem?_eq_getElem hlt] at hstands
    exact Option.some.inj hstands
  rw [drop_eq_getElem_cons hlt, hget] at hsplit
  rw [hsplit, stands_append, length_take, Nat.min_eq_left (Nat.le_of_lt hlt), Nat.add_sub_cancel' hs] at hat
  rw [hsplit, WellBracketed, owedAfter_append] at hwell
  obtain ⟨owed, -, hwell⟩ := Option.bind_eq_some_iff.1 hwell
  have hstep : owedStep owed c = some (k :: owed) := by simp [owedStep, hkind]
  rw [owedAfter_cons, hstep, Option.bind_some] at hwell
  obtain ⟨w, rest, hrest, hw⟩ := @exists_closing k owed _ [] hwell
  have hat' : Stands masked i (c :: (w ++ [k])) := by
    have hstands := hat.2
    rw [hrest, show c :: (w ++ k :: rest) = c :: (w ++ [k]) ++ rest by simp, stands_append] at hstands
    exact hstands.1
  exact ⟨_, partner_of_stands ⟨w, hw, rfl⟩ hkind hat'⟩

end Body

/-! ## Scopes -/

def StartsAt (start : Nat) (x : Except ReadError (Option Span)) : Prop :=
  ∀ scope, x = .ok (some scope) → scope.start = start

namespace StartsAt

variable {start : Nat}

theorem none : StartsAt start (pure none) := by
  intro scope h
  cases h

theorem some (stop : Nat) : StartsAt start (pure (some ⟨start, stop⟩)) := by
  intro scope h
  cases h
  rfl

theorem bind {α x} {f : α → Except ReadError (Option Span)}
    (h : ∀ a, StartsAt start (f a)) : StartsAt start (x >>= f) := by
  intro scope hscope
  obtain ⟨a, -, ha⟩ := bind_eq_ok.1 hscope
  exact h a scope ha

end StartsAt

theorem startsAt_scopeAt? (masked : Text) (s e : Nat) (o : Span) : StartsAt o.start (scopeAt? masked s e o) := by
  simp only [scopeAt?]
  repeat' first
    | exact .none
    | exact .some _
    | refine .bind fun _ => ?_
    | split

theorem mem_of_mapM {α β : Type} {f : α → Except ReadError β} : ∀ {as : List α} {bs},
    as.mapM f = .ok bs → (∀ b ∈ bs, ∃ a ∈ as, f a = .ok b) ∧ ∀ a ∈ as, ∃ b ∈ bs, f a = .ok b
  | [], bs, h => by
    cases h
    simp
  | a :: as, bs, h => by
    rw [mapM_cons] at h
    obtain ⟨b, hb, h⟩ := bind_eq_ok.1 h
    obtain ⟨cs, hcs, rfl⟩ := bind_pure_eq_ok.1 h
    obtain ⟨hfrom, hto⟩ := mem_of_mapM hcs
    constructor
    · intro c hc
      rcases mem_cons.1 hc with rfl | hc
      · exact ⟨a, by simp, hb⟩
      · obtain ⟨a', ha', h⟩ := hfrom c hc
        exact ⟨a', by simp [ha'], h⟩
    · intro a' ha'
      rcases mem_cons.1 ha' with rfl | ha'
      · exact ⟨b, by simp, hb⟩
      · obtain ⟨c, hc, h⟩ := hto a' ha'
        exact ⟨c, by simp [hc], h⟩

theorem mem_shadowingScopes (h : shadowingScopes masked s e name = .ok scopes) {scope : Span} :
    scope ∈ scopes ↔ ∃ o ∈ occurrences masked s e name, scopeAt? masked s e o = .ok (some scope) := by
  obtain ⟨found, hfound, rfl⟩ := bind_pure_eq_ok.1 h
  simp only [mem_filterMap, id_eq, exists_eq_right]
  constructor
  · exact (mem_of_mapM hfound).1 _
  · rintro ⟨o, ho, hscope⟩
    obtain ⟨r, hr, heq⟩ := (mem_of_mapM hfound).2 o ho
    exact ok.inj (heq.symm.trans hscope) ▸ hr

/-- The scopes that start at a name are the one of its declaration. -/
theorem NameAt.mem_scopes_iff (h : NameAt masked e q name) (hs : s ≤ q) (he : e ≤ masked.length)
    (hscopes : shadowingScopes masked s e name = .ok scopes) {stop} :
    ⟨q, stop⟩ ∈ scopes ↔ scopeAt? masked s e ⟨q, q + name.length⟩ = .ok (some ⟨q, stop⟩) := by
  have hle := h.le
  rw [mem_shadowingScopes hscopes]
  constructor
  · rintro ⟨o, ho, hscope⟩
    obtain ⟨-, hstop, -, -⟩ := mem_occurrences (by omega) he ho
    have hstart := startsAt_scopeAt? masked s e o _ hscope
    obtain ⟨start, stop'⟩ := o
    simp only at hstart hstop
    subst hstart hstop
    exact hscope
  · exact fun hscope => ⟨_, h.occurs hs, hscope⟩

section Total

variable {α β : Type}

theorem ok_bind (a : α) (f : α → Except ReadError β) : (.ok a : Except ReadError α) >>= f = f a := rfl

theorem exists_ok_bind {x} {f : α → Except ReadError β} (hx : ∃ a, x = .ok a)
    (hf : ∀ a, x = .ok a → ∃ b, f a = .ok b) : ∃ b, x >>= f = .ok b := by
  obtain ⟨a, ha⟩ := hx
  obtain ⟨b, hb⟩ := hf a ha
  exact ⟨b, bind_eq_ok.2 ⟨a, ha, hb⟩⟩

theorem exists_mapM {f : α → Except ReadError β} : ∀ {as : List α}, (∀ a ∈ as, ∃ b, f a = .ok b) →
    ∃ bs, as.mapM f = .ok bs
  | [], _ => ⟨[], rfl⟩
  | a :: as, h => by
    rw [mapM_cons]
    exact exists_ok_bind (h a (by simp)) fun _ _ =>
      exists_ok_bind (exists_mapM (forall_mem_cons.1 h).2) fun _ _ => ⟨_, rfl⟩

end Total

theorem codeFrom_eq (he : e ≤ masked.length) (i : Nat) : codeFrom masked i e = .ok (skipBlanks masked i e) := by
  simp only [codeFrom]
  rw [if_neg (by omega)]

namespace Body

variable (h : Body masked s e)

include h

theorem exists_bodyEnd (hi : s ≤ i) : ∃ j, bodyEnd masked i e = .ok j := by
  have hle := h.le_length
  simp only [bodyEnd, codeFrom_eq (Nat.le_of_lt hle.2)]
  refine exists_ok_bind ⟨_, rfl⟩ fun j hj => ?_
  have hij := le_skipBlanks masked i e
  obtain rfl := ok.inj hj
  split
  · next hbrace =>
    exact exists_ok_bind (h.exists_partner (by omega) hbrace.1 hbrace.2 rfl) fun _ _ => ⟨_, rfl⟩
  · split
    · exact ⟨_, rfl⟩
    · rw [if_neg (by omega)]
      exact ⟨_, rfl⟩

theorem exists_scopeAt? {o : Span} (ho : o ∈ occurrences masked s e name) : ∃ r, scopeAt? masked s e o = .ok r := by
  have hle := h.le_length
  obtain ⟨hstart, hstop, hstop', -⟩ := mem_occurrences (Nat.le_of_lt hle.1) (Nat.le_of_lt hle.2) ho
  -- what is looked for behind a bracket is looked for in the body
  have hopener : ∀ {i c}, openerBefore? 0 o.start (slice masked s o.start).reverse = some (i, c) →
      ∃ j, partner masked i = .ok j ∧ s ≤ j + 1 := by
    intro i c hfound
    obtain ⟨hc, k, hk, rfl⟩ := openerBefore?_spec hfound
    have hlt := (List.getElem?_eq_some_iff.1 hk).1
    rw [length_reverse, length_slice] at hlt
    rw [getElem?_reverse (by rw [length_slice]; omega), length_slice, getElem?_slice, if_pos (by omega),
      show s + (min o.start masked.length - s - 1 - k) = o.start - 1 - k by omega] at hk
    obtain ⟨j, hj⟩ := h.exists_partner (by omega) (by omega) hk hc
    have := (partner_lt_length hj).1
    exact ⟨j, hj, by omega⟩
  have hafter := le_skipBlanks masked o.stop e
  have hscope : ∀ {i}, s ≤ i → ∃ r : Option Span, (do return some ⟨o.start, ← bodyEnd masked i e⟩) =
      (.ok r : Except ReadError _) :=
    fun hi => exists_ok_bind (h.exists_bodyEnd hi) fun _ _ => ⟨_, rfl⟩
  simp only [scopeAt?, codeFrom_eq (Nat.le_of_lt hle.2)]
  refine exists_ok_bind ⟨_, rfl⟩ fun after hok => ?_
  obtain rfl := ok.inj hok
  generalize (if skipBlanks masked o.stop e < e then masked[skipBlanks masked o.stop e]? else none) = next
  cases hfound : openerBefore? 0 o.start (slice masked s o.start).reverse with
  | none =>
    simp only
    split
    · exact hscope (by omega)
    · split <;> exact ⟨_, rfl⟩
  | some opener =>
    obtain ⟨i, c⟩ := opener
    obtain ⟨j, hj, hsj⟩ := hopener hfound
    have hskip := le_skipBlanks masked (j + 1) e
    by_cases hc : c = '('
    · subst hc
      simp only [hj]
      split
      · exact hscope (by omega)
      · split
        · refine exists_ok_bind ⟨_, rfl⟩ fun j' hj' => ?_
          obtain rfl := ok.inj hj'
          refine exists_ok_bind ⟨_, rfl⟩ fun arrow hok => ?_
          obtain rfl := ok.inj hok
          split
          · exact hscope (by omega)
          · split
            · exact ⟨_, rfl⟩
            · exact hscope hsj
        · split
          · exact ⟨_, rfl⟩
          · exact hscope hsj
    · split
      · exact hscope (by omega)
      · split
        · next heq => exact absurd (Prod.mk.inj (Option.some.inj heq)).2 hc
        · split
          · exact ⟨_, rfl⟩
          · split
            · next heq => exact absurd heq (by simp)
            · next heq => exact absurd (Prod.mk.inj (Option.some.inj heq)).2 hc
            · next heq =>
              obtain ⟨rfl, rfl⟩ := Prod.mk.inj (Option.some.inj heq)
              exact exists_ok_bind ⟨_, hj⟩ fun _ _ => ⟨_, rfl⟩

theorem exists_scopes (name : Text) : ∃ scopes, shadowingScopes masked s e name = .ok scopes :=
  exists_ok_bind (exists_mapM fun _ ho => h.exists_scopeAt? ho) fun _ _ => ⟨_, rfl⟩

end Body

/-- The bracket at the offset is the innermost one around another offset. -/
structure Directly (masked : Text) (i q : Nat) (c : Char) : Prop where
  bracket : masked[i]? = some c
  lt : i < q
  nests : WellBracketed (slice masked (i + 1) q)

theorem slice_split {j} (hsi : s ≤ i) (hij : i ≤ j) (hi : i ≤ masked.length) :
    slice masked s j = slice masked s i ++ slice masked i j := by
  have hlen : s + (slice masked s i).length = i := by
    rw [length_slice]
    omega
  have hsplit := (stands_slice masked s i).slice_stop (hlen.le.trans hij)
  rwa [hlen] at hsplit

namespace Directly

variable (h : Directly masked i q c)

include h

theorem append (ht : WellBracketed t) (hat : Stands masked q t) (hq : q ≤ masked.length) :
    Directly masked i (q + t.length) c where
  bracket := h.bracket
  lt := Nat.lt_add_right _ h.lt
  nests := by
    rw [slice_split h.lt (Nat.le_add_right q t.length) hq, hat.slice]
    exact h.nests.append ht

theorem openerBefore?_eq (hs : s ≤ i) (hq : q ≤ masked.length) (hc : (closerOf? c).isSome = true) :
    openerBefore? 0 q (slice masked s q).reverse = some (i, c) := by
  have hlt := h.lt
  have hslice : slice masked s q = slice masked s i ++ c :: slice masked (i + 1) q := by
    have hstands : Stands masked i [c] := stands_cons.2 ⟨h.bracket, stands_nil _ _⟩
    rw [slice_split hs (Nat.le_of_lt hlt) (by omega), hstands.slice_stop hlt]
    rfl
  have hfound := @openerBefore?_of_owed 0 (c :: (slice masked s i).reverse) _ [] (i + 1) h.nests
  rw [length_slice, show i + 1 + (min q masked.length - (i + 1)) = q by omega] at hfound
  have hcloser : closers.contains c = false := by
    rw [← Bool.not_eq_true, contains_iff_mem]
    intro hmem
    rw [closerOf?_of_mem_closers hmem] at hc
    cases hc
  rw [hslice, reverse_append, reverse_cons, append_assoc, singleton_append, hfound, openerBefore?,
    hcloser, isOpener_iff, hc]
  rfl

/-- The code before the offset reaches back to the bracket. -/
theorem lt_codeBefore (hc : isBlank c = false) : i < (codeBefore masked q).length := by
  obtain ⟨hi, rfl⟩ := List.getElem?_eq_some_iff.1 h.bracket
  have hlt := h.lt
  have htake : masked.take q = masked.take i ++ masked[i] :: (masked.take q).drop (i + 1) := by
    have hget : (masked.take q)[i]? = some masked[i] := by rw [getElem?_take_of_lt hlt, h.bracket]
    have hsplit := take_append_drop i (masked.take q)
    rw [take_take, Nat.min_eq_left hlt.le, drop_eq_getElem?_toList_append, hget] at hsplit
    exact hsplit.symm
  rw [codeBefore, dropBlanks, htake, reverse_append, reverse_cons, append_assoc, singleton_append, dropWhile_append]
  split
  · rw [dropWhile_cons_of_neg (by simp [hc])]
    simp
    omega
  · simp
    omega

end Directly

theorem arrowAt_eq_false (hc : masked[i]? = some c) (hne : c ≠ '-') : arrowAt masked i = false := by
  rw [arrowAt, startsWith, ← Bool.not_eq_true, Option.isSome_iff_exists]
  rintro ⟨rest, h⟩
  have hhead := congrArg List.head? (after?_eq_some.1 h)
  rw [head?_drop, hc] at hhead
  exact hne (Option.some.inj hhead)

section Found

variable {stop j : Nat} {d : Char} (h : Body masked s e) (hs : s ≤ i) (hpartner : partner masked i = .ok j)
  (hnext : skipBlanks masked stop e < e) (hd : masked[skipBlanks masked stop e]? = some d)
  (hmark : d ∈ ['=', ';', ',', ':', ')']) (hq : q ≤ stop)

include h hs hpartner hnext hd hmark hq

/-- The scope of a name that a brace stands directly around and that is followed by what follows a declared name. -/
theorem scopeAt?_of_brace (hin : Directly masked i q '\x7b') : scopeAt? masked s e ⟨q, stop⟩ =
      .ok (if endsInType (codeBefore masked q) then some ⟨q, j + 1⟩ else none) := by
  have hle := h.le_length
  have hskip := le_skipBlanks masked stop e
  have hback := hin.lt_codeBefore (by decide)
  have harrow := arrowAt_eq_false hd (by rintro rfl; revert hmark; decide)
  have hfollows : (['=', ';', ',', ':', ')'].contains d) = true := contains_iff_mem.2 hmark
  simp only [scopeAt?, codeFrom_eq hle.2.le, ok_bind, if_pos hnext, hd, hin.openerBefore?_eq hs (by omega) rfl,
    harrow, Option.any_some, hfollows, Nat.not_le.2 (hs.trans_lt hback), decide_false, Bool.not_true, Bool.false_or,
    Bool.false_eq_true, if_false]
  split
  · next heq => simp at heq
  · cases endsInType (codeBefore masked q)
    · rfl
    · simp only [Bool.not_true, Bool.false_eq_true, if_false]
      split
      · next heq => simp at heq
      · next heq => simp at heq
      · next heq =>
        obtain ⟨rfl, -⟩ := Prod.mk.inj (Option.some.inj heq)
        rw [hpartner]
        rfl

/-- The scope of a name in a head that no arrow follows. -/
theorem scopeAt?_of_head {k} (hin : Directly masked i q '(')
    (harrow : arrowAt masked (skipBlanks masked (j + 1) e) = false) (hbody : bodyEnd masked (j + 1) e = .ok k)
    (htype : endsInType (codeBefore masked q) = true) : scopeAt? masked s e ⟨q, stop⟩ = .ok (some ⟨q, k⟩) := by
  have hle := h.le_length
  have hskip := le_skipBlanks masked stop e
  have hback := hin.lt_codeBefore (by decide)
  have harrow' := arrowAt_eq_false hd (by rintro rfl; revert hmark; decide)
  have hfollows : (['=', ';', ',', ':', ')'].contains d) = true := contains_iff_mem.2 hmark
  simp only [scopeAt?, codeFrom_eq hle.2.le, ok_bind, if_pos hnext, hd, hin.openerBefore?_eq hs (by omega) rfl,
    harrow, harrow', hpartner, hbody, htype, Option.any_some, hfollows, Nat.not_le.2 (hs.trans_lt hback), decide_false,
    Bool.not_true, Bool.or_self, Bool.false_eq_true, if_false]
  split <;> rfl

end Found

/-! ## Declared variables -/

theorem take_of_stands (h : Stands masked i t) : masked.take (i + t.length) = masked.take i ++ t := by
  rw [take_add, h.drop, take_left]

theorem codeBefore_of_stands {g} (ht : Stands masked i t) (hlast : t.getLast?.any (!isBlank ·) = true)
    (hg : Stands masked (i + t.length) g) (hblank : isAllBlank g = true) :
    codeBefore masked (i + t.length + g.length) = t.reverse ++ (masked.take i).reverse := by
  rw [codeBefore, take_of_stands hg, take_of_stands ht, reverse_append, reverse_append, dropBlanks_blanks]
  · refine dropBlanks_of_head fun c hc => ?_
    cases hcase : t.getLast? with
    | none => simp [hcase] at hlast
    | some d =>
      rw [head?_append, head?_reverse, hcase] at hc
      simp only [hcase, Option.any_some, Bool.not_eq_true'] at hlast
      exact Option.some.inj hc ▸ hlast
  · simpa [isAllBlank] using hblank

theorem endsInType_cons (harray : c ≠ ']') (hgeneric : c ≠ '>') : endsInType (c :: back) =
      (isNamePart c && !expressionWords.contains ((c :: back).takeWhile isNamePart).reverse) :=
  endsInType.eq_5 c back harray (fun h _ => hgeneric h) fun _ _ h _ => hgeneric h

/-- Whether code ends in a type does not depend on what stands before its last type. -/
theorem endsInType_append (hhead : t.head?.any isNamePart = true)
    (hback : ∀ c, back.head? = some c → isNamePart c = false) :
    endsInType (t.reverse ++ back) = endsInType t.reverse := by
  have hstop : back.takeWhile isNamePart = [] := by
    cases back with
    | nil => rfl
    | cons c back => simp [hback c rfl]
  have hwords : ∀ r : Text, (r ++ back).takeWhile isNamePart = r.takeWhile isNamePart := by
    intro r
    rw [takeWhile_append, hstop, append_nil]
    split
    · next hlen => exact ((List.takeWhile_prefix _).eq_of_length hlen).symm
    · rfl
  have hlast : t.reverse.getLast?.any isNamePart = true := by rwa [getLast?_reverse]
  have hword : ∀ {c : Char} {r : Text}, c ≠ ']' → c ≠ '>' → endsInType (c :: r ++ back) = endsInType (c :: r) := by
    intro c r harray hgeneric
    rw [cons_append, endsInType_cons harray hgeneric, endsInType_cons harray hgeneric, ← cons_append, hwords]
  match t.reverse, hlast with
  | [], hlast => simp at hlast
  | c :: r, hlast =>
    by_cases harray : c = ']'
    · subst harray
      rfl
    by_cases hgeneric : c = '>'
    · subst hgeneric
      cases r with
      | nil => exact absurd hlast (by decide)
      | cons d r => rfl
    · exact hword harray hgeneric

/-- A variable of a declaration, with the blanks before its name and what stands between its name and the next
comma or semicolon. -/
structure Variable where
  gap : Text
  name : Text
  tail : Text

namespace Variable

def text (d : Variable) : Text := d.gap ++ d.name ++ d.tail

/-- The variable has a name and, if any, an initializer that nests its brackets. -/
structure Fits (d : Variable) : Prop where
  gap : isAllBlank d.gap = true
  ne_nil : d.name ≠ []
  parts : d.name.all isNamePart = true
  tail : isAllBlank d.tail = true ∨ ∃ g code, isAllBlank g = true ∧ WellBracketed code ∧ d.tail = g ++ '=' :: code

theorem Fits.wellBracketed {d : Variable} (h : d.Fits) : WellBracketed d.text := by
  have hname : WellBracketed d.name :=
    wellBracketed_of_forall fun c hc => not_isBracket_of_isNamePart (all_eq_true.1 h.parts c hc)
  refine ((wellBracketed_of_blank h.gap).append hname).append ?_
  rcases h.tail with htail | ⟨g, code, hg, hcode, heq⟩
  · exact wellBracketed_of_blank htail
  · have hsign : WellBracketed ['='] := wellBracketed_of_forall (forall_mem_singleton.2 rfl)
    rw [heq]
    exact (wellBracketed_of_blank hg).append (hsign.append hcode)

end Variable

theorem wellBracketed_flatMap {α : Type} {f : α → Text} : ∀ {l : List α}, (∀ a ∈ l, WellBracketed (f a)) →
    WellBracketed (l.flatMap f)
  | [], _ => rfl
  | a :: l, h => (h a (by simp)).append (wellBracketed_flatMap (forall_mem_cons.1 h).2)

/-- A statement that declares the variables of `front`, then `x`, and then those of `back`. -/
def declaration (type : Text) (front : List Variable) (x : Variable) (back : List Variable) : Text :=
  type ++ front.flatMap (·.text ++ [',']) ++ x.text ++ back.flatMap (',' :: ·.text) ++ [';']

/-- Where the variable `x` of the statement at `p` stands. -/
def declaredAt (p : Nat) (type : Text) (front : List Variable) (x : Variable) : Nat :=
  p + (type ++ front.flatMap (·.text ++ [',']) ++ x.gap).length

theorem charBefore_of_stands (h : Stands masked i t) (ht : t ≠ []) : charBefore masked (i + t.length) = t.getLast? := by
  obtain ⟨u, c, rfl⟩ := (eq_nil_or_concat t).resolve_left ht
  rw [concat_eq_append, stands_append, stands_cons] at h
  rw [concat_eq_append, getLast?_concat, length_append, length_singleton, ← Nat.add_assoc, charBefore, h.2.1]

theorem head?_reverse_take (hi : i ≤ masked.length) : (masked.take i).reverse.head? = charBefore masked i := by
  cases i with
  | zero => simp [charBefore]
  | succ i => rw [head?_reverse, charBefore, take_succ_eq_append_getElem hi, getLast?_concat, getElem?_eq_getElem]

/-- A comma, a semicolon or the initializer follows the name. -/
theorem Variable.Fits.exists_next {x : Variable} (h : x.Fits) (back : List Variable) : ∃ g d rest, isAllBlank g = true ∧
      (d ∈ ['=', ';', ',', ':', ')'] ∧ isBlank d = false ∧ isNamePart d = false) ∧
      x.tail ++ back.flatMap (',' :: ·.text) ++ [';'] = g ++ d :: rest := by
  rcases h.tail with htail | ⟨g, code, hg, -, heq⟩
  · cases back with
    | nil => exact ⟨x.tail, ';', [], htail, by decide, by simp⟩
    | cons y back => exact ⟨x.tail, ',', y.text ++ back.flatMap (',' :: ·.text) ++ [';'], htail, by decide, by simp⟩
  · exact ⟨g, '=', code ++ back.flatMap (',' :: ·.text) ++ [';'], hg, by decide, by simp [heq]⟩

/-- Of the variables that a statement declares only the first one is seen to hide a field, and only if its type is
seen to be one. It does up to the end of the innermost block around the statement. -/
theorem variable_scope_iff {p : Nat} {type : Text} {front back : List Variable} {x : Variable}
    (h : Body masked s e) (hs : s ≤ i) (hin : Directly masked i p '\x7b')
    (hbefore : ∀ c, charBefore masked p = some c → isNamePart c = false)
    (hat : Stands masked p (declaration type front x back)) (hle : p + (declaration type front x back).length ≤ e)
    (htype : WellBracketed type) (hhead : type.head?.any isNamePart = true)
    (hlast : type.getLast?.any (!isBlank ·) = true) (hfront : ∀ d ∈ front, d.Fits) (hx : x.Fits)
    (happart : front = [] → x.gap = [] → type.getLast?.any isNamePart = false) :
    ∃ scopes closing, shadowingScopes masked s e x.name = .ok scopes ∧ partner masked i = .ok closing ∧
      ∀ stop, ⟨declaredAt p type front x, stop⟩ ∈ scopes ↔
        front = [] ∧ endsInType type.reverse = true ∧ stop = closing + 1 := by
  have hbody := h.le_length
  have hlt : p < masked.length := by omega
  obtain ⟨g, d, rest, hg, hd, hnext⟩ := hx.exists_next back
  set before := type ++ front.flatMap (·.text ++ [',']) with hdef
  have hfits : WellBracketed before := htype.append (wellBracketed_flatMap fun d hd =>
    (hfront d hd).wellBracketed.append (wellBracketed_of_forall (forall_mem_singleton.2 rfl)))
  have htext : declaration type front x back = before ++ (x.gap ++ (x.name ++ (g ++ d :: rest))) := by
    rw [← hnext]
    simp [declaration, Variable.text, hdef]
  rw [htext] at hat hle
  simp only [length_append, length_cons] at hle
  simp only [stands_append, stands_cons] at hat
  obtain ⟨hbeforeAt, hgapAt, hnameAt, hgAt, hdAt, -⟩ := hat
  -- the first variable follows the type, and any other one a comma
  obtain ⟨hend, hends, hword⟩ : before.getLast?.any (!isBlank ·) = true ∧
      (endsInType (before.reverse ++ (masked.take p).reverse) = true ↔ front = [] ∧ endsInType type.reverse = true) ∧
      (x.gap = [] → before.getLast?.any isNamePart = false) := by
    rcases eq_nil_or_concat front with rfl | ⟨front, y, rfl⟩
    · rw [flatMap_nil, append_nil] at hdef
      rw [hdef]
      refine ⟨hlast, ?_, happart rfl⟩
      rw [endsInType_append hhead (by rwa [head?_reverse_take hlt.le])]
      simp
    · have hcomma : before = type ++ front.flatMap (·.text ++ [',']) ++ y.text ++ [','] := by simp [hdef]
      have hnot : ∀ back, endsInType (',' :: back) = false := by
        intro back
        rw [endsInType_cons (by decide) (by decide)]
        rfl
      rw [hcomma, getLast?_concat, reverse_append, reverse_singleton, singleton_append,
        cons_append, hnot]
      exact ⟨rfl, by simp, fun _ => rfl⟩
  have hdeclared : declaredAt p type front x = p + before.length + x.gap.length := by
    rw [declaredAt, length_append, Nat.add_assoc]
  rw [hdeclared]
  have hgap := wellBracketed_of_blank hx.gap
  have hq : Directly masked i (p + before.length + x.gap.length) '\x7b' :=
    (hin.append hfits hbeforeAt (by omega)).append hgap hgapAt (by omega)
  have hname : NameAt masked e (p + before.length + x.gap.length) x.name := by
    refine ⟨hx.ne_nil, hx.parts, hnameAt, by omega, fun c hc => ?_, fun c hc => ?_⟩
    · by_cases hnil : x.gap = []
      · have hne : before ≠ [] := by
          rintro hnil
          simp [hnil] at hend
        rw [hnil, length_nil, Nat.add_zero, charBefore_of_stands hbeforeAt hne] at hc
        simpa [hc] using hword hnil
      · rw [charBefore_of_stands hgapAt hnil] at hc
        exact isNamePart_of_isBlank (all_eq_true.1 hx.gap c (mem_of_getLast? hc))
    · cases g with
      | nil => exact Option.some.inj (hdAt.symm.trans hc) ▸ hd.2.2
      | cons b g =>
        rw [(stands_cons.1 hgAt).1] at hc
        exact Option.some.inj hc ▸ isNamePart_of_isBlank (all_eq_true.1 hg b (by simp))
  have hskip : skipBlanks masked (p + before.length + x.gap.length + x.name.length) e =
      p + before.length + x.gap.length + x.name.length + g.length :=
    skipBlanks_of_stands hgAt hg (by omega) (.inr ⟨d, hdAt, hd.2.1⟩)
  obtain ⟨scopes, hscopes⟩ := h.exists_scopes x.name
  obtain ⟨closing, hclosing⟩ := h.exists_partner hs (by have := hin.lt; omega) hin.bracket rfl
  refine ⟨scopes, closing, hscopes, hclosing, fun stop => ?_⟩
  rw [hname.mem_scopes_iff (by have := hq.lt; omega) hbody.2.le hscopes,
    scopeAt?_of_brace h hs hclosing (by omega) (by rw [hskip, hdAt]) hd.1 (Nat.le_add_right _ _) hq,
    codeBefore_of_stands hbeforeAt hend hgapAt hx.gap]
  split
  · next htrue => simp [hends.1 htrue, eq_comm]
  · next hfalse =>
    rw [hends] at hfalse
    simpa using fun hnil htype' => absurd ⟨hnil, htype'⟩ hfalse

def twoVariables : Text := "\x7bint a = f(1), n = 2; n();\x7d"

theorem variable_scope_iff_first :
    ∃ scopes closing, shadowingScopes twoVariables 0 26 "a" = .ok scopes ∧ partner twoVariables 0 = .ok closing ∧
      ∀ stop, ⟨5, stop⟩ ∈ scopes ↔ ([] : List Variable) = [] ∧ endsInType "tni" = true ∧ stop = closing + 1 :=
  @variable_scope_iff twoVariables 0 26 0 1 "int" [] [⟨" ", "n", " = 2"⟩] ⟨" ", "a", " = f(1)"⟩
    ⟨twoVariables, ⟨"int a = f(1), n = 2; n();", rfl, rfl⟩, prefix_refl _, rfl⟩ (Nat.le_refl 0)
    ⟨rfl, Nat.one_pos, rfl⟩
    (fun _ hc => Option.some.inj (show some '\x7b' = _ from hc) ▸ rfl) ⟨" n();\x7d", rfl⟩ (by decide) rfl rfl rfl
    (by simp) ⟨rfl, by decide, rfl, .inr ⟨" ", " f(1)", rfl, rfl, rfl⟩⟩ (by decide)

theorem shadowingScopes_second : shadowingScopes twoVariables 0 26 "n" = .ok [] := by decide +kernel

end Rebind.Java
