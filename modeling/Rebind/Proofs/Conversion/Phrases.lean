/-
How the calls and statements are spelled that a conversion looks for.

A call that binds views or sets the content of a screen is read up to its opening parenthesis, in front of which no
bracket stands (`CallTo`).
-/
import Rebind.Conversion.Cleanup
import Rebind.Proofs.Java.Balance
import Rebind.Proofs.Java.Members
import Rebind.Proofs.Text.Tokens

namespace Rebind.Conversion

open Java Text List Option

variable {t masked w : Text} {c : Char} {n : Unit}

/-! ## Texts that start with code -/

def Starts (t : Text) : Prop := ∃ c, t.head? = some c ∧ isCode c = true

theorem starts_append (u : Text) (h : Starts t) : Starts (t ++ u) := by
  obtain ⟨c, hc, hcode⟩ := h
  exact ⟨c, by rw [head?_append, hc]; rfl, hcode⟩

theorem starts_of_isCode (hne : t ≠ []) (h : ∀ c ∈ t, isCode c = true) : Starts t := by
  obtain ⟨c, u, rfl⟩ := exists_cons_of_ne_nil hne
  exact ⟨c, rfl, h c (by simp)⟩

theorem isCode_of_isNamePart (h : isNamePart c = true) : isCode c = true := by
  simp only [isNamePart, Bool.or_eq_true, beq_iff_eq] at h
  rcases h with h | rfl
  · exact isCode_of_isWord h
  · decide

theorem isCode_of_isTypeChar (h : isTypeChar c = true) : isCode c = true := by
  simp only [isTypeChar, Bool.or_eq_true, beq_iff_eq] at h
  rcases h with ((h | rfl) | rfl) | rfl
  · exact isCode_of_isNamePart h
  all_goals decide

theorem isWord_of_mem_names {f : Field} (h : f.Placed masked) {name}
    (hname : name ∈ f.names) : name ≠ [] ∧ ∀ c ∈ name, isWord c = true := by
  rcases mem_cons.1 hname with rfl | hname
  · exact ⟨h.name_ne_nil, h.name_word⟩
  · exact h.moreNames name hname

/-! ## Calls -/

/-- The characters of a call in front of its opening parenthesis. -/
def isCallPart (c : Char) : Bool := isBlank c || isTypeChar c || c == '='

theorem isCallPart_of_isBlank (c : Char) (h : isBlank c = true) : isCallPart c = true := by simp [isCallPart, h]

theorem isCallPart_of_isTypeChar (c : Char) (h : isTypeChar c = true) : isCallPart c = true := by simp [isCallPart, h]

/-- A part of a call, which may be left out, stands between the two. -/
def CallPart (t u : Text) : Prop := Past isCallPart t u ∧ (u = t ∨ Starts t)

/-- The text starts with a call that is read up to its opening parenthesis. -/
def CallTo (t rest : Text) : Prop := Starts t ∧ Past isCallPart t ('(' :: rest)

section Calls

variable {t u v rest : Text}

theorem CallPart.trans (h : CallPart t u) (h' : CallPart u v) : CallPart t v := by
  refine ⟨h.1.trans h'.1, ?_⟩
  rcases h.2 with rfl | hstarts
  · exact h'.2
  · exact .inr hstarts

theorem CallTo.of_part (h : CallPart t u) (h' : CallTo u rest) : CallTo t rest := by
  refine ⟨?_, h.1.trans h'.2⟩
  rcases h.2 with rfl | hstarts
  · exact h'.1
  · exact hstarts

theorem CallTo.passes (h : CallTo t rest) : Passes '(' t rest := by
  obtain ⟨-, front, rfl, -⟩ := h
  exact ⟨front ++ ['('], by simp, by simp⟩

theorem callPart_of_mem_optional {r} (hr : ∀ {u}, r t = some u → CallPart t u) (h : u ∈ optional r t) :
    CallPart t u := by
  simp only [optional, mem_append, mem_toList, mem_singleton] at h
  rcases h with h | rfl
  · exact hr h
  · exact ⟨.refl _ _, .inl rfl⟩

theorem past_paren (h : spaced? "(" t = some rest) : Past isCallPart t ('(' :: rest) := by
  have hpast : Past isCallPart t (dropBlanks t) := .of_dropWhile isCallPart_of_isBlank t
  rwa [after?_eq_some.1 h] at hpast

theorem past_dot? (h : dot? t = some u) : Past isCallPart t u := .of_dot? isCallPart_of_isBlank (by decide +kernel) h

theorem CallPart.of_after? (hw : w.all isCallPart = true) (hstarts : Starts w) (h : after? w t = some u)
    (h' : Past isCallPart u v) : CallPart t v :=
  ⟨.trans (.of_after? hw h) h', .inr (after?_eq_some.1 h ▸ starts_append u hstarts)⟩

theorem CallPart.of_run? {p} (hp : ∀ c, p c = true → isTypeChar c = true)
    (h : run? p t = some (w, u)) (h' : Past isCallPart u v) : CallPart t v := by
  obtain ⟨rfl, hne, hw⟩ := run?_spec h
  refine ⟨.trans (.of_run? (fun c hc => isCallPart_of_isTypeChar c (hp c hc)) h) h', .inr ?_⟩
  exact starts_append u (starts_of_isCode hne fun c hc => isCode_of_isTypeChar (hp c (hw c hc)))

theorem callTo_method (hw : w.all isCallPart = true) (hstarts : Starts w) (h : after? w t = some u)
    (h' : Past isCallPart u ('(' :: rest)) : CallTo t rest :=
  ⟨after?_eq_some.1 h ▸ starts_append u hstarts, .trans (.of_after? hw h) h'⟩

theorem callTo_plainBindCall? (h : plainBindCall? t = some rest) : CallTo t rest := by
  obtain ⟨u, hu, h⟩ := exists_of_findSome?_eq_some h
  simp only [bind_eq_bind, bind_eq_some_iff] at h
  obtain ⟨v, ⟨w, hw, hv⟩, x, hx, h⟩ := h
  have hpackage : CallPart t u := by
    refine callPart_of_mem_optional (fun hr => ?_) hu
    obtain ⟨y, hy, hr⟩ := bind_eq_some_iff.1 hr
    exact .of_after? (by decide +kernel) ⟨'b', rfl, by decide⟩ hy (past_dot? hr)
  have hname : Past isCallPart v ('(' :: rest) := .trans (.of_after? (by decide +kernel) hx) (past_paren h)
  exact .of_part hpackage (callTo_method (by decide +kernel) ⟨'B', rfl, by decide⟩ hw ((past_dot? hv).trans hname))

theorem callTo_contentCall? (h : contentCall? t = some (n, rest)) : CallTo t rest := by
  obtain ⟨u, hu, h⟩ := exists_of_findSome?_eq_some h
  simp only [bind_eq_bind, bind_eq_some_iff, some.injEq, Prod.mk.injEq] at h
  obtain ⟨w, ⟨x, hx, hw⟩, -, rfl⟩ := h
  have hreceiver : CallPart t u := by
    refine callPart_of_mem_optional (fun hr => ?_) hu
    obtain ⟨y, hy, hr⟩ := bind_eq_some_iff.1 hr
    rcases or_eq_some_iff.1 hy with hy | ⟨-, hy⟩
    · exact .of_after? (by decide +kernel) ⟨'t', rfl, by decide⟩ hy (past_dot? hr)
    · exact .of_after? (by decide +kernel) ⟨'s', rfl, by decide⟩ hy (past_dot? hr)
  exact .of_part hreceiver (callTo_method (by decide +kernel) ⟨'s', rfl, by decide⟩ hx (past_paren hw))

theorem callPart_of_mem_assignmentTargets (h : u ∈ assignmentTargets t) : CallPart t u := by
  simp only [assignmentTargets, mem_flatMap] at h
  obtain ⟨v, ⟨w, hw, hv⟩, hu⟩ := h
  have hfinal : CallPart t w := by
    refine callPart_of_mem_optional (fun hr => ?_) hw
    obtain ⟨y, hy, hr⟩ := bind_eq_some_iff.1 hr
    exact .of_after? (by decide +kernel) ⟨'f', rfl, by decide⟩ hy (.of_someBlanks? isCallPart_of_isBlank hr)
  have htype : CallPart w v := by
    refine callPart_of_mem_optional (fun hr => ?_) hv
    simp only [afterWord?, bind_eq_bind, bind_eq_some_iff] at hr
    obtain ⟨⟨x, y⟩, hy, hr⟩ := hr
    exact .of_run? (fun _ => id) hy (.of_someBlanks? isCallPart_of_isBlank hr)
  have hthis : CallPart v u := by
    refine callPart_of_mem_optional (fun hr => ?_) hu
    obtain ⟨y, hy, hr⟩ := bind_eq_some_iff.1 hr
    exact .of_after? (by decide +kernel) ⟨'t', rfl, by decide⟩ hy (past_dot? hr)
  exact hfinal.trans (htype.trans hthis)

theorem callTo_bindCall? (h : bindCall? t = some (n, rest)) : CallTo t rest := by
  simp only [bindCall?, firstOf, map_eq_some_iff, or_eq_some_iff, Prod.mk.injEq] at h
  obtain ⟨rest', h, -, rfl⟩ := h
  rcases h with h | ⟨-, h⟩
  · obtain ⟨u, hu, h⟩ := exists_of_findSome?_eq_some h
    simp only [bind_eq_bind, bind_eq_some_iff] at h
    obtain ⟨⟨w, v⟩, hv, x, hx, h⟩ := h
    have hassign : Past isCallPart v (dropBlanks x) :=
      .trans (.of_spaced? isCallPart_of_isBlank (by decide +kernel) hx) (.of_dropWhile isCallPart_of_isBlank x)
    have hname : CallPart u (dropBlanks x) := .of_run? (fun c hc => by simp [isTypeChar, hc]) hv hassign
    exact .of_part ((callPart_of_mem_assignmentTargets hu).trans hname) (callTo_plainBindCall? h)
  · exact callTo_plainBindCall? h

end Calls

/-! ## What is read for an unbinder -/

def fieldTokens (name : Text) : List (List Text) := [[name], ["this", ".", name]]

/-- What follows a field in a call that unbinds views. -/
def callTokens : List Text := [".", "unbind", "(", ")"]

def resetTokens : List Text := ["=", "null"]

def endTokens : List Text := [";"]

def guardTokens (use : List Text) : List Text := (["if", "("] : List Text) ++ use ++ (["!=", "null", ")"] : List Text)

def blockTokens (tokens : List Text) : List Text := (["\x7b"] : List Text) ++ tokens ++ (["\x7d"] : List Text)

/-- The statements that unbind views or forget a binding. -/
inductive IsTeardown (name : Text) : (guarded : Bool) → (tokens : List Text) → Prop where
  | call {use : List Text} (h : use ∈ fieldTokens name) : IsTeardown name false (use ++ callTokens ++ endTokens)
  | reset {use : List Text} (h : use ∈ fieldTokens name) : IsTeardown name false (use ++ resetTokens ++ endTokens)
  | guarded {use use' : List Text} (h : use ∈ fieldTokens name) (h' : use' ∈ fieldTokens name) :
      IsTeardown name true (guardTokens use ++ (use' ++ callTokens ++ endTokens))
  | guardedBlock {use use' : List Text} (h : use ∈ fieldTokens name) (h' : use' ∈ fieldTokens name) :
      IsTeardown name true (guardTokens use ++ blockTokens (use' ++ callTokens ++ endTokens))

section Recognisers

variable {name t rest : Text}

theorem opens_fieldUse? (h : fieldUse? name t = some rest) : ∃ use ∈ fieldTokens name, Opens use t rest := by
  simp only [fieldUse?, or_eq_some_iff, bind_eq_bind, bind_eq_some_iff] at h
  rcases h with ⟨u, ⟨v, hv, hu⟩, h⟩ | ⟨-, h⟩
  · exact ⟨_, by simp [fieldTokens], (Opens.of_after? hv).trans (.of_dot? hu (.of_after? h))⟩
  · exact ⟨_, by simp [fieldTokens], .of_after? h⟩

theorem opens_unbindCall? (h : unbindCall? name t = some rest) :
    ∃ use ∈ fieldTokens name, Opens (use ++ callTokens ++ endTokens) t rest := by
  simp only [unbindCall?, bind_eq_bind, bind_eq_some_iff] at h
  obtain ⟨u, ⟨v, hv, hu⟩, w, ⟨x, ⟨y, hy, hx⟩, hw⟩, h⟩ := h
  obtain ⟨use, huse, hread⟩ := opens_fieldUse? hv
  have hcall : Reads callTokens v w :=
    (Reads.of_dot? hu (.of_after? hy)).trans ((Reads.of_spaced? hx).trans (.of_spaced? hw))
  exact ⟨use, huse, (hread.trans hcall).trans (.of_spaced? h)⟩

theorem opens_resetStatement? (h : resetStatement? name t = some rest) :
    ∃ use ∈ fieldTokens name, Opens (use ++ resetTokens ++ endTokens) t rest := by
  simp only [resetStatement?, bind_eq_bind, bind_eq_some_iff] at h
  obtain ⟨u, ⟨v, ⟨w, hw, hv⟩, hu⟩, h⟩ := h
  obtain ⟨use, huse, hread⟩ := opens_fieldUse? hw
  exact ⟨use, huse, (hread.trans ((Reads.of_spaced? hv).trans (.of_spaced? hu))).trans (.of_spaced? h)⟩

theorem opens_guardedUnbind? (h : guardedUnbind? name t = some rest) :
    ∃ tokens, IsTeardown name true tokens ∧ Opens tokens t rest := by
  simp only [guardedUnbind?, bind_eq_bind, bind_eq_some_iff, or_eq_some_iff] at h
  obtain ⟨u, ⟨v, hv, hu⟩, w, hw, x, ⟨y, ⟨z, hz, hy⟩, hx⟩, h⟩ := h
  obtain ⟨use, huse, hread⟩ := opens_fieldUse? hw
  have hopens : Opens ["if", "("] t u := (Opens.of_after? hv).trans (.of_spaced? hu)
  have htest : Reads ["!=", "null", ")"] w x :=
    (Reads.of_spaced? hz).trans ((Reads.of_spaced? hy).trans (.of_spaced? hx))
  have hguard : Opens (guardTokens use) t x := (hopens.trans (.of_dropBlanks hread)).trans htest
  rcases h with ⟨k, ⟨l, hl, hk⟩, h⟩ | ⟨-, h⟩
  · obtain ⟨use', huse', hcall⟩ := opens_unbindCall? hk
    have hblock : Reads (blockTokens (use' ++ callTokens ++ endTokens)) x rest :=
      ((Reads.of_spaced? hl).trans (.of_dropBlanks hcall)).trans (.of_spaced? h)
    exact ⟨_, .guardedBlock huse huse', hguard.trans hblock⟩
  · obtain ⟨use', huse', hcall⟩ := opens_unbindCall? h
    exact ⟨_, .guarded huse huse', hguard.trans (.of_dropBlanks hcall)⟩

/-- What is taken out for an unbinder is spelled with its name, or with `this` and its name. -/
theorem spelled_of_mem_unbinderStatements {b s} (hle : b.opening ≤ b.closing)
    (hlength : b.closing ≤ masked.length) (hs : s ∈ unbinderStatements masked name b) :
    b.opening ≤ s.start ∧ s.start ≤ s.stop ∧ s.stop ≤ b.closing ∧
      ∃ guarded tokens, IsTeardown name guarded tokens ∧ Spelled tokens (slice masked s.start s.stop) := by
  have spelled : ∀ {before : Before} {r : Text → Option Text} {m : Match Unit},
      m ∈ allMatches masked b.opening b.closing before (fun t => (r t).map ((), ·)) →
      (∀ {t rest}, r t = some rest → ∃ guarded tokens, IsTeardown name guarded tokens ∧ Opens tokens t rest) →
      b.opening ≤ m.start ∧ m.start ≤ m.stop ∧ m.stop ≤ b.closing ∧
        ∃ guarded tokens, IsTeardown name guarded tokens ∧ Spelled tokens (slice masked m.start m.stop) := by
    intro before r m hm hr
    have hwithin := allMatches_spec hm hle hlength
    obtain ⟨rest, haccept, hstop⟩ := hwithin.accepts
    obtain ⟨rest', hrest, heq⟩ := map_eq_some_iff.1 haccept
    obtain rfl : rest' = rest := (Prod.mk.inj heq).2
    obtain ⟨guarded, tokens, htokens, front, hfront, hspelled⟩ := hr hrest
    have hlen := congrArg List.length hfront
    rw [length_append] at hlen
    refine ⟨hwithin.le_start, hwithin.start_le, hwithin.stop_le, guarded, tokens, htokens, ?_⟩
    rwa [show m.stop = m.start + front.length by omega, slice_front hfront]
  simp only [unbinderStatements, mem_append, List.mem_map] at hs
  rcases hs with (⟨m, hm, rfl⟩ | ⟨m, hm, rfl⟩) | ⟨m, hm, rfl⟩
  · exact spelled hm fun h => ⟨true, opens_guardedUnbind? h⟩
  · refine spelled hm fun h => ?_
    obtain ⟨use, huse, hread⟩ := opens_unbindCall? h
    exact ⟨false, _, .call huse, hread⟩
  · refine spelled hm fun h => ?_
    obtain ⟨use, huse, hread⟩ := opens_resetStatement? h
    exact ⟨false, _, .reset huse, hread⟩

end Recognisers

/-! ## The characters of teardowns -/

section Teardowns

variable {name t : Text} {guarded : Bool} {tokens use : List Text}

theorem IsTeardown.semicolon_mem (h : IsTeardown name guarded tokens) : ";".toList ∈ tokens := by
  cases h <;> simp [endTokens, blockTokens]

theorem IsTeardown.getLast? (h : IsTeardown name guarded tokens) (ht : Spaced tokens t) :
    ∃ c ∈ [';', '}'], t.getLast? = some c := by
  have last : ∀ {ws c}, tokens = ws ++ [[c]] → t.getLast? = some c := by
    rintro ws c rfl
    obtain ⟨u, v, rfl, -, g, rest, -, rfl, rfl⟩ := ht.split
    simp
  cases h with
  | call | reset => exact ⟨';', by simp, last rfl⟩
  | guarded => exact ⟨';', by simp, last (append_assoc ..).symm⟩
  | guardedBlock => exact ⟨'}', by simp, last (append_assoc ..).symm⟩

variable (hword : ∀ c ∈ name, isWord c = true)

include hword

theorem mem_flatten_use (huse : use ∈ fieldTokens name) {c} (hc : c ∈ use.flatten) : isWord c = true ∨ c = '.' := by
  simp only [fieldTokens, mem_cons, not_mem_nil, or_false] at huse
  rcases huse with rfl | rfl
  · exact .inl (hword c (by simpa using hc))
  · simp only [flatten_cons, flatten_nil, append_nil, mem_append] at hc
    rcases hc with hc | hc | hc
    · exact .inl (all_eq_true.1 (show "this".toList.all isWord = true by decide) c hc)
    · exact .inr (by simpa using hc)
    · exact .inl (hword c hc)

theorem brackets_use (huse : use ∈ fieldTokens name) : brackets use.flatten = [] := by
  refine brackets_eq_nil fun c hc => ?_
  rcases mem_flatten_use hword huse hc with hc | rfl
  · exact not_isBracket_of_class (by decide +kernel) hc
  · decide

theorem brackets_call (huse : use ∈ fieldTokens name) :
    brackets (use ++ callTokens ++ endTokens).flatten = "()" := by
  simp only [flatten_append, brackets_append, brackets_use hword huse]
  decide

theorem IsTeardown.wellBracketed (h : IsTeardown name guarded tokens) : WellBracketed tokens.flatten := by
  rw [WellBracketed, ← owedAfter_brackets]
  cases h with
  | call huse =>
    rw [brackets_call hword huse]
    decide
  | reset huse =>
    simp only [flatten_append, brackets_append, brackets_use hword huse]
    decide
  | guarded huse huse' =>
    rw [flatten_append, brackets_append, brackets_call hword huse']
    simp only [guardTokens, flatten_append, brackets_append, brackets_use hword huse]
    decide
  | guardedBlock huse huse' =>
    have hcall := brackets_call hword huse'
    rw [blockTokens, flatten_append, brackets_append, flatten_append, flatten_append,
      brackets_append, brackets_append, hcall]
    simp only [guardTokens, flatten_append, brackets_append, brackets_use hword huse]
    decide

theorem IsTeardown.head? (hne : name ≠ []) (h : IsTeardown name guarded tokens) (ht : Spelled tokens t) :
    ∃ c, t.head? = some c ∧ isWord c = true := by
  obtain ⟨w, ws, rfl, hw, hall⟩ : ∃ w ws, tokens = w :: ws ∧ w ≠ [] ∧ ∀ c ∈ w, isWord c = true := by
    have use : ∀ {use more : List Text}, use ∈ fieldTokens name →
        ∃ w ws, use ++ more = w :: ws ∧ w ≠ [] ∧ ∀ c ∈ w, isWord c = true := by
      intro use more huse
      simp only [fieldTokens, mem_cons, not_mem_nil, or_false] at huse
      rcases huse with rfl | rfl
      · exact ⟨name, more, rfl, hne, hword⟩
      · exact ⟨"this", _, rfl, by decide, all_eq_true.1 (by decide)⟩
    cases h with
    | call huse | reset huse => simpa only [append_assoc] using use huse
    | guarded | guardedBlock => exact ⟨"if", _, rfl, by decide, all_eq_true.1 (by decide)⟩
  obtain ⟨rest, rfl, -⟩ := ht
  obtain ⟨c, w, rfl⟩ := exists_cons_of_ne_nil hw
  exact ⟨c, rfl, hall c (by simp)⟩

end Teardowns

/-! ## Brackets of tokens -/

theorem brackets_spaced : ∀ {ws t}, Spaced ws t → brackets t = brackets ws.flatten
  | [], _, h => by
    rw [h]
    rfl
  | w :: ws, _, h => by
    obtain ⟨g, rest, hg, rfl, hrest⟩ := h
    have hgap : brackets g = [] := brackets_eq_nil fun c hc => not_isBracket_of_isBlank (all_eq_true.1 hg c hc)
    rw [brackets_append, brackets_append, hgap, brackets_spaced hrest, flatten_cons, brackets_append]
    rfl

end Rebind.Conversion
