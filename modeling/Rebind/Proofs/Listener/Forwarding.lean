/-
What a handler is called with.

Each argument is the best that the callback parameters still unused allow for its declared parameter (`Fits`,
`call_forwards`). They are chosen from left to right, so a callback parameter can be gone when the declared parameter of
its own type comes (`exact_match_iff`).
-/
import Mathlib.Data.List.Count
import Mathlib.Data.List.Nodup
import Rebind.Listener.Forwarding

namespace Rebind.Listener

open Naming (simpleTypeName)
open Java List

/-- A type that a view may be cast to. -/
def Castable (type : Text) : Prop := (∀ d ∈ primitiveDefaults, d.1 ≠ type) ∧ type ∉ otherObjectTypes

/-- The callback parameter can be passed on, as it is or cast, where a type is declared. -/
def Eligible (wanted : Text) (q : Text × Text) : Prop :=
  simpleTypeName q.1 = wanted ∨ (wanted = "CharSequence" ∧ simpleTypeName q.1 = "Editable") ∨
    (Castable wanted ∧ simpleTypeName q.1 ∈ viewTypes)

/-- The argument for a declared parameter where the callback parameters `free` are unused. -/
inductive Fits (free : List (Text × Text)) (p : Parameter) : Argument → Prop where
  | exact {q : Text × Text} (unused : q ∈ free) (type : simpleTypeName q.1 = simpleTypeName p.type) :
      Fits free p (.plain q.2)
  | editable {q : Text × Text} (none : ∀ r ∈ free, simpleTypeName r.1 ≠ simpleTypeName p.type) (unused : q ∈ free)
      (type : simpleTypeName q.1 = "Editable") (wanted : simpleTypeName p.type = "CharSequence") :
      Fits free p (.plain q.2)
  | cast {q : Text × Text} (none : ∀ r ∈ free, simpleTypeName r.1 ≠ simpleTypeName p.type) (unused : q ∈ free)
      (type : simpleTypeName q.1 ∈ viewTypes) (wanted : Castable (simpleTypeName p.type)) :
      Fits free p (.cast p.type q.2)
  | literal {value : Text} (none : ∀ r ∈ free, ¬ Eligible (simpleTypeName p.type) r)
      (primitive : (simpleTypeName p.type, value) ∈ primitiveDefaults) : Fits free p (.fixed value)
  | null (none : ∀ r ∈ free, ¬ Eligible (simpleTypeName p.type) r)
      (object : ∀ d ∈ primitiveDefaults, d.1 ≠ simpleTypeName p.type) : Fits free p (.fixed "null")

variable {params free : List (Text × Text)} {declared : List Parameter} {p : Parameter} {args : List Argument}
  {a : Argument} {name type : Text} {i : Nat}

theorem fits_argumentFor (free : List (Text × Text)) (p : Parameter) : Fits free p (argumentFor free p) := by
  have found {accepts : Text × Text → Bool} {name : Text} (h : (free.find? accepts).map (·.2) = some name) :
      ∃ q ∈ free, accepts q = true ∧ q.2 = name := by
    obtain ⟨q, hq, rfl⟩ := Option.map_eq_some_iff.1 h
    exact ⟨q, mem_of_find?_eq_some hq, find?_some hq, rfl⟩
  have missed {accepts : Text × Text → Bool} (h : (free.find? accepts).map (·.2) = none) :
      ∀ q ∈ free, ¬ accepts q = true :=
    find?_eq_none.1 (Option.map_eq_none_iff.1 h)
  simp only [argumentFor]
  split
  · next name heq =>
    obtain ⟨q, hq, htype, rfl⟩ := found heq
    exact .exact hq (by simpa using htype)
  next hexact =>
  have hexact : ∀ r ∈ free, simpleTypeName r.1 ≠ simpleTypeName p.type := by simpa using missed hexact
  split
  · next name heq =>
    split at heq
    · next hwanted =>
      obtain ⟨q, hq, htype, rfl⟩ := found heq
      exact .editable hexact hq (by simpa using htype) (by simpa using hwanted)
    · cases heq
  next heditable =>
  have hprimitive : (primitiveDefaults.find? (·.1 == simpleTypeName p.type)).isNone = true ↔
      ∀ d ∈ primitiveDefaults, d.1 ≠ simpleTypeName p.type := by
    simp
  split
  · next name heq =>
    split at heq
    · next hwanted =>
      obtain ⟨q, hq, htype, rfl⟩ := found heq
      simp only [Option.isNone_map, Bool.and_eq_true, hprimitive] at hwanted
      exact .cast hexact hq (by simpa using htype) ⟨hwanted.1, by simpa using hwanted.2⟩
    · cases heq
  · next hcast =>
    have hnone : ∀ r ∈ free, ¬ Eligible (simpleTypeName p.type) r := by
      rintro r hr (h | ⟨hwanted, h⟩ | ⟨hwanted, h⟩)
      · exact hexact r hr h
      · rw [if_pos (by simp [hwanted])] at heditable
        simpa [h] using missed heditable r hr
      · rw [if_pos (by simpa [Castable] using hwanted)] at hcast
        simpa [h] using missed hcast r hr
    cases hfind : primitiveDefaults.find? (·.1 == simpleTypeName p.type) with
    | none => exact .null hnone (hprimitive.1 (by rw [hfind]; rfl))
    | some d =>
      have htype : d.1 = simpleTypeName p.type := by simpa using find?_some hfind
      exact .literal hnone (htype ▸ mem_of_find?_eq_some hfind)

theorem Fits.source_mem (h : Fits free p a) (ha : a.source? = some name) : ∃ q ∈ free, q.2 = name := by
  cases h with
  | exact unused | editable _ unused | cast _ unused => exact ⟨_, unused, Option.some.inj ha⟩
  | literal | null => cases ha

/-! ## All arguments of a call -/

/-- The callback parameters that none of the arguments passes on. -/
def unused (params : List (Text × Text)) (args : List Argument) : List (Text × Text) :=
  params.filter fun q => !args.any fun a => a.source? == some q.2

/-- One argument for each declared parameter, chosen after those before it. -/
structure Forwards (params : List (Text × Text)) (declared : List Parameter) (args : List Argument) : Prop where
  length_eq : args.length = declared.length
  once : (args.filterMap Argument.source?).Nodup
  fits : ∀ {i p a}, declared[i]? = some p → args[i]? = some a → Fits (unused params (args.take i)) p a

theorem Forwards.source_mem (h : Forwards params declared args) (ha : name ∈ args.filterMap Argument.source?) :
    ∃ q ∈ params, q.2 = name := by
  obtain ⟨a, ha, hname⟩ := mem_filterMap.1 ha
  obtain ⟨i, hi⟩ := mem_iff_getElem?.1 ha
  obtain ⟨hlt, -⟩ := List.getElem?_eq_some_iff.1 hi
  obtain ⟨q, hq, rfl⟩ := (h.fits (getElem?_eq_getElem (h.length_eq ▸ hlt)) hi).source_mem hname
  exact ⟨q, (mem_filter.1 hq).1, rfl⟩

theorem forwards_argumentsFor (free : List (Text × Text)) (declared : List Parameter) :
    Forwards free declared (argumentsFor free declared) := by
  induction declared generalizing free with
  | nil => exact ⟨rfl, nodup_nil, by simp⟩
  | cons p declared ih =>
    have hrest := ih (free.filter fun q => (argumentFor free p).source? != some q.2)
    have hfits := fits_argumentFor free p
    simp only [argumentsFor]
    generalize argumentFor free p = a at hrest hfits
    refine ⟨congrArg (· + 1) hrest.length_eq, ?_, ?_⟩
    · rw [filterMap_cons]
      split
      · exact hrest.once
      · next name ha =>
        refine nodup_cons.2 ⟨fun hmem => ?_, hrest.once⟩
        obtain ⟨q, hq, rfl⟩ := hrest.source_mem hmem
        simp [ha] at hq
    · intro i q b hq hb
      cases i with
      | zero =>
        obtain rfl := Option.some.inj hq
        obtain rfl := Option.some.inj hb
        have hall : unused free [] = free := filter_eq_self.2 fun q _ => rfl
        rwa [take_zero, hall]
      | succ i =>
        have := hrest.fits hq hb
        simpa [unused, Bool.and_comm, bne] using this

theorem callback_mem (kind : Kind) (name : Option Text) : kind.shape.callback name ∈ kind.shape.callbacks := by
  rw [Shape.callback]
  cases hfind : kind.shape.callbacks.find? fun c => some c.name == name with
  | none => cases kind <;> decide +kernel
  | some c => exact mem_of_find?_eq_some hfind

theorem callbackFor_mem (kind : Kind) (declared : List Parameter) (constant : Option Text) :
    callbackFor kind declared constant ∈ kind.shape.callbacks := by
  rw [callbackFor]
  split
  · next h => exact h.1 ▸ by decide
  · exact callback_mem kind _

theorem nodup_callback_names {kind : Kind} {c} (hc : c ∈ kind.shape.callbacks) :
    (c.params.map Prod.snd).Nodup := by
  revert c
  cases kind <;> decide +kernel

/-- A handler is called with one argument for each declared parameter: a callback parameter of the declared type, an
`Editable` where a char sequence is declared, or a view cast to the declared type, which no other argument passes on,
and a default only where none of these is left. -/
theorem call_forwards (kind : Kind) (declared : List Java.Parameter) (constant : Option Text) (handler : Text) :
    callbackFor kind declared constant ∈ kind.shape.callbacks ∧
    ((callbackFor kind declared constant).params.map Prod.snd).Nodup ∧
    ∃ args, Forwards (callbackFor kind declared constant).params declared args ∧
      callOf (callbackFor kind declared constant) handler declared =
        handler ++ "(" ++ Text.join ", " (args.map Argument.text) ++ ")" := by
  have hmem := callbackFor_mem kind declared constant
  exact ⟨hmem, nodup_callback_names hmem, _, forwards_argumentsFor _ declared, rfl⟩

/-! ## Callback parameters of the declared type -/

/-- The argument passes on a callback parameter of a type. -/
def passesOn (params : List (Text × Text)) (type : Text) (a : Argument) : Bool :=
  params.any fun q => simpleTypeName q.1 == type && a.source? == some q.2

/-- A declared parameter that is of a type, or is given a callback parameter of it. -/
def contends (params : List (Text × Text)) (type : Text) (x : Parameter × Argument) : Bool :=
  simpleTypeName x.1.type == type || passesOn params type x.2

section Counting

variable (hnames : (params.map Prod.snd).Nodup) (hsub : free.Sublist params) (h : Fits free p a)

include hnames hsub

theorem eq_of_name {q r : Text × Text} (hr : r ∈ free) (hq : q ∈ params) (hname : r.2 = q.2) : r = q :=
  inj_on_of_nodup_map hnames (hsub.subset hr) hq hname

include h

theorem countP_unused : (free.filter fun q => a.source? != some q.2).countP (simpleTypeName ·.1 == type) =
    free.countP (simpleTypeName ·.1 == type) - if passesOn params type a then 1 else 0 := by
  cases ha : a.source? with
  | none => simp [passesOn, ha, filter_eq_self.2]
  | some name =>
    obtain ⟨q, hq, rfl⟩ := h.source_mem ha
    have herase : (free.filter fun r => some q.2 != some r.2) = free.erase q := by
      rw [((hnames.of_map _).sublist hsub).erase_eq_filter]
      refine filter_congr fun r hr => ?_
      have := eq_of_name hnames hsub hr (hsub.subset hq)
      grind
    have hpasses : passesOn params type a = (simpleTypeName q.1 == type) := by
      have hname {r : Text × Text} (hr : r ∈ params) := eq_of_name hnames hsub hq hr
      grind [passesOn]
    rw [herase, countP_erase, hpasses]
    simp [hq]

theorem Fits.exact_iff : (∃ q ∈ params, simpleTypeName q.1 = simpleTypeName p.type ∧ a = .plain q.2) ↔
    0 < free.countP (simpleTypeName ·.1 == simpleTypeName p.type) := by
  simp only [countP_pos_iff, beq_iff_eq]
  constructor
  · rintro ⟨q, hq, htype, ha⟩
    cases h with
    | exact unused type => exact ⟨_, unused, type⟩
    | editable none unused =>
      rw [← eq_of_name hnames hsub unused hq (Argument.plain.inj ha)] at htype
      exact absurd htype (none _ unused)
    | cast | literal | null => cases ha
  · rintro ⟨r, hr, htype⟩
    cases h with
    | exact unused type => exact ⟨_, hsub.subset unused, type, rfl⟩
    | editable none | cast none => exact absurd htype (none r hr)
    | literal none | null none => exact absurd (.inl htype) (none r hr)

theorem Fits.type_of_passesOn (ha : passesOn params type a = true) :
    simpleTypeName p.type = type ∨ type = "Editable" ∨ type ∈ viewTypes := by
  simp only [passesOn, any_eq_true, Bool.and_eq_true, beq_iff_eq] at ha
  obtain ⟨q, hq, rfl, ha⟩ := ha
  cases h with
  | exact unused type => exact .inl (eq_of_name hnames hsub unused hq (Option.some.inj ha) ▸ type.symm)
  | editable _ unused type => exact .inr (.inl (eq_of_name hnames hsub unused hq (Option.some.inj ha) ▸ type))
  | cast _ unused type => exact .inr (.inr (eq_of_name hnames hsub unused hq (Option.some.inj ha) ▸ type))
  | literal | null => cases ha

omit h

theorem exact_argument_iff (hi : declared[i]? = some p) :
    (∃ q ∈ params, simpleTypeName q.1 = simpleTypeName p.type ∧ (argumentsFor free declared)[i]? = some (.plain q.2)) ↔
      ((declared.zip (argumentsFor free declared)).take i).countP (contends params (simpleTypeName p.type)) <
        free.countP (simpleTypeName ·.1 == simpleTypeName p.type) := by
  induction declared generalizing free i with
  | nil => simp at hi
  | cons p' declared ih =>
    have hfits := fits_argumentFor free p'
    simp only [argumentsFor]
    generalize argumentFor free p' = a at hfits
    cases i with
    | zero =>
      obtain rfl := Option.some.inj hi
      simpa using hfits.exact_iff hnames hsub
    | succ i =>
      have hrest := ih (filter_sublist.trans hsub : (free.filter fun q => a.source? != some q.2).Sublist params) hi
      simp only [getElem?_cons_succ, zip_cons_cons, take_succ_cons, countP_cons]
      rw [hrest, countP_unused hnames hsub hfits, contends]
      cases hpass : passesOn params (simpleTypeName p.type) a with
      | true => simp; omega
      | false =>
        by_cases htype : simpleTypeName p'.type = simpleTypeName p.type
        · -- nothing of the type was left for this one, so there is nothing for a later one
          have hzero : ¬ 0 < free.countP (simpleTypeName ·.1 == simpleTypeName p.type) := by
            rw [← htype, ← hfits.exact_iff hnames hsub]
            rintro ⟨q, hq, hqtype, rfl⟩
            simp only [passesOn, any_eq_false] at hpass
            exact hpass q hq (by simp [hqtype, htype, Argument.source?])
          omega
        · simp [htype]

end Counting

/-- A declared parameter is given a callback parameter of its own type exactly if fewer of those before it are of that
type, or were given one of it, than the callback has. A callback parameter that is no view and no `Editable` is given
to declared parameters of its type only, so there the first ones always get theirs. -/
theorem exact_match_iff (kind : Kind) (declared : List Java.Parameter) (constant : Option Text) {c : Callback}
    (hc : callbackFor kind declared constant = c) {i : Nat} {p : Java.Parameter} (hi : declared[i]? = some p) :
    ((∃ q ∈ c.params, simpleTypeName q.1 = simpleTypeName p.type ∧
        (argumentsFor c.params declared)[i]? = some (.plain q.2)) ↔
      ((declared.zip (argumentsFor c.params declared)).take i).countP (contends c.params (simpleTypeName p.type)) <
        c.params.countP (simpleTypeName ·.1 == simpleTypeName p.type)) ∧
    (simpleTypeName p.type ∉ viewTypes → simpleTypeName p.type ≠ "Editable" →
      ((declared.zip (argumentsFor c.params declared)).take i).countP (contends c.params (simpleTypeName p.type)) =
        (declared.take i).countP (simpleTypeName ·.type == simpleTypeName p.type)) := by
  have hnames := nodup_callback_names (hc ▸ callbackFor_mem kind declared constant)
  refine ⟨exact_argument_iff hnames (List.Sublist.refl _) hi, fun hview heditable => ?_⟩
  have hargs := forwards_argumentsFor c.params declared
  generalize argumentsFor c.params declared = args at hargs
  have hfirst : declared.take i = ((declared.zip args).take i).map Prod.fst := by
    rw [map_take, map_fst_zip (Nat.le_of_eq hargs.length_eq.symm)]
  rw [hfirst, countP_map]
  refine countP_congr fun x hx => ?_
  obtain ⟨j, hj⟩ := mem_iff_getElem?.1 (mem_of_mem_take hx)
  obtain ⟨hp, ha⟩ := getElem?_zip_eq_some.1 hj
  simp only [contends, Bool.or_eq_true, beq_iff_eq, Function.comp_apply, or_iff_left_iff_imp]
  intro hpass
  rcases (hargs.fits hp ha).type_of_passesOn hnames filter_sublist hpass with h | h | h
  · exact h
  · exact absurd h heditable
  · exact absurd h hview

/-- The parameters of a handler for clicked items, with the row before the list. -/
def rowFirst : List Parameter := [⟨"TextView", "row"⟩, ⟨"AdapterView<?>", "list"⟩]

theorem exact_match_iff_rowFirst :
    callbackFor .itemClick rowFirst none = ⟨"onItemClick", itemParams, false⟩ ∧
    rowFirst[1]? = some ⟨"AdapterView<?>", "list"⟩ ∧
    ¬ ∃ q ∈ itemParams, simpleTypeName q.1 = simpleTypeName "AdapterView<?>" ∧
      (argumentsFor itemParams rowFirst)[1]? = some (.plain q.2) := by
  have hc : callbackFor .itemClick rowFirst none = ⟨"onItemClick", itemParams, false⟩ := by decide +kernel
  have hi : rowFirst[1]? = some ⟨"AdapterView<?>", "list"⟩ := rfl
  exact ⟨hc, hi, fun h => absurd ((exact_match_iff .itemClick rowFirst none hc hi).1.1 h) (by decide +kernel)⟩

/-- The row is given the list, and the list the row. -/
theorem call_rowFirst :
    itemParams.countP (simpleTypeName ·.1 == simpleTypeName "AdapterView<?>") = 1 ∧
    callOf (callbackFor .itemClick rowFirst none) "pick" rowFirst =
      "pick((TextView) parent, (AdapterView<?>) view)" := by
  decide +kernel

end Rebind.Listener
