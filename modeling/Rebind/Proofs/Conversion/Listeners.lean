/-
The code that registers the listeners of a class. The registrations stand one below the other, each on the view of its
id (`Plan.Registers`): the way to it from the holder, the field bound to the id, or a look-up.
-/
import Rebind.Proofs.Binding.Registrations
import Rebind.Proofs.Conversion.Steps
import Rebind.Proofs.Java.Portable

namespace Rebind

namespace Text

open Java List

/-! ## Texts that are put together -/

theorem length_le_join {sep part parts} (h : part ∈ parts) :
    part.length ≤ (join sep parts).length := by
  induction parts with
  | nil => cases h
  | cons a parts ih =>
    cases parts with
    | nil =>
      rw [mem_singleton.1 h]
      simp [join]
    | cons b parts =>
      rw [join_cons sep a (by simp), length_append, length_append]
      rcases mem_cons.1 h with rfl | h
      · omega
      · have := ih h
        omega

theorem infix_join {sep ls ms} (h : ls <:+: ms) : join sep ls <:+: join sep ms := by
  obtain ⟨front, back, rfl⟩ := h
  by_cases hls : ls = []
  · rw [hls]
    exact nil_infix
  · have hback : join sep ls <+: join sep (ls ++ back) := by
      by_cases h : back = []
      · simp [h]
      · exact ⟨_, (join_append sep hls h).symm⟩
    have hfront : join sep (ls ++ back) <:+ join sep (front ++ ls ++ back) := by
      rw [append_assoc]
      by_cases h : front = []
      · simp [h]
      · rw [join_append sep h (by simp [hls]), ← append_assoc]
        exact suffix_append _ _
    exact hback.isInfix.trans hfront.isInfix

theorem infix_join_drop {sep first n} (hn : n ≤ first.length) {ls rest} (h : ls <:+: rest) :
    join sep ls <:+: (join sep (first :: rest)).drop n := by
  by_cases hrest : rest = []
  · rw [hrest, infix_nil] at h
    rw [h]
    exact nil_infix
  · rw [join_cons sep first hrest, drop_append_of_le_length hn, ← append_assoc]
    exact (infix_join h).trans (suffix_append _ _).isInfix

theorem exists_mem_linesFrom {c} (hc : isLineBreak c = false) (line t : Text) (h : c ∈ line ∨ c ∈ t) :
    ∃ l ∈ linesFrom line t, c ∈ l := by
  fun_induction linesFrom line t with
  | case1 line hline => simp_all
  | case2 line hline => exact ⟨_, mem_singleton.2 rfl, by simpa using h⟩
  | case3 line t ih =>
    by_cases hline : c ∈ line
    · exact ⟨_, mem_cons_self, mem_reverse.2 hline⟩
    · have hbreaks : c ≠ '\r' ∧ c ≠ '\n' := by
        constructor <;> rintro rfl <;> revert hc <;> decide
      obtain ⟨l, hl, hmem⟩ := ih (by simpa [hline, hbreaks] using h)
      exact ⟨l, mem_cons_of_mem _ hl, hmem⟩
  | case4 line d t _ hd ih =>
    by_cases hline : c ∈ line
    · exact ⟨_, mem_cons_self, mem_reverse.2 hline⟩
    · have hne : c ≠ d := by
        rintro rfl
        rw [hc] at hd
        cases hd
      obtain ⟨l, hl, hmem⟩ := ih (by simpa [hline, hne] using h)
      exact ⟨l, mem_cons_of_mem _ hl, hmem⟩
  | case5 line d t _ hd ih =>
    refine ih ?_
    rcases h with h | h
    · exact .inl (mem_cons_of_mem _ h)
    · rcases mem_cons.1 h with rfl | h
      · exact .inl mem_cons_self
      · exact .inr h

theorem length_le_indent (pad : Text) {u c} (hc : isBlank c = false) (hbreak : isLineBreak c = false)
    (h : c ∈ u) : pad.length ≤ (indent pad u).length := by
  obtain ⟨l, hl, hmem⟩ := exists_mem_linesFrom hbreak [] u (.inr h)
  have hblank : isAllBlank l = false := by
    apply Bool.eq_false_iff.2
    intro hall
    rw [all_eq_true.1 hall c hmem] at hc
    cases hc
  have hpart : pad ++ l ∈ (lines u).map fun line => if isAllBlank line then line else pad ++ line :=
    mem_map.2 ⟨l, hl, by simp [hblank]⟩
  have := @length_le_join ['\n'] _ _ hpart
  rw [length_append] at this
  exact Nat.le_trans (Nat.le_add_right _ _) this

end Text

namespace Conversion

open Text

/-! ## Registrations -/

/-- What a listener of the kind is registered on, as it is written: the field, or a look-up with a cast where the
listener needs one. -/
def targetView (receiver : Text) (kind : Listener.Kind) : Binding.Target → Text
  | .field f => f.name
  | .found ref =>
    match receiverType? kind with
    | none => lookup receiver ref
    | some (type, _) => "((" ++ type ++ ") " ++ lookup receiver ref ++ ")"

/-- The view that a listener is registered on in a conversion to look-ups. -/
def lookupView (plan : Plan) (receiver : Text) (handler : Binding.HandlerBinding) (id : Text) : Text :=
  targetView receiver handler.kind (plan.bindings.target (handler, id))

namespace Plan

/-- The statement that registers a handler on a view. -/
def registered (plan : Plan) (handler : Binding.HandlerBinding) (view : Text) : Text :=
  Listener.registration handler.kind view handler.call (some handler.callback) handler.returnsBoolean plan.indentUnit

def receiver? (plan : Plan) : Option Text :=
  match plan.anchor with
  | .content screen _ content => (lookupFrame? screen content.text).map (·.1)
  | _ => none

def pad (plan : Plan) : Text :=
  match plan.anchor with
  | .content _ _ content => lineIndent plan.unit.text content.span.start
  | _ => []

/-- The view is that of the id: it stands at the end of the way that is known for the id, or is the field bound to the
id or a look-up. -/
def Shows (plan : Plan) (paths : Keyed Text Text) (handler : Binding.HandlerBinding) (id view : Text) : Prop :=
  match plan.options.mode with
  | .viewBinding => paths.get? id = some view
  | .findViewById => ∃ receiver, plan.receiver? = some receiver ∧ view = lookupView plan receiver handler id

theorem Shows.mono {plan : Plan} {paths paths'}
    (hpaths : ∀ id path, paths.get? id = some path → paths'.get? id = some path)
    {handler id view} (h : plan.Shows paths handler id view) :
    plan.Shows paths' handler id view := by
  unfold Shows at h ⊢
  split
  · next hmode =>
    rw [hmode] at h
    exact hpaths id view h
  · next hmode =>
    rw [hmode] at h
    exact h

/-- The statements register the listeners of the class, each on the view of its id. -/
def AreRegistered (plan : Plan) (paths : Keyed Text Text) (listeners : List Text) : Prop :=
  List.Forall₂ (fun x u => ∃ view, plan.Shows paths x.1 x.2 view ∧ u = plan.registered x.1 view)
    plan.bindings.registrations listeners

theorem AreRegistered.mono {plan : Plan} {paths paths'}
    (hpaths : ∀ id path, paths.get? id = some path → paths'.get? id = some path) {listeners}
    (h : plan.AreRegistered paths listeners) : plan.AreRegistered paths' listeners := by
  refine List.Forall₂.imp ?_ h
  rintro x u ⟨view, hview, rfl⟩
  exact ⟨view, hview.mono hpaths, rfl⟩

/-- The code holds the registrations of the class, one below the other. -/
def Registers (plan : Plan) (paths : Keyed Text Text) (code : Text) : Prop :=
  ∃ listeners, plan.AreRegistered paths listeners ∧ join ['\n'] (listeners.map (indent plan.pad)) <:+: code

/-- Where a content statement is rewritten, the code holds the registrations of the class. -/
def Sets (plan : Plan) (paths : Keyed Text Text) (changes : List Change) (code : Text) : Prop :=
  (∃ s, .content s ∈ changes) → plan.Registers paths code

/-- What is written in the place of the content statement. -/
def rewritten (plan : Plan) (before : List Text) (statement : Text) (after : List Text) : Text :=
  (join ['\n'] (before.map (indent plan.pad) ++ [plan.pad ++ statement] ++ after.map (indent plan.pad))).drop
    plan.pad.length

theorem Registers.mono {plan : Plan} {paths paths'}
    (hpaths : ∀ id path, paths.get? id = some path → paths'.get? id = some path) {code}
    (h : plan.Registers paths code) : plan.Registers paths' code := by
  obtain ⟨listeners, hlisteners, hcode⟩ := h
  exact ⟨listeners, hlisteners.mono hpaths, hcode⟩

variable {plan : Plan} {paths : Keyed Text Text} {listeners : List Text}

theorem registers_after (h : plan.AreRegistered paths listeners) {front}
    (hfront : ∀ u ∈ front, '=' ∈ u) (statement : Text) (inits tail : List Text) :
    plan.Registers paths (plan.rewritten front statement (inits ++ listeners ++ tail)) := by
  refine ⟨listeners, h, ?_⟩
  cases front with
  | nil =>
    refine infix_join_drop (by simp) ⟨inits.map (indent plan.pad), tail.map (indent plan.pad), ?_⟩
    simp [List.map_append]
  | cons u front =>
    refine infix_join_drop (length_le_indent _ (by decide) (by decide) (hfront u List.mem_cons_self))
      ⟨front.map (indent plan.pad) ++ (plan.pad ++ statement) :: inits.map (indent plan.pad),
        tail.map (indent plan.pad), ?_⟩
    simp [List.map_append]

/-- The registrations stand apart from the first line, which goes on where the content statement started. -/
theorem registers_before (h : plan.AreRegistered paths listeners) {u} (hu : '=' ∈ u) (front : List Text)
    (statement : Text) : plan.Registers paths (plan.rewritten (u :: front ++ listeners) statement []) := by
  refine ⟨listeners, h, ?_⟩
  refine infix_join_drop (length_le_indent _ (by decide) (by decide) hu)
    ⟨front.map (indent plan.pad), [plan.pad ++ statement], ?_⟩
  simp [List.map_append]

end Plan

end Conversion

end Rebind
