/-
The structure of what reading gives, for texts of every kind.

A text is refused, or its types follow one another, each with a head before its braces, and the members of a type lie
apart between the braces (`TypeDecl.Structured`, `readUnit_structured`). A text is never refused because a bracket was
looked for past its end (`InText`).
-/
import Rebind.Proofs.Edit.Resolution
import Rebind.Proofs.Java.Members

namespace Rebind

open Java (Span)
open List

namespace Java.Span

def Apart (a b : Span) : Prop := a.stop ≤ b.start ∨ b.stop ≤ a.start

theorem Apart.symm {a b} (h : Apart a b) : Apart b a := Or.symm h

theorem pairwise_mergeSort_of_apart {l : List Span} (hne : ∀ s ∈ l, s.start < s.stop) (h : l.Pairwise Apart) :
    (l.mergeSort fun a b => decide (a.start ≤ b.start)).Pairwise fun a b => a.stop ≤ b.start := by
  have hperm := mergeSort_perm l fun a b => decide (a.start ≤ b.start)
  have hsorted := @List.pairwise_mergeSort _ (fun a b : Span => decide (a.start ≤ b.start))
    (fun a b c hab hbc => by simp only [decide_eq_true_eq] at *; omega)
    (fun a b => by simp only [Bool.or_eq_true, decide_eq_true_eq]; omega) l
  have hapart := (hperm.pairwise_iff fun h => Apart.symm h).2 h
  refine (hsorted.and hapart).imp_of_mem fun {a b} _ hb hab => ?_
  obtain ⟨hle, h' | h'⟩ := hab
  · exact h'
  · have := hne b (hperm.mem_iff.1 hb)
    simp only [decide_eq_true_eq] at hle
    omega

end Java.Span

namespace Java

open Text

/-! ## Reading stays in the text -/

/-- The computation does not fail for looking past the end of the text. -/
def InText {α : Type} (x : Except ReadError α) : Prop := x ≠ .error .endOfText

namespace InText

variable {α β : Type}

theorem ok (a : α) : InText (.ok a) := by simp [InText]

theorem error {why} (h : why ≠ .endOfText) : InText (.error why : Except ReadError α) := by
  simpa [InText] using h

theorem bind {x} {f : α → Except ReadError β} (hx : InText x)
    (hf : ∀ a, x = .ok a → InText (f a)) : InText (x >>= f) := by
  cases x with
  | error why => exact error fun h => hx (congrArg Except.error h)
  | ok a => exact hf a rfl

end InText

theorem inText_partner {masked} {i : Nat} {c} (h : masked[i]? = some c) : InText (partner masked i) := by
  unfold partner
  split
  · next hdrop =>
    rw [← head?_drop, hdrop] at h
    cases h
  · split
    · exact .error (by simp)
    · split
      · exact .ok _
      · exact .error (by simp)

theorem inText_annotationAt (text masked : Text) (i : Nat) : InText (annotationAt text masked i) := by
  unfold annotationAt
  split
  · exact .error (by simp)
  · simp only
    split
    · next hparen => exact .bind (inText_partner (by simpa using hparen)) fun _ _ => .ok _
    · exact .ok _

theorem inText_annotationsFrom (text masked : Text) (stop i : Nat) : InText (annotationsFrom text masked stop i) := by
  have hij := le_skipBlanks masked i stop
  rw [annotationsFrom]
  split
  · split
    · refine .bind (inText_annotationAt text masked _) fun a ha => ?_
      split
      · exact .bind (inText_annotationsFrom text masked stop a.span.stop) fun _ _ => .ok _
      · exact .ok _
    · exact .ok _
  · exact .ok _
termination_by stop - i

theorem inText_declarationEnd (masked : Text) (i stop : Nat) : InText (declarationEnd masked i stop) := by
  unfold declarationEnd
  split
  · exact .ok _
  · exact .error (by simp)

theorem inText_methodAt {masked} {paren : Nat} (hparen : masked[paren]? = some '(') (className : Text)
    (stop start i : Nat) (as : List Annotation) : InText (methodAt masked className stop start i paren as) := by
  unfold methodAt
  refine .bind (inText_partner hparen) fun close _ => ?_
  split
  · simp only
    split
    · exact .error (by simp)
    · split
      · next hbrace => exact .bind (inText_partner (by simpa using hbrace)) fun _ _ => .ok _
      · exact .ok _
  · exact .error (by simp)

theorem inText_memberAt (text masked className : Text) (stop start : Nat) :
    InText (memberAt text masked className stop start) := by
  unfold memberAt
  refine .bind (inText_annotationsFrom text masked stop start) fun ⟨as, i⟩ _ => ?_
  simp only
  split
  · exact .error (by simp)
  · split
    · split
      · exact .error (by simp)
      · next brace hbrace =>
        obtain ⟨-, -, c, hc, -⟩ := firstWithin?_eq_some hbrace
        exact .bind (inText_partner hc) fun _ _ => .ok _
    · split
      · next hparen =>
        exact .bind (inText_methodAt (by simpa using hparen) className stop start i as) fun _ _ => .ok _
      · refine .bind (inText_declarationEnd masked i stop) fun last _ => ?_
        split
        · exact .ok _
        · exact .ok _

theorem inText_membersFrom (text masked className : Text) (stop i : Nat) :
    InText (membersFrom text masked className stop i) := by
  have hij := le_skipBlanks masked i stop
  rw [membersFrom]
  split
  · split
    · exact inText_membersFrom text masked className stop _
    · refine .bind (inText_memberAt text masked className stop _) fun m _ => ?_
      split
      · exact .bind (inText_membersFrom text masked className stop m.span.stop) fun _ _ => .ok _
      · exact .ok _
  · exact .ok _
termination_by stop - i

theorem inText_typeAt (text masked : Text) (head : Match (TypeKind × Text)) : InText (typeAt text masked head) := by
  unfold typeAt
  simp only
  split
  · exact .error (by simp)
  · next brace hbrace =>
    obtain ⟨-, -, c, hc, -⟩ := firstWithin?_eq_some hbrace
    refine .bind (inText_partner hc) fun close _ => ?_
    split
    · exact .bind (inText_membersFrom text masked _ close (brace + 1)) fun _ _ => .ok _
    · exact .ok _

theorem inText_typesFrom (text masked : Text) (pos : Nat) : InText (typesFrom text masked pos) := by
  rw [typesFrom]
  split
  · exact .ok _
  · refine .bind (inText_typeAt text masked _) fun type _ => ?_
    split
    · exact .bind (inText_typesFrom text masked (type.body.closing + 1)) fun _ _ => .ok _
    · exact .ok _
termination_by masked.length - pos

theorem inText_readUnit (text : Text) : InText (readUnit text) :=
  .bind (inText_typesFrom text (mask text) _) fun _ _ => .ok _

/-! ## The members of a type -/

/-- The spans of the fields, methods and nested types of a type. -/
def TypeDecl.spans (t : TypeDecl) : List Span :=
  t.fields.map (·.span) ++ t.methods.map (·.span) ++ t.nestedTypes

/-- A type's head comes before its braces, which match. Its fields, methods and nested types lie between the
braces, none before the first member; ordered by their starts they follow one another. The annotations of a
field or method stand inside it, one behind the other and before its body. -/
structure TypeDecl.Structured (masked : Text) (t : TypeDecl) : Prop where
  start_lt : t.start < t.body.opening
  opening_lt : t.body.opening < t.body.closing
  brace : masked[t.body.opening]? = some '{'
  matching : partner masked t.body.opening = .ok t.body.closing
  inside : ∀ s ∈ t.spans, t.body.opening < s.start ∧ s.start < s.stop ∧ s.stop ≤ t.body.closing
  disjoint : (t.spans.mergeSort fun a b => decide (a.start ≤ b.start)).Pairwise fun a b => a.stop ≤ b.start
  first : ∀ s ∈ t.spans, ∃ i, t.firstMember = some i ∧ i ≤ s.start
  fields : ∀ f ∈ t.fields, f.Placed masked
  methods : ∀ m ∈ t.methods, m.Placed masked
  bodies : ∀ m ∈ t.methods, ∀ b, m.body = some b → b.opening < b.closing

theorem TypeDecl.mem_members_of_nestedType {t : TypeDecl} {s} (hs : s ∈ t.nestedTypes) :
    .nestedType s ∈ t.members := by
  simp only [TypeDecl.nestedTypes, mem_filterMap] at hs
  obtain ⟨m, hm, hs⟩ := hs
  split at hs
  · obtain rfl := Option.some.inj hs
    exact hm
  · simp at hs

theorem TypeDecl.exists_member_of_span {t : TypeDecl} {s} (hs : s ∈ t.spans) : ∃ m ∈ t.members, m.span = s := by
  simp only [TypeDecl.spans, mem_append, mem_map] at hs
  rcases hs with (⟨f, hf, rfl⟩ | ⟨m, hm, rfl⟩) | hs
  · exact ⟨.field f, mem_members_of_field hf, rfl⟩
  · exact ⟨.method m, mem_members_of_method hm, rfl⟩
  · exact ⟨.nestedType s, mem_members_of_nestedType hs, rfl⟩

namespace TypeDecl.Placed

variable {masked : Text} {t : TypeDecl} (h : t.Placed masked)

include h

theorem apart_of_ne {m m'} (hm : m ∈ t.members) (hm' : m' ∈ t.members) (hne : m ≠ m') :
    Span.Apart m.span m'.span := by
  rcases eq_or_of_pairwise h.apart hm hm' with heq | h' | h'
  · exact absurd heq hne
  · exact .inl h'
  · exact .inr h'

theorem pairwise_filterMap {pick : Member → Option Span} (hpick : ∀ m s, pick m = some s → m.span = s) :
    (t.members.filterMap pick).Pairwise Span.Apart := by
  refine h.apart.filterMap pick fun m m' hle s hs s' hs' => .inl ?_
  rw [← hpick m s hs, ← hpick m' s' hs']
  exact hle

theorem pairwise_spans : t.spans.Pairwise Span.Apart := by
  have hfields : (t.fields.map (·.span)).Pairwise Span.Apart := by
    rw [TypeDecl.fields, map_filterMap]
    refine h.pairwise_filterMap fun m s hs => ?_
    cases m <;> simp_all [Member.span]
  have hmethods : (t.methods.map (·.span)).Pairwise Span.Apart := by
    rw [TypeDecl.methods, map_filterMap]
    refine h.pairwise_filterMap fun m s hs => ?_
    cases m <;> simp_all [Member.span]
  have hnested : t.nestedTypes.Pairwise Span.Apart := by
    refine h.pairwise_filterMap fun m s hs => ?_
    cases m <;> simp_all [Member.span]
  rw [TypeDecl.spans, pairwise_append, pairwise_append]
  refine ⟨⟨hfields, hmethods, fun a ha b hb => ?_⟩, hnested, fun a ha b hb => ?_⟩
  · obtain ⟨f, hf, rfl⟩ := mem_map.1 ha
    obtain ⟨m, hm, rfl⟩ := mem_map.1 hb
    exact h.apart_of_ne (mem_members_of_field hf) (mem_members_of_method hm) (by simp)
  · have hb' := mem_members_of_nestedType hb
    rcases mem_append.1 ha with ha | ha
    · obtain ⟨f, hf, rfl⟩ := mem_map.1 ha
      exact h.apart_of_ne (mem_members_of_field hf) hb' (by simp)
    · obtain ⟨m, hm, rfl⟩ := mem_map.1 ha
      exact h.apart_of_ne (mem_members_of_method hm) hb' (by simp)

theorem firstMember_le {m : Member} (hm : m ∈ t.members) : ∃ i, t.firstMember = some i ∧ i ≤ m.span.start := by
  have hapart := h.apart
  have hlt := fun m hm => (h.members m hm).2.1
  rw [TypeDecl.firstMember]
  cases hms : t.members with
  | nil => simp [hms] at hm
  | cons first rest =>
    rw [hms] at hm hapart hlt
    refine ⟨first.span.start, rfl, ?_⟩
    rcases mem_cons.1 hm with rfl | hm
    · exact Nat.le_refl _
    · have h1 := (pairwise_cons.1 hapart).1 m hm
      have h2 := hlt first (by simp)
      omega

theorem structured : t.Structured masked := by
  have hinside : ∀ s ∈ t.spans, t.body.opening < s.start ∧ s.start < s.stop ∧ s.stop ≤ t.body.closing := by
    intro s hs
    obtain ⟨m, hm, rfl⟩ := exists_member_of_span hs
    obtain ⟨h1, h2, h3, -⟩ := h.members m hm
    exact ⟨h1, h2, h3⟩
  refine ⟨h.start_lt, (partner_lt_length h.braces).1, h.brace, h.braces, hinside, ?_, fun s hs => ?_,
    fun f hf => (h.field hf).2.2.2.2, fun m hm => (h.method hm).2.2.2, fun m hm b hb => (h.methodBody hm hb).2.2.1⟩
  · exact Span.pairwise_mergeSort_of_apart (fun s hs => (hinside s hs).2.1) h.pairwise_spans
  · obtain ⟨m, hm, rfl⟩ := exists_member_of_span hs
    exact h.firstMember_le hm

end TypeDecl.Placed

/-- A text is refused, for another reason than its end, or it is read: then its types follow one another, and
each has the structure of a type in the mask of the text. -/
theorem readUnit_structured (text : Text) :
    match readUnit text with
    | .error why => why ≠ .endOfText
    | .ok unit => unit.text = text ∧ unit.masked = mask text ∧
        unit.types.Pairwise (fun a b => a.body.closing < b.start) ∧ ∀ t ∈ unit.types, t.Structured unit.masked := by
  cases h : readUnit text with
  | error why => exact fun hend => inText_readUnit text (hend ▸ h)
  | ok unit =>
    obtain ⟨rfl, hplaced⟩ := placed_of_readUnit h
    exact ⟨rfl, hplaced.masked_eq, hplaced.inOrder, fun t ht => (hplaced.types t ht).structured⟩

end Java

end Rebind
