/-
Which recorded ranges take effect, and when none can.

`resolve` keeps exactly the outermost of the recorded ranges, each once and as it was first recorded (`Resolved`), and
fails exactly when two of them straddle, or when one was recorded with two texts (`resolve_isError_iff`). The scan only
compares a range with the last one kept; `Settled` is what makes that enough.
-/
import Rebind.Edit.Basic
import Rebind.Java.Declaration
import Rebind.Proofs.Except

namespace Rebind

open List Except

theorem eq_or_of_pairwise {α : Type} {R} {l : List α} (h : l.Pairwise R) {a b}
    (ha : a ∈ l) (hb : b ∈ l) : a = b ∨ R a b ∨ R b a := by
  have h1 : l.Pairwise fun a b => a = b ∨ R a b ∨ R b a := h.imp fun h' => .inr (.inl h')
  have h2 : l.Pairwise (flip fun a b => a = b ∨ R a b ∨ R b a) := h.imp fun h' => .inr (.inr h')
  exact List.Pairwise.forall_of_forall_of_flip (fun _ _ => .inl rfl) h1 h2 ha hb

namespace Java.Span

def Inside (a b : Span) : Prop := b.start ≤ a.start ∧ a.stop ≤ b.stop

instance (a b : Span) : Decidable (a.Inside b) := inferInstanceAs (Decidable (_ ∧ _))

/-- The spans overlap, the first one further left, and neither holds the other. -/
def Straddles (a b : Span) : Prop := a.start < b.start ∧ b.start < a.stop ∧ a.stop < b.stop

/-- Among some spans the span is one that is in no wider one; it holds at least a character. -/
def Outermost (among : Span → Prop) (s : Span) : Prop :=
  among s ∧ s.start < s.stop ∧ ∀ r, among r → s.Inside r → r = s

def Straddling (among : Span → Prop) : Prop :=
  ∃ a b, Outermost among a ∧ Outermost among b ∧ a.Straddles b

theorem Inside.trans {a b c : Span} (h : a.Inside b) (h' : b.Inside c) : a.Inside c :=
  ⟨Nat.le_trans h'.1 h.1, Nat.le_trans h.2 h'.2⟩

variable {s : Span} {p q : Span → Prop}

theorem covers_iff {pos} : s.covers pos = true ↔ s.start ≤ pos ∧ pos < s.stop := by
  simp [covers]

theorem Outermost.congr (h : ∀ s, s.start < s.stop → (p s ↔ q s)) : Outermost p s ↔ Outermost q s := by
  have wider : ∀ r : Span, s.start < s.stop → s.Inside r → r.start < r.stop := fun r hs hr => by
    obtain ⟨h1, h2⟩ := hr
    omega
  constructor
  · rintro ⟨hs, hne, hout⟩
    exact ⟨(h s hne).1 hs, hne, fun r hr hin => hout r ((h r (wider r hne hin)).2 hr) hin⟩
  · rintro ⟨hs, hne, hout⟩
    exact ⟨(h s hne).2 hs, hne, fun r hr hin => hout r ((h r (wider r hne hin)).1 hr) hin⟩

theorem Straddling.congr (h : ∀ s, s.start < s.stop → (p s ↔ q s)) : Straddling p ↔ Straddling q := by
  simp only [Straddling, Outermost.congr h]

end Java.Span

namespace Edit

open Java (Span)

def span (e : Edit) : Span := ⟨e.start, e.stop⟩

@[simp] theorem span_start (e : Edit) : e.span.start = e.start := rfl
@[simp] theorem span_stop (e : Edit) : e.span.stop = e.stop := rfl

namespace Draft

def Orderly (d : Draft) : Prop := ∀ e ∈ d.edits, e.start ≤ e.stop ∧ e.stop ≤ d.text.length

variable {d : Draft} {a b e o k : Edit} {s : Span} {seen kept : List Edit}

theorem Orderly.replace {d' start stop text} (hd : d.Orderly)
    (h : d.replace start stop text = .ok d') : d'.Orderly := by
  unfold Draft.replace at h
  split at h
  · cases h
  · next hin =>
    cases h
    intro e he
    rcases mem_append.1 he with he | he
    · exact hd e he
    · rw [mem_singleton.1 he]
      simp only
      omega

/-- The span is one that a recorded edit takes away. -/
def Takes (d : Draft) (s : Span) : Prop := s.start < s.stop ∧ ∃ e ∈ d.edits, e.span = s

/-- Some outermost range was first recorded with a text, and later with another. -/
def Differing (d : Draft) : Prop :=
  ∃ s, Span.Outermost d.Takes s ∧ ∃ first, d.edits.find? (·.span = s) = some first ∧ first.text ≠ [] ∧
    ∃ e ∈ d.edits, e.span = s ∧ e.text ≠ [] ∧ e.text ≠ first.text

/-! ## The order of the scan -/

/-- The first of two edits comes first in the scan, or they take away the same. -/
def Before (a b : Edit) : Prop := a.start < b.start ∨ (a.start = b.start ∧ b.stop ≤ a.stop)

theorem Before.eq_of_inside (h : Before a b) (hin : a.span.Inside b.span) : b.span = a.span := by
  obtain ⟨h1, h2⟩ := hin
  simp only [span_start, span_stop] at h1 h2
  simp only [span, Span.mk.injEq]
  rcases h with h | h <;> omega

def before (a b : Edit) : Bool :=
  a.start < b.start || (a.start == b.start && decide (b.stop ≤ a.stop))

theorem before_iff : before a b = true ↔ Before a b := by
  simp [before, Before]

theorem before_trans (a b c : Edit) (hab : before a b = true) (hbc : before b c = true) : before a c = true := by
  simp only [before_iff, Before] at hab hbc ⊢
  omega

theorem before_total (a b : Edit) : (before a b || before b a) = true := by
  simp only [Bool.or_eq_true, before_iff, Before]
  omega

theorem pairwise_ranges (d : Draft) : d.ranges.Pairwise Before :=
  (pairwise_mergeSort before_trans before_total _).imp before_iff.1

theorem mem_ranges (hd : d.Orderly) : e ∈ d.ranges ↔ e ∈ d.edits ∧ e.start < e.stop := by
  simp only [ranges, mem_mergeSort, mem_filter, isInsertion, Bool.not_eq_true', beq_eq_false_iff_ne, ne_eq]
  constructor
  · rintro ⟨he, hne⟩
    have := (hd e he).1
    exact ⟨he, by omega⟩
  · rintro ⟨he, hlt⟩
    exact ⟨he, by omega⟩

theorem takes_iff (hd : d.Orderly) : d.Takes s ↔ ∃ e ∈ d.ranges, e.span = s := by
  constructor
  · rintro ⟨hs, e, he, rfl⟩
    exact ⟨e, (mem_ranges hd).2 ⟨he, hs⟩, rfl⟩
  · rintro ⟨e, he, rfl⟩
    obtain ⟨he, hlt⟩ := (mem_ranges hd).1 he
    exact ⟨hlt, e, he, rfl⟩

/-- The sort is stable: the edits of one range stand in the scan in the order of recording. -/
theorem filter_ranges (d : Draft) (hs : s.start < s.stop) :
    d.ranges.filter (·.span = s) = d.edits.filter (·.span = s) := by
  have hsame : (d.edits.filter fun e => !e.isInsertion).filter (·.span = s) =
      d.edits.filter (·.span = s) := by
    rw [filter_filter]
    refine filter_congr fun e _ => ?_
    by_cases he : e.span = s
    · subst he
      have hne : (e.start == e.stop) = false := by
        simp only [beq_eq_false_iff_ne, ne_eq]
        simp only [span_start, span_stop] at hs
        omega
      simp [isInsertion, hne]
    · simp [he]
  rw [← hsame]
  have hpair : ((d.edits.filter fun e => !e.isInsertion).filter (·.span = s)).Pairwise
      (fun a b => before a b = true) := by
    refine pairwise_of_forall_mem_list fun a ha b hb => ?_
    simp only [mem_filter, span] at ha hb
    simp only [before_iff, Before]
    grind
  have hsub := sublist_mergeSort before_trans before_total hpair filter_sublist
  have hsub' := hsub.filter (·.span = s)
  rw [filter_filter] at hsub'
  simp only [Bool.and_self] at hsub'
  refine (hsub'.eq_of_length ?_).symm
  exact ((mergeSort_perm _ before).filter (·.span = s)).length_eq.symm

/-! ## One step of the scan -/

def SpanIn (es : List Edit) (s : Span) : Prop := ∃ e ∈ es, e.span = s

/-- What holds once the ranges `seen` are scanned and `o` is the last one kept: no range so far
reaches further than `o`, none is wider, and `o` was the first of its bounds. -/
structure Settled (seen : List Edit) (o : Edit) : Prop where
  nonempty : o.start < o.stop
  reach : ∀ r ∈ seen, r.stop ≤ o.stop
  outer : ∀ r ∈ seen, o.span.Inside r.span → r.span = o.span
  first : seen.find? (·.span = o.span) = some o

theorem Settled.mem (h : Settled seen o) : o ∈ seen := mem_of_find?_eq_some h.first

theorem Settled.single {e} (he : e.start < e.stop) : Settled [e] e := ⟨he, by simp, by simp, by simp⟩

theorem Settled.keep (h : Settled seen o) (he : e.start < e.stop) (hbehind : o.stop ≤ e.start) :
    Settled (seen ++ [e]) e := by
  have hreach : ∀ r ∈ seen, r.stop ≤ e.start := fun r hr => Nat.le_trans (h.reach r hr) hbehind
  refine ⟨he, fun r hr => ?_, fun r hr hin => ?_, ?_⟩
  · simp only [mem_append, mem_singleton] at hr
    rcases hr with hr | rfl
    · exact Nat.le_of_lt (Nat.lt_of_le_of_lt (hreach r hr) he)
    · exact Nat.le_refl _
  · simp only [mem_append, mem_singleton] at hr
    rcases hr with hr | rfl
    · have h1 := hreach r hr
      have h2 : e.stop ≤ r.stop := hin.2
      omega
    · rfl
  · have hnone : seen.find? (·.span = e.span) = none := by
      rw [find?_eq_none]
      intro r hr heq
      have h1 := hreach r hr
      have h2 : r.stop = e.stop := congrArg Span.stop (of_decide_eq_true heq)
      omega
    simp [find?_append, hnone]

theorem Settled.skip (h : Settled seen o) (ho : Before o e) (hin : e.stop ≤ o.stop) : Settled (seen ++ [e]) o := by
  refine ⟨h.nonempty, fun r hr => ?_, fun r hr hr' => ?_, ?_⟩
  · simp only [mem_append, mem_singleton] at hr
    rcases hr with hr | rfl
    · exact h.reach r hr
    · exact hin
  · simp only [mem_append, mem_singleton] at hr
    rcases hr with hr | rfl
    · exact h.outer r hr hr'
    · exact ho.eq_of_inside hr'
  · simp [find?_append, h.first]

theorem Settled.outermost {seen rest o} (h : Settled seen o) (hrest : ∀ e ∈ rest, Before o e) :
    Span.Outermost (SpanIn (seen ++ rest)) o.span := by
  refine ⟨⟨o, mem_append_left _ h.mem, rfl⟩, h.nonempty, ?_⟩
  rintro _ ⟨r, hr, rfl⟩ hin
  rcases mem_append.1 hr with hr | hr
  · exact h.outer r hr hin
  · exact (hrest r hr).eq_of_inside hin

theorem Settled.outermost_past {rest} (h : Settled seen o) (he : e.start < e.stop) (hpast : o.stop < e.stop)
    (hrest : ∀ r ∈ rest, Before e r) : Span.Outermost (SpanIn (seen ++ e :: rest)) e.span := by
  refine ⟨⟨e, by simp, rfl⟩, he, ?_⟩
  rintro _ ⟨r, hr, rfl⟩ hin
  simp only [mem_append, mem_cons] at hr
  rcases hr with hr | rfl | hr
  · have h1 := h.reach r hr
    have h2 : e.stop ≤ r.stop := hin.2
    omega
  · rfl
  · exact (hrest r hr).eq_of_inside hin

/-! ## The whole scan -/

/-- The edits do not write different texts in place of one span. -/
def Agree (a b : Edit) : Prop := a.span = b.span → a.text = [] ∨ b.text = [] ∨ a.text = b.text

/-- A scan that succeeds: what is kept lies apart, is outermost and first of its bounds, and every
range lies in one of those kept and agrees with it. -/
theorem keepOuter_ok : ∀ {es seen o kept}, Settled seen o →
    (∀ e ∈ es, Before o e) → es.Pairwise Before → (∀ e ∈ es, e.start < e.stop) →
    keepOuter (some o) es = .ok kept →
    (o :: kept).Pairwise (fun a b => a.stop ≤ b.start) ∧
    (∀ k ∈ kept, k ∈ es ∧ Span.Outermost (SpanIn (seen ++ es)) k.span ∧ (seen ++ es).find? (·.span = k.span) = some k) ∧
    ∀ e ∈ es, ∃ k ∈ o :: kept, e.span.Inside k.span ∧ Agree e k
  | [], _, _, kept, _, _, _, _, h => by
    simp only [keepOuter, ok.injEq] at h
    subst h
    simp
  | e :: es, seen, o, kept, hset, ho, hsort, hne, h => by
    have hoe := ho e (by simp)
    have he := hne e (by simp)
    have hne' := (forall_mem_cons.1 hne).2
    obtain ⟨hfirst, hsort'⟩ := pairwise_cons.1 hsort
    simp only [keepOuter] at h
    split at h
    · next hbehind =>
      obtain ⟨kept', hk, rfl⟩ := bind_pure_eq_ok.1 h
      have hset' := hset.keep he hbehind
      obtain ⟨h1, h2, h3⟩ := keepOuter_ok hset' hfirst hsort' hne' hk
      simp only [append_assoc, singleton_append] at h2
      refine ⟨?_, ?_, ?_⟩
      · rw [pairwise_cons]
        refine ⟨fun k hk' => ?_, h1⟩
        rcases mem_cons.1 hk' with rfl | hk'
        · exact hbehind
        · have := (pairwise_cons.1 h1).1 k hk'
          omega
      · intro k hk'
        rcases mem_cons.1 hk' with rfl | hk'
        · refine ⟨by simp, ?_, ?_⟩
          · rw [append_cons]
            exact hset'.outermost hfirst
          · rw [append_cons, find?_append, hset'.first]
            rfl
        · obtain ⟨hm, hr⟩ := h2 k hk'
          exact ⟨by simp [hm], hr⟩
      · intro r hr
        rcases mem_cons.1 hr with rfl | hr
        · exact ⟨r, by simp, ⟨Nat.le_refl _, Nat.le_refl _⟩, fun _ => .inr (.inr rfl)⟩
        · obtain ⟨k, hk', hin⟩ := h3 r hr
          exact ⟨k, mem_cons_of_mem _ hk', hin⟩
    · next hbehind =>
      split at h
      · next hin =>
        split at h
        · simp at h
        · next hagree =>
          have hset' := hset.skip hoe hin
          have hostart : o.start ≤ e.start := by rcases hoe with h' | h' <;> omega
          obtain ⟨h1, h2, h3⟩ := keepOuter_ok hset' (forall_mem_cons.1 ho).2 hsort' hne' h
          simp only [append_assoc, singleton_append] at h2
          refine ⟨h1, fun k hk => ?_, ?_⟩
          · obtain ⟨hm, hr⟩ := h2 k hk
            exact ⟨by simp [hm], hr⟩
          · intro r hr
            rcases mem_cons.1 hr with rfl | hr
            · refine ⟨o, by simp, ⟨hostart, hin⟩, fun hspan => ?_⟩
              simp only [span, Span.mk.injEq] at hspan
              grind
            · exact h3 r hr
      · simp at h

theorem keepOuter_error : ∀ {es seen o why}, Settled seen o →
    (∀ e ∈ es, Before o e) → es.Pairwise Before → (∀ e ∈ es, e.start < e.stop) →
    keepOuter (some o) es = .error why →
    (∃ a b, Span.Outermost (SpanIn (seen ++ es)) a ∧ Span.Outermost (SpanIn (seen ++ es)) b ∧
      a.Straddles b ∧ why = .overlapping b.start b.stop a.start a.stop) ∨
    ∃ first, Span.Outermost (SpanIn (seen ++ es)) first.span ∧
      (seen ++ es).find? (·.span = first.span) = some first ∧ (∃ e ∈ seen ++ es, ¬ Agree e first) ∧
      why = .differing first.start first.stop
  | [], _, _, _, _, _, _, _, h => by simp [keepOuter] at h
  | e :: es, seen, o, why, hset, ho, hsort, hne, h => by
    have hoe := ho e (by simp)
    have he := hne e (by simp)
    have hne' := (forall_mem_cons.1 hne).2
    obtain ⟨hfirst, hsort'⟩ := pairwise_cons.1 hsort
    simp only [keepOuter] at h
    split at h
    · next hbehind =>
      cases hk : keepOuter (some e) es with
      | ok kept => simp [hk, bind, Except.bind, pure, Except.pure] at h
      | error why' =>
        obtain rfl : why' = why := by simpa [hk, bind, Except.bind] using h
        rw [append_cons]
        exact keepOuter_error (hset.keep he hbehind) hfirst hsort' hne' hk
    · next hbehind =>
      split at h
      · next hin =>
        split at h
        · next hdiff =>
          obtain ⟨h1, h2, h3, h4, h5⟩ := hdiff
          simp only [error.injEq] at h
          refine .inr ⟨o, hset.outermost ho, ?_, ⟨e, by simp, fun hag => ?_⟩, by rw [← h, h1, h2]⟩
          · rw [find?_append, hset.first]
            rfl
          · rcases hag (by simp [span, h1, h2]) with h' | h' | h'
            · exact h3 h'
            · exact h4 h'
            · exact h5 h'
        · rw [append_cons]
          exact keepOuter_error (hset.skip hoe hin) (forall_mem_cons.1 ho).2 hsort' hne' h
      · next hin =>
        simp only [error.injEq] at h
        refine .inl ⟨o.span, e.span, hset.outermost ho, ?_, ?_, h.symm⟩
        · exact hset.outermost_past he (by omega) hfirst
        · simp only [Span.Straddles, span_start, span_stop]
          rcases hoe with h' | h' <;> omega

/-! ## What is kept, and when nothing can be -/

/-- The ranges that take effect: they lie apart, they are outermost, each is the first that was
recorded with its bounds, and every recorded range lies in one of them and agrees with it. -/
structure Resolved (d : Draft) (kept : List Edit) : Prop where
  apart : kept.Pairwise fun a b => a.stop ≤ b.start
  outermost : ∀ k ∈ kept, Span.Outermost d.Takes k.span
  first : ∀ k ∈ kept, d.edits.find? (·.span = k.span) = some k
  inside : ∀ e ∈ d.edits, e.start < e.stop → ∃ k ∈ kept, e.span.Inside k.span ∧ Agree e k

theorem Resolved.recorded {d kept} (h : Resolved d kept) {k}
    (hk : k ∈ kept) : k ∈ d.edits ∧ k.start < k.stop :=
  ⟨mem_of_find?_eq_some (h.first k hk), (h.outermost k hk).2.1⟩

theorem Resolved.eq_or_apart (h : Resolved d kept) {l : Edit} (hk : k ∈ kept) (hl : l ∈ kept) :
    k = l ∨ k.stop ≤ l.start ∨ l.stop ≤ k.start :=
  eq_or_of_pairwise h.apart hk hl

theorem Resolved.exists_of_outermost (h : Resolved d kept) (hs : Span.Outermost d.Takes s) :
    ∃ k ∈ kept, k.span = s := by
  obtain ⟨⟨hne, e, he, rfl⟩, -, hout⟩ := hs
  obtain ⟨k, hk, hin, -⟩ := h.inside e he hne
  exact ⟨k, hk, hout k.span (h.outermost k hk).1 hin⟩

/-- The list holds the ranges of a draft in the order of the scan. -/
structure Scanned (d : Draft) (rs : List Edit) : Prop where
  sorted : rs.Pairwise Before
  mem_iff : ∀ e, e ∈ rs ↔ e ∈ d.edits ∧ e.start < e.stop
  find?_eq : ∀ s : Span, s.start < s.stop → rs.find? (·.span = s) = d.edits.find? (·.span = s)
  outermost_iff : ∀ s, Span.Outermost (SpanIn rs) s ↔ Span.Outermost d.Takes s

theorem scanned_ranges (hd : d.Orderly) : Scanned d d.ranges where
  sorted := pairwise_ranges d
  mem_iff _ := mem_ranges hd
  find?_eq s hs := by rw [← head?_filter, ← head?_filter, filter_ranges d hs]
  outermost_iff _ := Span.Outermost.congr fun _ _ => (takes_iff hd).symm

theorem resolved_of_resolve (hd : d.Orderly) (h : d.resolve = .ok kept) : Resolved d kept := by
  have hscan := scanned_ranges hd
  simp only [resolve] at h
  generalize d.ranges = rs at h hscan
  cases rs with
  | nil =>
    simp only [keepOuter, ok.injEq] at h
    subst h
    refine ⟨List.Pairwise.nil, by simp, by simp, fun e he hlt => ?_⟩
    simpa using (hscan.mem_iff e).2 ⟨he, hlt⟩
  | cons e es =>
    obtain ⟨kept', hk, rfl⟩ := bind_pure_eq_ok.1 h
    have hset := Settled.single ((hscan.mem_iff e).1 (by simp)).2
    obtain ⟨hfirst, hsort⟩ := pairwise_cons.1 hscan.sorted
    obtain ⟨h1, h2, h3⟩ := keepOuter_ok hset hfirst hsort
      (fun r hr => ((hscan.mem_iff r).1 (by simp [hr])).2) hk
    have houter : ∀ k ∈ e :: kept', Span.Outermost d.Takes k.span ∧
        (e :: es).find? (·.span = k.span) = some k := by
      intro k hk'
      rcases mem_cons.1 hk' with rfl | hk'
      · exact ⟨(hscan.outermost_iff _).1 (hset.outermost hfirst), by simp⟩
      · exact ⟨(hscan.outermost_iff _).1 (h2 k hk').2.1, (h2 k hk').2.2⟩
    refine ⟨h1, fun k hk' => (houter k hk').1, fun k hk' => ?_, fun r hr hlt => ?_⟩
    · rw [← hscan.find?_eq k.span (houter k hk').1.2.1]
      exact (houter k hk').2
    · have hr' := (hscan.mem_iff r).2 ⟨hr, hlt⟩
      rcases mem_cons.1 hr' with rfl | hr'
      · exact ⟨r, by simp, ⟨Nat.le_refl _, Nat.le_refl _⟩, fun _ => .inr (.inr rfl)⟩
      · exact h3 r hr'

/-- What cannot be done: two outermost ranges straddle, or an outermost one was first recorded with a
text and later with another. -/
inductive Conflict (d : Draft) : EditError → Prop where
  | overlapping {a b : Span} (left : Span.Outermost d.Takes a) (right : Span.Outermost d.Takes b)
      (straddle : a.Straddles b) : Conflict d (.overlapping b.start b.stop a.start a.stop)
  | differing {s : Span} {first e : Edit} (outer : Span.Outermost d.Takes s)
      (earliest : d.edits.find? (·.span = s) = some first) (writes : first.text ≠ []) (recorded : e ∈ d.edits)
      (same : e.span = s) (text : e.text ≠ []) (other : e.text ≠ first.text) :
      Conflict d (.differing s.start s.stop)

theorem exists_conflict_iff : (∃ why, d.Conflict why) ↔ Span.Straddling d.Takes ∨ d.Differing := by
  constructor
  · rintro ⟨why, ⟨ha, hb, hab⟩ | ⟨hs, hf, hf1, he, hes, he1, hef⟩⟩
    · exact .inl ⟨_, _, ha, hb, hab⟩
    · exact .inr ⟨_, hs, _, hf, hf1, _, he, hes, he1, hef⟩
  · rintro (⟨a, b, ha, hb, hab⟩ | ⟨s, hs, first, hf, hf1, e, he, hes, he1, hef⟩)
    · exact ⟨_, .overlapping ha hb hab⟩
    · exact ⟨_, .differing hs hf hf1 he hes he1 hef⟩

theorem conflict_of_resolve (hd : d.Orderly) {why} (h : d.resolve = .error why) : d.Conflict why := by
  have hscan := scanned_ranges hd
  simp only [resolve] at h
  generalize d.ranges = rs at h hscan
  cases rs with
  | nil => simp [keepOuter] at h
  | cons e es =>
    cases hk : keepOuter (some e) es with
    | ok kept => simp [keepOuter, hk, bind, Except.bind, pure, Except.pure] at h
    | error why' =>
      obtain rfl : why' = why := by simpa [keepOuter, hk, bind, Except.bind] using h
      have hset := Settled.single ((hscan.mem_iff e).1 (by simp)).2
      obtain ⟨hfirst, hsort⟩ := pairwise_cons.1 hscan.sorted
      rcases keepOuter_error hset hfirst hsort (fun r hr => ((hscan.mem_iff r).1 (by simp [hr])).2) hk with
        ⟨a, b, ha, hb, hab, rfl⟩ | ⟨first, ho, hf, ⟨r, hr, hag⟩, rfl⟩
      · exact .overlapping ((hscan.outermost_iff a).1 ha) ((hscan.outermost_iff b).1 hb) hab
      · simp only [singleton_append] at ho hf hr
        simp only [Agree, Classical.not_imp, not_or] at hag
        obtain ⟨hspan, hr1, hf1, hrf⟩ := hag
        have ho' := (hscan.outermost_iff _).1 ho
        rw [hscan.find?_eq _ ho'.2.1] at hf
        exact .differing ho' hf hf1 ((hscan.mem_iff r).1 hr).1 hspan hr1 hrf

theorem Resolved.eq_first (h : Resolved d kept) {first} (hk : k ∈ kept) (hks : k.span = s)
    (hf : d.edits.find? (·.span = s) = some first) : k = first := by
  have := h.first k hk
  rw [hks, hf] at this
  exact (Option.some.inj this).symm

/-- Resolving fails exactly when two outermost ranges straddle, or when an outermost range was first
recorded with a text and later with another. -/
theorem resolve_isError_iff (hd : d.Orderly) :
    (∃ why, d.resolve = .error why) ↔ Span.Straddling d.Takes ∨ d.Differing := by
  refine ⟨fun ⟨why, h⟩ => exists_conflict_iff.1 ⟨why, conflict_of_resolve hd h⟩, fun h => ?_⟩
  cases hr : d.resolve with
  | error why => exact ⟨why, rfl⟩
  | ok kept =>
    exfalso
    have hres := resolved_of_resolve hd hr
    rcases h with ⟨a, b, ha, hb, h1, h2, h3⟩ | ⟨s, hs, first, hf, hf1, e, he, rfl, he1, hef⟩
    · obtain ⟨k, hk, rfl⟩ := hres.exists_of_outermost ha
      obtain ⟨l, hl, rfl⟩ := hres.exists_of_outermost hb
      simp only [span_start, span_stop] at h1 h2 h3
      rcases hres.eq_or_apart hk hl with rfl | h' | h' <;> omega
    · obtain ⟨l, hl, hin, hag⟩ := hres.inside e he hs.2.1
      have hle := hs.2.2 l.span (hres.outermost l hl).1 hin
      obtain rfl := hres.eq_first hl hle hf
      rcases hag hle.symm with h' | h' | h'
      · exact he1 h'
      · exact hf1 h'
      · exact hef h'

end Draft

end Edit

end Rebind
