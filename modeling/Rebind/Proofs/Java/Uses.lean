/-
What the uses of a name look like.
-/
import Rebind.Java.Reference
import Rebind.Proofs.Java.Members

namespace Rebind.Java

open Text List Option

structure UseOf (masked : Text) (s e : Nat) (name : Text) (u : Span) : Prop where
  start_lt : u.start < u.stop
  lt_stop : s < u.stop
  stop_le : u.stop ≤ e
  chars : ∀ i c, u.start ≤ i → i < u.stop → masked[i]? = some c →
    isBlank c = true ∨ c ∈ ".this".toList ∨ c ∈ name
  first : ∃ c, masked[u.start]? = some c ∧ (c = 't' ∨ c ∈ name)
  last : ∃ c ∈ name, masked[u.stop - 1]? = some c

/-- The `this` and the dot that the code before a name ends in are the nearest characters of it. -/
theorem thisLength?_spec {back n} (h : thisLength? back = some n) :
    ∃ front rest, back = front ++ 't' :: rest ∧ front.length + 1 = n ∧
      ∀ c ∈ front, isBlank c = true ∨ c ∈ ".this".toList := by
  obtain ⟨u, hu, h⟩ := bind_eq_some_iff.1 h
  obtain ⟨rest, hrest, h⟩ := bind_eq_some_iff.1 h
  rw [after?_eq_some] at hu hrest
  split at h
  · simp only [some.injEq] at h
    have hsplit : back.take thisWindow = ("." ++ u.takeWhile isBlank ++ "sih") ++ 't' :: rest := by
      rw [hu]
      conv => lhs; rw [← @List.takeWhile_append_dropWhile _ isBlank u, ← dropBlanks, hrest]
      simp
    refine ⟨"." ++ u.takeWhile isBlank ++ "sih", rest ++ back.drop thisWindow, ?_, ?_, ?_⟩
    · rw [← cons_append, ← append_assoc, ← hsplit, take_append_drop]
    · rw [← h, hsplit, @List.length_append _ _ ('t' :: rest), length_cons]
      omega
    · intro c hc
      simp only [mem_append] at hc
      rcases hc with (hc | hc) | hc
      · refine .inr ?_
        simp at hc ⊢
        exact .inl hc
      · exact .inl (all_eq_true.1 all_takeWhile c hc)
      · refine .inr ?_
        simp at hc ⊢
        rcases hc with rfl | rfl | rfl <;> simp
  · simp at h

theorem codeBefore_length_le (masked : Text) (pos : Nat) : (codeBefore masked pos).length ≤ pos := by
  have hlen := (dropBlanks_suffix (masked.take pos).reverse).length_le
  rw [length_reverse, length_take] at hlen
  exact Nat.le_trans hlen (Nat.min_le_left _ _)

variable {masked name : Text} {s e : Nat} {u : Span} {c : Char}

theorem mem_occurrences {o} (hs : s ≤ e) (he : e ≤ masked.length) (h : o ∈ occurrences masked s e name) :
    s ≤ o.start ∧ o.stop = o.start + name.length ∧ o.stop ≤ e ∧
      ∀ k, k < name.length → masked[o.start + k]? = name[k]? := by
  simp only [occurrences, List.mem_map] at h
  obtain ⟨m, hm, rfl⟩ := h
  have hwithin := allMatches_spec hm hs he
  obtain ⟨rest, haccept, hstop⟩ := hwithin.accepts
  simp only [exactName?] at haccept
  split at haccept
  · next rest' hafter =>
    split at haccept
    · simp only [some.injEq, Prod.mk.injEq] at haccept
      obtain ⟨-, rfl⟩ := haccept
      rw [after?_eq_some] at hafter
      have hlen := congrArg List.length hafter
      rw [length_append] at hlen
      exact ⟨hwithin.le_start, by simp only; omega, hwithin.stop_le, fun k hk => getElem?_front hafter hk⟩
    · simp at haccept
  · simp at haccept

/-- A use holds nothing but the name, a `this.` in front of it, and blanks. -/
theorem references_spec (hs : s ≤ e) (he : e ≤ masked.length) (hname : name ≠ []) (h : u ∈ references masked s e name) :
    UseOf masked s e name u := by
  simp only [references, mem_filterMap] at h
  obtain ⟨o, ho, h⟩ := h
  obtain ⟨h1, h2, h3, h4⟩ := mem_occurrences hs he ho
  have hpos := length_pos_iff.2 hname
  have hnames : ∀ i c, o.start ≤ i → i < o.stop → masked[i]? = some c → c ∈ name := by
    intro i c hi hi' hc
    obtain ⟨k, rfl⟩ := Nat.exists_eq_add_of_le hi
    rw [h4 k (by omega)] at hc
    exact mem_of_getElem? hc
  have hfirst : ∃ c ∈ name, masked[o.start]? = some c := by
    refine ⟨_, getElem_mem hpos, ?_⟩
    rw [← getElem?_eq_getElem hpos]
    exact h4 0 hpos
  have hlast : ∃ c ∈ name, masked[o.stop - 1]? = some c := by
    have hlt : name.length - 1 < name.length := by omega
    refine ⟨_, getElem_mem hlt, ?_⟩
    rw [← getElem?_eq_getElem hlt, ← h4 _ hlt]
    congr 1
    omega
  have bare : UseOf masked s e name o := by
    obtain ⟨c, hc, hget⟩ := hfirst
    exact ⟨by omega, by omega, h3, fun i c hi hi' hc => .inr (.inr (hnames i c hi hi' hc)), ⟨c, hget, .inr hc⟩, hlast⟩
  simp only [referenceAt?] at h
  split at h
  · simp at h
  · split at h
    · simp only [some.injEq] at h
      exact h ▸ bare
    · simp at h
    · next back hback =>
      obtain ⟨n, hn, rfl⟩ := map_eq_some_iff.1 h
      obtain ⟨front, rest, hsplit, hlen, hfront⟩ := thisLength?_spec hn
      -- what stands between the start of `this` and the name
      have hbetween : slice masked ((codeBefore masked o.start).length - n) o.start =
          't' :: front.reverse ++ ((masked.take o.start).reverse.takeWhile isBlank).reverse := by
        have htake : masked.take o.start = (codeBefore masked o.start).reverse ++
            ((masked.take o.start).reverse.takeWhile isBlank).reverse := by
          rw [codeBefore, dropBlanks, ← reverse_append, takeWhile_append_dropWhile, reverse_reverse]
        rw [slice]
        conv => lhs; arg 2; rw [htake, hsplit, reverse_append, reverse_cons, append_assoc, append_assoc]
        rw [hsplit, length_append, length_cons, ← hlen]
        exact drop_left' (by simp; omega)
      have hstart := codeBefore_length_le masked o.start
      have hpast := congrArg (·[0]?) hbetween
      simp only [getElem?_slice, Nat.add_zero, cons_append, getElem?_cons_zero] at hpast
      have hthis : masked[(codeBefore masked o.start).length - n]? = some 't' := by
        split at hpast
        · exact hpast
        · simp at hpast
      refine ⟨by simp only; omega, by simp only; omega, h3, fun i c hi hi' hc => ?_, ⟨'t', hthis, .inl rfl⟩, hlast⟩
      rcases Nat.lt_or_ge i o.start with hlt | hge
      · have hmem : c ∈ slice masked ((codeBefore masked o.start).length - n) o.start := mem_slice.2 ⟨i, hi, hlt, hc⟩
        rw [hbetween, mem_append, mem_cons, mem_reverse, mem_reverse] at hmem
        rcases hmem with (rfl | hmem) | hmem
        · exact .inr (.inl (by decide))
        · exact (hfront c hmem).imp_right .inl
        · exact .inl (all_eq_true.1 all_takeWhile c hmem)
      · exact .inr (.inr (hnames i c hge hi' hc))
    · split at h
      · simp at h
      · simp only [some.injEq] at h
        exact h ▸ bare

/-- The signs that tell an annotation, a declaration or a statement from an expression. -/
def marks : List Char := '@' :: ';' :: closers

theorem of_mem_marks (h : c ∈ marks) : isBlank c = false ∧ c ∉ ".this".toList ∧ isWord c = false := by
  simp only [marks, closers, mem_cons, not_mem_nil, or_false] at h
  rcases h with rfl | rfl | rfl | rfl | rfl <;> decide

/-- The signs that annotations, declarations and statements are known by stand in no use. -/
theorem UseOf.not_mark (h : UseOf masked s e name u) (hname : ∀ c ∈ name, isWord c = true) {i} (hi : u.start ≤ i)
    (hi' : i < u.stop) (hc : masked[i]? = some c) : c ∉ marks := by
  intro hmem
  obtain ⟨h1, h2, h3⟩ := of_mem_marks hmem
  rcases h.chars i c hi hi' hc with h' | h' | h'
  · simp [h'] at h1
  · exact h2 h'
  · simp [hname c h'] at h3

end Rebind.Java
