/-
Where matches stand.

A recogniser that accepts a text leaves an end of it (`<:+`), and what it took away stands in front of that. A fact
about one recogniser is a fact about all its matches.
-/
import Rebind.Proofs.Text.Offset

namespace Rebind.Text

open List Option

variable {t rest : Text}

variable {α : Type}

/-! ## What recognisers leave -/

theorem after?_eq_some : ∀ {p t rest}, after? p t = some rest ↔ t = p ++ rest
  | [], t, rest | a :: p, [], rest => by simp [after?]
  | a :: p, b :: t, rest => by
    by_cases hab : a = b
    · subst hab
      simp [after?, after?_eq_some]
    · simp [after?, hab, Ne.symm hab]

theorem dropBlanks_suffix (t : Text) : dropBlanks t <:+ t := dropWhile_suffix _

theorem run?_spec {p v} (h : run? p t = some (v, rest)) :
    t = v ++ rest ∧ v ≠ [] ∧ ∀ c ∈ v, p c = true := by
  cases t with
  | nil => simp [run?] at h
  | cons c t =>
    simp only [run?] at h
    split at h
    · next hc =>
      obtain ⟨rfl, rfl⟩ := h
      refine ⟨by simp, by simp, fun d hd => ?_⟩
      rcases mem_cons.1 hd with rfl | hd
      · exact hc
      · exact all_eq_true.1 all_takeWhile d hd
    · simp at h

/-- On the way from a text to an end of it the character is passed. -/
def Passes (c : Char) (t rest : Text) : Prop := ∃ front, t = front ++ rest ∧ c ∈ front

/-- On the way from a text to an end of it only characters of a class are passed. -/
def Past (p : Char → Bool) (t rest : Text) : Prop := ∃ front, t = front ++ rest ∧ front.all p = true

namespace Past

variable {p : Char → Bool} {t u v w rest : Text}

theorem refl (p : Char → Bool) (t : Text) : Past p t t := ⟨[], rfl, rfl⟩

theorem trans (h : Past p t u) (h' : Past p u rest) : Past p t rest := by
  obtain ⟨front, rfl, hfront⟩ := h
  obtain ⟨front', rfl, hfront'⟩ := h'
  exact ⟨front ++ front', by simp, by rw [all_append, hfront, hfront']; rfl⟩

theorem suffix (h : Past p t rest) : rest <:+ t := ⟨h.choose, h.choose_spec.1.symm⟩

theorem of_after? (hw : w.all p = true) (h : after? w t = some rest) : Past p t rest := ⟨w, after?_eq_some.1 h, hw⟩

variable {q : Char → Bool}

theorem of_dropWhile (hq : ∀ c, q c = true → p c = true) (t : Text) : Past p t (t.dropWhile q) :=
  ⟨t.takeWhile q, takeWhile_append_dropWhile.symm, all_eq_true.2 fun c hc => hq c (all_eq_true.1 all_takeWhile c hc)⟩

theorem of_run? (hq : ∀ c, q c = true → p c = true) (h : run? q t = some (v, rest)) : Past p t rest := by
  obtain ⟨heq, -, hv⟩ := run?_spec h
  exact ⟨v, heq, all_eq_true.2 fun c hc => hq c (hv c hc)⟩

section Blanks

variable (hblank : ∀ c, isBlank c = true → p c = true)

include hblank

theorem of_someBlanks? (h : someBlanks? t = some rest) : Past p t rest := by
  cases t with
  | nil => simp [someBlanks?] at h
  | cons c t =>
    simp only [someBlanks?] at h
    split at h
    · next hc =>
      obtain rfl : dropBlanks t = rest := some.inj h
      exact .trans ⟨[c], rfl, by simpa using hblank c hc⟩ (.of_dropWhile hblank t)
    · simp at h

theorem of_spaced? (hw : w.all p = true) (h : spaced? w t = some rest) : Past p t rest :=
  .trans (.of_dropWhile hblank t) (.of_after? hw h)

theorem of_dot? (hdot : p '.' = true) (h : dot? t = some rest) : Past p t rest := by
  obtain ⟨u, hu, rfl⟩ := map_eq_some_iff.1 h
  have hmark : (".".toList).all p = true := by simpa using hdot
  exact .trans (.of_spaced? hblank hmark hu) (.of_dropWhile hblank u)

end Blanks

end Past

/-! ## Matches -/

variable {before : Before} {prev : Option Char} {pos s e : Nat} {front : Text}

theorem matchHere_eq_some {r} {m : Match α} (h : matchHere before r prev pos t = some m) :
    ∃ rest, r t = some (m.value, rest) ∧ m.start = pos ∧ m.stop = pos + (t.length - rest.length) := by
  simp only [matchHere] at h
  split at h
  · obtain ⟨⟨value, rest⟩, hr, rfl⟩ := map_eq_some_iff.1 h
    exact ⟨rest, hr, rfl, rfl⟩
  · simp at h

theorem before_of_matchHere {r} {m : Match α} (h : matchHere before r prev pos t = some m) :
    before prev = true := by
  simp only [matchHere] at h
  split at h
  · next hbefore => exact hbefore
  · simp at h

/-- The match is one at some offset of a text that stands at offset `pos`. -/
def IsMatch (r : Recogniser α) (pos : Nat) (t : Text) (m : Match α) : Prop :=
  ∃ n rest, n ≤ t.length ∧ r (t.drop n) = some (m.value, rest) ∧ m.start = pos + n ∧
    m.stop = m.start + ((t.drop n).length - rest.length)

theorem IsMatch.of_matchHere {r} {m : Match α} (h : matchHere before r prev pos t = some m) :
    IsMatch r pos t m := by
  obtain ⟨rest, hr, hstart, hstop⟩ := matchHere_eq_some h
  exact ⟨0, rest, Nat.zero_le _, hr, hstart, by rw [hstart]; exact hstop⟩

theorem IsMatch.cons {r pos c t} {m : Match α}
    (h : IsMatch r (pos + 1) t m) : IsMatch r pos (c :: t) m := by
  obtain ⟨n, rest, hn, hr, hstart, hstop⟩ := h
  exact ⟨n + 1, rest, by simpa using hn, hr, by omega, hstop⟩

theorem isMatch_of_mem_matchesFrom {before} {r : Recogniser α} {m} : ∀ {t skip prev pos},
    m ∈ matchesFrom before r skip prev pos t → IsMatch r pos t m
  | [], skip, prev, pos, h => by
    simp only [matchesFrom] at h
    split at h
    · exact .of_matchHere (mem_toList.1 h)
    · simp at h
  | c :: t, skip + 1, prev, pos, h => by
    simp only [matchesFrom] at h
    exact (isMatch_of_mem_matchesFrom h).cons
  | c :: t, 0, prev, pos, h => by
    simp only [matchesFrom] at h
    split at h
    · next m' hm' =>
      rcases mem_cons.1 h with rfl | h
      · exact .of_matchHere hm'
      · exact (isMatch_of_mem_matchesFrom h).cons
    · exact (isMatch_of_mem_matchesFrom h).cons

theorem isMatch_of_searchFrom {before} {r : Recogniser α} {m} : ∀ {t prev pos},
    searchFrom before r prev pos t = some m → IsMatch r pos t m
  | [], prev, pos, h => .of_matchHere h
  | c :: t, prev, pos, h => by
    simp only [searchFrom] at h
    split at h
    · next m' hm' =>
      simp only [some.injEq] at h
      subst h
      exact .of_matchHere hm'
    · exact (isMatch_of_searchFrom h).cons

/-- What stands before a match, if it is at offset `n` of a text behind `prev`. -/
theorem before_of_mem_matchesFrom {before} {r : Recogniser α} {m} : ∀ {t skip prev pos},
    m ∈ matchesFrom before r skip prev pos t →
    ∃ n b, m.start = pos + n ∧ (prev :: t.map some)[n]? = some b ∧ before b = true
  | [], skip, prev, pos, h => by
    simp only [matchesFrom] at h
    split at h
    · have hm := mem_toList.1 h
      exact ⟨0, prev, (matchHere_eq_some hm).choose_spec.2.1, rfl, before_of_matchHere hm⟩
    · simp at h
  | c :: t, skip + 1, prev, pos, h => by
    simp only [matchesFrom] at h
    obtain ⟨n, b, hn, hb, hbefore⟩ := before_of_mem_matchesFrom h
    exact ⟨n + 1, b, by omega, hb, hbefore⟩
  | c :: t, 0, prev, pos, h => by
    simp only [matchesFrom] at h
    have later : ∀ {skip}, m ∈ matchesFrom before r skip (some c) (pos + 1) t →
        ∃ n b, m.start = pos + n ∧ (prev :: (c :: t).map some)[n]? = some b ∧ before b = true := by
      intro skip hm
      obtain ⟨n, b, hn, hb, hbefore⟩ := before_of_mem_matchesFrom hm
      exact ⟨n + 1, b, by omega, hb, hbefore⟩
    split at h
    · next m' hm' =>
      rcases mem_cons.1 h with rfl | h
      · exact ⟨0, prev, (matchHere_eq_some hm').choose_spec.2.1, rfl, before_of_matchHere hm'⟩
      · exact later h
    · exact later h

/-- A match in a range: it lies there, and the recogniser accepts what stands there. -/
structure MatchWithin (r : Recogniser α) (t : Text) (s e : Nat) (m : Match α) : Prop where
  le_start : s ≤ m.start
  start_le : m.start ≤ m.stop
  stop_le : m.stop ≤ e
  accepts : ∃ rest, r (slice t m.start e) = some (m.value, rest) ∧
    m.stop = m.start + ((slice t m.start e).length - rest.length)

theorem IsMatch.within {r} {m : Match α} (h : IsMatch r s (slice t s e) m) (hs : s ≤ e)
    (he : e ≤ t.length) : MatchWithin r t s e m := by
  obtain ⟨n, rest, hn, hr, hstart, hstop⟩ := h
  have hdrop : (slice t s e).drop n = slice t m.start e := by
    simp only [slice, drop_drop, hstart]
  rw [hdrop] at hr hstop
  have hlen := length_slice t m.start e
  rw [length_slice] at hn
  exact ⟨by omega, by omega, by omega, rest, hr, hstop⟩

/-- Every match lies in the searched range, and the recogniser accepts what stands there. -/
theorem allMatches_spec {r} {m : Match α} (h : m ∈ allMatches t s e before r) (hs : s ≤ e)
    (he : e ≤ t.length) : MatchWithin r t s e m :=
  (isMatch_of_mem_matchesFrom h).within hs he

theorem before_of_mem_allMatches {r} {m : Match α} (h : m ∈ allMatches t 0 e before r)
    (he : m.start ≤ e) : before (charBefore t m.start) = true := by
  obtain ⟨n, b, hn, hb, hbefore⟩ := before_of_mem_matchesFrom h
  rw [Nat.zero_add] at hn
  rw [hn]
  cases n with
  | zero =>
    obtain rfl : charBefore t 0 = b := by simpa using hb
    exact hbefore
  | succ n =>
    simp only [getElem?_cons_succ, getElem?_map, getElem?_slice, Nat.zero_add, if_pos (show n < e by omega)]
      at hb
    obtain ⟨c, hc, rfl⟩ := map_eq_some_iff.1 hb
    rw [charBefore, hc]
    exact hbefore

theorem search_spec {r} {m : Match α} (h : search t s e before r = some m) (hs : s ≤ e)
    (he : e ≤ t.length) : MatchWithin r t s e m :=
  (isMatch_of_searchFrom h).within hs he

theorem getElem?_front {k} (h : slice t s e = front ++ rest) (hk : k < front.length) : t[s + k]? = front[k]? := by
  have hget := congrArg (·[k]?) h
  simp only [getElem?_slice, getElem?_append_left hk] at hget
  split at hget
  · exact hget
  · rw [getElem?_eq_getElem hk] at hget
    simp at hget

theorem slice_front (h : slice t s e = front ++ rest) : slice t s (s + front.length) = front := by
  rw [slice, drop_take] at h ⊢
  have hle : front.length ≤ e - s := by
    have := congrArg List.length h
    rw [length_append, length_take] at this
    omega
  have htake := congrArg (List.take front.length) h
  rw [take_take, Nat.min_eq_left hle, take_left] at htake
  rw [Nat.add_sub_cancel_left]
  exact htake

theorem MatchWithin.exists_of_passes {r} {m : Match α} {c} (h : MatchWithin r t s e m)
    (hr : ∀ {u v rest}, r u = some (v, rest) → Passes c u rest) : ∃ i, m.start ≤ i ∧ i < m.stop ∧ t[i]? = some c := by
  obtain ⟨rest, haccept, hstop⟩ := h.accepts
  obtain ⟨front, hslice, hc⟩ := hr haccept
  obtain ⟨k, hk, hget⟩ := mem_iff_getElem.1 hc
  have hlen := congrArg List.length hslice
  rw [length_append] at hlen
  refine ⟨m.start + k, by omega, by omega, ?_⟩
  rw [getElem?_front hslice hk, getElem?_eq_getElem hk, hget]

end Rebind.Text
