/-
Brackets and the pairs they form.

Reading finds just these, although it counts brackets of one kind only, and the pairs lie apart or within one another
(`partner_nesting`).
-/
import Rebind.Proofs.Java.Pieces

namespace Rebind.Java

open Text List Option

variable {n : Nesting} {pos i j : Nat}

/-- A text taken apart at its brackets: pairs around further nestings, with other characters between them. -/
inductive Nesting where
  | nil
  | other (c : Char) (hc : isBracket c = false) (rest : Nesting)
  | pair (opener closer : Char) (hkind : closerOf? opener = some closer) (inside rest : Nesting)

namespace Nesting

def text : Nesting → Text
  | nil => []
  | other c _ rest => c :: rest.text
  | pair opener closer _ inside rest => opener :: (inside.text ++ closer :: rest.text)

/-- The offsets of the brackets that belong together, each opening one first, where the text stands at `pos`. -/
def pairsFrom : (pos : Nat) → Nesting → List (Nat × Nat)
  | _, nil => []
  | pos, other _ _ rest => rest.pairsFrom (pos + 1)
  | pos, pair _ _ _ inside rest =>
    let close := pos + 1 + inside.text.length
    (pos, close) :: (inside.pairsFrom (pos + 1) ++ rest.pairsFrom (close + 1))

/-- Which brackets belong together. -/
def pairs (n : Nesting) : List (Nat × Nat) := n.pairsFrom 0

theorem wellBracketed_text (n : Nesting) : WellBracketed n.text := by
  have hnext : ∀ {owed : List Char} {t : Text}, owedAfter [] t = some [] → owedAfter owed t = some owed :=
    fun h => owedAfter_above _ h
  induction n with
  | nil => rfl
  | other c hc rest ih =>
    rw [WellBracketed, text, owedAfter_cons, owedStep_of_not_isBracket hc, bind_some]
    exact ih
  | pair opener closer hkind inside rest ihin ihrest =>
    have hopen : owedStep [] opener = some [closer] := by simp [owedStep, hkind]
    have hclosing := mem_closers hkind
    have hclose : owedStep [closer] closer = some [] := by
      simp [owedStep, closerOf?_of_mem_closers hclosing, hclosing]
    rw [WellBracketed, text, owedAfter_cons, hopen, bind_some, owedAfter_append, hnext ihin, bind_some,
      owedAfter_cons, hclose, bind_some]
    exact ihrest

/-- Two brackets that belong together are of one kind, and what stands between them nests by itself. -/
theorem exists_of_mem_pairsFrom (h : (i, j) ∈ n.pairsFrom pos) :
    ∃ opener closer, closerOf? opener = some closer ∧ ∃ (inside : Nesting) (front back : Text),
      n.text = front ++ (opener :: (inside.text ++ [closer])) ++ back ∧ i = pos + front.length ∧
        j = i + 1 + inside.text.length := by
  induction n generalizing pos with
  | nil => simp [pairsFrom] at h
  | other c hc rest ih =>
    obtain ⟨opener, closer, hkind, inside, front, back, htext, hi, hj⟩ := ih h
    exact ⟨opener, closer, hkind, inside, c :: front, back, by simp [text, htext], by simp [hi]; omega, hj⟩
  | pair opener closer hkind inside rest ihin ihrest =>
    simp only [pairsFrom, mem_cons, Prod.mk.injEq, mem_append] at h
    rcases h with ⟨rfl, rfl⟩ | h | h
    · exact ⟨opener, closer, hkind, inside, [], rest.text, by simp [text], rfl, rfl⟩
    · obtain ⟨opener', closer', hkind', inside', front, back, htext, hi, hj⟩ := ihin h
      exact ⟨opener', closer', hkind', inside', opener :: front, back ++ closer :: rest.text, by simp [text, htext],
        by simp [hi]; omega, hj⟩
    · obtain ⟨opener', closer', hkind', inside', front, back, htext, hi, hj⟩ := ihrest h
      exact ⟨opener', closer', hkind', inside', opener :: (inside.text ++ closer :: front), back,
        by simp [text, htext], by simp [hi]; omega, hj⟩

theorem exists_mem_pairsFrom {k c closer} (hc : n.text[k]? = some c)
    (hkind : closerOf? c = some closer) : ∃ j, (pos + k, j) ∈ n.pairsFrom pos := by
  induction n generalizing pos k with
  | nil => simp [text] at hc
  | other d hd rest ih =>
    cases k with
    | zero =>
      obtain rfl : d = c := by simpa [text] using hc
      rcases closerOf?_cases hkind with ⟨rfl, -⟩ | ⟨rfl, -⟩ | ⟨rfl, -⟩ <;> simp [isBracket, openers] at hd
    | succ k =>
      obtain ⟨j, hj⟩ := @ih (pos + 1) k (by simpa [text] using hc)
      exact ⟨j, by rwa [show pos + (k + 1) = pos + 1 + k by omega]⟩
  | pair opener closer' hkind' inside rest ihin ihrest =>
    cases k with
    | zero => exact ⟨_, mem_cons_self⟩
    | succ k =>
      rw [text, getElem?_cons_succ] at hc
      rcases Nat.lt_trichotomy k inside.text.length with hlt | rfl | hgt
      · rw [getElem?_append_left hlt] at hc
        obtain ⟨j, hj⟩ := @ihin (pos + 1) k hc
        exact ⟨j, mem_cons_of_mem _ (mem_append_left _ (by rwa [show pos + (k + 1) = pos + 1 + k by omega]))⟩
      · obtain rfl : closer' = c := by simpa using hc
        rw [closerOf?_of_mem_closers (mem_closers hkind')] at hkind
        cases hkind
      · obtain ⟨m, rfl⟩ := Nat.exists_eq_add_of_lt hgt
        rw [getElem?_append_right (by omega), show inside.text.length + m + 1 - inside.text.length = m + 1 by omega,
          getElem?_cons_succ] at hc
        obtain ⟨j, hj⟩ := @ihrest (pos + 1 + inside.text.length + 1) m hc
        refine ⟨j, mem_cons_of_mem _ (mem_append_right _ ?_)⟩
        rwa [show pos + (inside.text.length + m + 1 + 1) = pos + 1 + inside.text.length + 1 + m by omega]

theorem partner_of_mem_pairs (h : (i, j) ∈ n.pairs) :
    partner n.text i = .ok j ∧ ∃ inside : Nesting, slice n.text (i + 1) j = inside.text := by
  obtain ⟨opener, closer, hkind, inside, front, back, htext, hi, rfl⟩ := exists_of_mem_pairsFrom h
  obtain rfl : i = front.length := by omega
  have hat : Stands n.text front.length (opener :: (inside.text ++ [closer])) :=
    ⟨back, by rw [htext, append_assoc, drop_left]⟩
  refine ⟨?_, inside, (stands_append.1 (stands_cons.1 hat).2).1.slice⟩
  rw [partner_of_stands ⟨inside.text, inside.wellBracketed_text, rfl⟩ hkind hat]
  simp only [length_cons, length_append, length_nil, Except.ok.injEq]
  omega

end Nesting

/-- In a text that nests its brackets, the partner found for an opening one is that of the nesting, what stands between
the two nests again, and two pairs lie apart or one within the other. -/
theorem partner_nesting (n : Nesting) :
    (∀ i c, n.text[i]? = some c → c ∈ openers → ∃ j, (i, j) ∈ n.pairs ∧ partner n.text i = .ok j) ∧
      (∀ i j, (i, j) ∈ n.pairs → partner n.text i = .ok j ∧
        ∃ inside : Nesting, slice n.text (i + 1) j = inside.text) ∧
      ∀ i j i' j', (i, j) ∈ n.pairs → (i', j') ∈ n.pairs → i < i' → j < i' ∨ j' < j := by
  refine ⟨fun i c hc hopener => ?_, fun i j h => Nesting.partner_of_mem_pairs h, fun i j i' j' h h' hlt => ?_⟩
  · obtain ⟨closer, hkind⟩ : ∃ closer, closerOf? c = some closer := by
      simp only [openers, mem_cons, not_mem_nil, or_false] at hopener
      rcases hopener with rfl | rfl | rfl <;> exact ⟨_, rfl⟩
    obtain ⟨j, hj⟩ := @Nesting.exists_mem_pairsFrom n 0 i c closer hc hkind
    rw [Nat.zero_add] at hj
    exact ⟨j, hj, (Nesting.partner_of_mem_pairs hj).1⟩
  · have hpartner := (Nesting.partner_of_mem_pairs h).1
    have hpartner' := (Nesting.partner_of_mem_pairs h').1
    rcases Nat.lt_trichotomy i' j with hin | rfl | hout
    · exact .inr (partner_lt n.wellBracketed_text hpartner hlt hin hpartner')
    · -- an opening bracket is no closing one
      obtain ⟨_, closer, -, hkind, -, hcloser, -⟩ := partner_spec hpartner
      obtain ⟨opener, closer', hopener, hkind', -⟩ := partner_spec hpartner'
      obtain rfl : closer = opener := some.inj (hcloser.symm.trans hopener)
      rw [closerOf?_of_mem_closers (mem_closers hkind)] at hkind'
      cases hkind'
    · exact .inl hout

end Rebind.Java
