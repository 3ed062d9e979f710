/-
Texts spelled as tokens.

Tokens stand one after the other, with any blanks before each (`Spaced`) or before all but the first (`Spelled`). A
recogniser that asks for one token after the other takes such a text away (`Reads`, `Opens`).
-/
import Rebind.Proofs.Text.Matching

namespace Rebind.Text

open List

/-- The tokens stand one after the other, with any blanks before each. -/
def Spaced : (tokens : List Text) → (t : Text) → Prop
  | [], t => t = []
  | w :: ws, t => ∃ g rest, isAllBlank g = true ∧ t = g ++ (w ++ rest) ∧ Spaced ws rest

/-- The text starts with the first token, and the others are spaced behind it. -/
def Spelled : (tokens : List Text) → (t : Text) → Prop
  | [], _ => False
  | w :: ws, t => ∃ rest, t = w ++ rest ∧ Spaced ws rest

section Spelling

variable {ws vs : List Text} {w t u : Text} {c : Char}

namespace Spaced

theorem append : ∀ {ws t}, Spaced ws t → Spaced vs u → Spaced (ws ++ vs) (t ++ u)
  | [], _, ht, hu => by
    rw [ht]
    exact hu
  | w :: ws, _, ht, hu => by
    obtain ⟨g, rest, hg, rfl, hrest⟩ := ht
    exact ⟨g, rest ++ u, hg, by simp, hrest.append hu⟩

theorem split : ∀ {ws t}, Spaced (ws ++ vs) t → ∃ u v, t = u ++ v ∧ Spaced ws u ∧ Spaced vs v
  | [], t, h => ⟨[], t, rfl, rfl, h⟩
  | w :: ws, _, h => by
    obtain ⟨g, rest, hg, rfl, hrest⟩ := h
    obtain ⟨u, v, rfl, hu, hv⟩ := split hrest
    exact ⟨g ++ (w ++ u), v, by simp, ⟨g, u, hg, rfl, hu⟩, hv⟩

theorem spelled (h : Spaced ws t) (hne : ws ≠ []) : ∃ g u, isAllBlank g = true ∧ t = g ++ u ∧ Spelled ws u := by
  cases ws with
  | nil => exact absurd rfl hne
  | cons w ws =>
    obtain ⟨g, rest, hg, rfl, hrest⟩ := h
    exact ⟨g, w ++ rest, hg, rfl, rest, rfl, hrest⟩

theorem mem : ∀ {ws t}, Spaced ws t → c ∈ t → isBlank c = true ∨ c ∈ ws.flatten
  | [], _, h, hc => by
    rw [h] at hc
    cases hc
  | w :: ws, _, h, hc => by
    obtain ⟨g, rest, hg, rfl, hrest⟩ := h
    simp only [mem_append] at hc
    rcases hc with hc | hc | hc
    · exact .inl (all_eq_true.1 hg c hc)
    · exact .inr (by simp [hc])
    · exact (hrest.mem hc).imp_right fun hc => by simp [hc]

theorem mem_of_mem : ∀ {ws t}, Spaced ws t → w ∈ ws → c ∈ w → c ∈ t
  | v :: ws, _, h, hw, hc => by
    obtain ⟨g, rest, hg, rfl, hrest⟩ := h
    rcases mem_cons.1 hw with rfl | hw
    · simp [hc]
    · simp [hrest.mem_of_mem hw hc]

end Spaced

namespace Spelled

theorem spaced (h : Spelled ws t) : Spaced ws t := by
  cases ws with
  | nil => cases h
  | cons w ws => exact ⟨[], h.choose, rfl, h.choose_spec.1, h.choose_spec.2⟩

theorem append (h : Spelled ws t) (h' : Spaced vs u) : Spelled (ws ++ vs) (t ++ u) := by
  cases ws with
  | nil => cases h
  | cons w ws =>
    obtain ⟨rest, rfl, hrest⟩ := h
    exact ⟨rest ++ u, by simp, hrest.append h'⟩

theorem split (h : Spelled (ws ++ vs) t) (hne : ws ≠ []) : ∃ u v, t = u ++ v ∧ Spelled ws u ∧ Spaced vs v := by
  cases ws with
  | nil => exact absurd rfl hne
  | cons w ws =>
    obtain ⟨rest, rfl, hrest⟩ := h
    obtain ⟨u, v, rfl, hu, hv⟩ := hrest.split
    exact ⟨w ++ u, v, by simp, ⟨u, rfl, hu⟩, hv⟩

theorem split_last (h : Spelled (ws ++ [w]) t) (hne : ws ≠ []) :
    ∃ u g, t = u ++ g ++ w ∧ Spelled ws u ∧ isAllBlank g = true := by
  obtain ⟨u, x, rfl, hu, g, rest, hg, rfl, rfl⟩ := h.split hne
  exact ⟨u, g, by simp, hu, hg⟩

end Spelled

end Spelling

/-! ## Reading tokens -/

/-- The text starts with spaced tokens and goes on with the rest. -/
def Reads (tokens : List Text) (t rest : Text) : Prop := ∃ front, t = front ++ rest ∧ Spaced tokens front

/-- The text starts with spelled tokens and goes on with the rest. -/
def Opens (tokens : List Text) (t rest : Text) : Prop := ∃ front, t = front ++ rest ∧ Spelled tokens front

section Reading

variable {ws vs : List Text} {w t u rest : Text}

theorem Opens.of_after? (h : after? w t = some rest) : Opens [w] t rest := ⟨w, after?_eq_some.1 h, [], by simp, rfl⟩

theorem Opens.trans (h : Opens ws t u) (h' : Reads vs u rest) : Opens (ws ++ vs) t rest := by
  obtain ⟨front, rfl, hfront⟩ := h
  obtain ⟨front', rfl, hfront'⟩ := h'
  exact ⟨front ++ front', by simp, hfront.append hfront'⟩

namespace Reads

theorem trans (h : Reads ws t u) (h' : Reads vs u rest) : Reads (ws ++ vs) t rest := by
  obtain ⟨front, rfl, hfront⟩ := h
  obtain ⟨front', rfl, hfront'⟩ := h'
  exact ⟨front ++ front', by simp, hfront.append hfront'⟩

theorem of_dropBlanks (h : Opens ws (dropBlanks t) rest) : Reads ws t rest := by
  obtain ⟨front, heq, hfront⟩ := h
  cases ws with
  | nil => cases hfront
  | cons w ws =>
    obtain ⟨more, rfl, hmore⟩ := hfront
    refine ⟨t.takeWhile isBlank ++ (w ++ more), ?_, t.takeWhile isBlank, more, all_takeWhile, rfl, hmore⟩
    rw [append_assoc, ← heq]
    exact takeWhile_append_dropWhile.symm

theorem of_spaced? (h : spaced? w t = some rest) : Reads [w] t rest := of_dropBlanks (.of_after? h)

theorem of_dot? (h : dot? t = some u) (h' : Opens ws u rest) : Reads ("." :: ws) t rest := by
  obtain ⟨v, hv, rfl⟩ := Option.map_eq_some_iff.1 h
  exact (of_spaced? hv).trans (of_dropBlanks h')

end Reads

end Reading

end Rebind.Text
