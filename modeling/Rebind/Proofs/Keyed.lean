/-
The keys of keyed values.
-/
import Rebind.Keyed

namespace Rebind.Keyed

open List

variable {κ α : Type} [DecidableEq κ]

theorem mem_of_get? {m : Keyed κ α} {k a} (h : m.get? k = some a) : (k, a) ∈ m := by
  obtain ⟨p, hp, rfl⟩ := Option.map_eq_some_iff.1 h
  have hkey : p.1 = k := by simpa using find?_some hp
  exact hkey ▸ mem_of_find?_eq_some hp

theorem has_iff {m : Keyed κ α} {k} : m.has k = true ↔ k ∈ m.map (·.1) := by
  simp [has, get?, find?_isSome]

theorem get?_of_mem {m : Keyed κ α} {k a} (hnodup : (m.map (·.1)).Nodup) (h : (k, a) ∈ m) :
    m.get? k = some a := by
  induction m with
  | nil => cases h
  | cons p m ih =>
    rw [map_cons, nodup_cons] at hnodup
    rw [get?_cons]
    rcases mem_cons.1 h with rfl | h
    · exact if_pos rfl
    · have hne : p.1 ≠ k := fun heq => hnodup.1 (heq ▸ mem_map_of_mem h)
      rw [if_neg hne, ih hnodup.2 h]

theorem get?_eq_none {m : Keyed κ α} {k} (h : k ∉ m.map (·.1)) : m.get? k = none := by
  cases hget : m.get? k with
  | none => rfl
  | some a => exact absurd (mem_map_of_mem (mem_of_get? hget)) h

theorem ext_of_keys {m m' : Keyed κ α} (hkeys : m'.map (·.1) = m.map (·.1)) (hnodup : (m.map (·.1)).Nodup)
    (h : ∀ k, m'.get? k = m.get? k) : m' = m := by
  induction m generalizing m' with
  | nil => exact map_eq_nil_iff.1 hkeys
  | cons p m ih =>
    obtain ⟨p', rest, rfl, hp, hrest⟩ := map_eq_cons_iff.1 hkeys
    rw [map_cons, nodup_cons] at hnodup
    have hvalue := h p.1
    rw [get?_cons, get?_cons, if_pos hp, if_pos rfl, Option.some.injEq] at hvalue
    obtain rfl : p' = p := Prod.ext hp hvalue
    rw [ih hrest hnodup.2 fun k => ?_]
    by_cases hk : p'.1 = k
    · subst hk
      rw [get?_eq_none hnodup.1, get?_eq_none (hrest ▸ hnodup.1)]
    · have hk' := h k
      rwa [get?_cons, get?_cons, if_neg hk, if_neg hk] at hk'

theorem keys_insert (m : Keyed κ α) (k : κ) (a : α) :
    (m.insert k a).map (·.1) = if m.has k then m.map (·.1) else m.map (·.1) ++ [k] := by
  unfold insert
  split
  · rw [map_map]
    refine map_congr_left fun p _ => ?_
    by_cases hp : p.1 = k
    · simp [hp]
    · simp [hp]
  · simp

theorem mem_insert {m : Keyed κ α} {k a p} (h : p ∈ m.insert k a) :
    (p.1 = k ∧ p.2 = a) ∨ p ∈ m := by
  unfold insert at h
  split at h
  · obtain ⟨q, hq, rfl⟩ := mem_map.1 h
    split
    · exact .inl ⟨rfl, rfl⟩
    · exact .inr hq
  · rcases mem_append.1 h with h | h
    · exact .inr h
    · obtain rfl := mem_singleton.1 h
      exact .inl ⟨rfl, rfl⟩

theorem mem_of_get?_ofList {l : List (κ × α)} {k a} (h : (ofList l).get? k = some a) : (k, a) ∈ l := by
  have hall : ∀ p ∈ ofList l, p ∈ l :=
    List.foldlRecOn (motive := fun m : Keyed κ α => ∀ p ∈ m, p ∈ l) _ _ (by simp) fun m hm q hq p hp =>
      (mem_insert hp).elim (fun heq => (Prod.ext heq.1 heq.2 : p = q) ▸ hq) (hm p)
  exact hall _ (mem_of_get? h)

theorem nodup_insert {m : Keyed κ α} (h : (m.map (·.1)).Nodup) (k : κ) (a : α) : ((m.insert k a).map (·.1)).Nodup := by
  rw [keys_insert]
  split
  · exact h
  · next hnew =>
    rw [nodup_append]
    refine ⟨h, by simp, ?_⟩
    rintro x hx y hy rfl
    obtain rfl : x = k := by simpa using hy
    exact hnew (has_iff.2 hx)

end Rebind.Keyed
