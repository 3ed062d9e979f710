/-
Values under keys, in the order in which the keys were first given.
-/
namespace Rebind

abbrev Keyed (κ α : Type) := List (κ × α)

namespace Keyed

variable {κ α : Type} [DecidableEq κ]

def get? (m : Keyed κ α) (k : κ) : Option α := (m.find? fun p => p.1 = k).map (·.2)

def has (m : Keyed κ α) (k : κ) : Bool := (m.get? k).isSome

/-- A key given again keeps its place and takes the new value; `get?_insert` says what each key has after that. -/
def insert (m : Keyed κ α) (k : κ) (a : α) : Keyed κ α :=
  if m.has k then m.map fun p => if p.1 = k then (k, a) else p else m ++ [(k, a)]

theorem get?_cons (p : κ × α) (m : Keyed κ α) (k : κ) :
    get? (p :: m) k = if p.1 = k then some p.2 else get? m k := by
  by_cases h : p.1 = k <;> simp [get?, h]

theorem get?_append (m n : Keyed κ α) (k : κ) :
    get? (m ++ n) k = (get? m k).or (get? n k) := by
  simp [get?, List.find?_append, Option.map_or]

theorem get?_map_replace (m : Keyed κ α) (k k' : κ) (a : α) :
    get? (m.map fun p => if p.1 = k then (k, a) else p) k' =
      if k' = k then (get? m k).map (fun _ => a) else get? m k' := by
  induction m with
  | nil => simp [get?]
  | cons p m ih =>
    rw [List.map_cons, get?_cons, ih, get?_cons, get?_cons]
    by_cases hp : p.1 = k <;> by_cases hk : k' = k <;> grind

theorem get?_insert (m : Keyed κ α) (k k' : κ) (a : α) :
    (m.insert k a).get? k' = if k' = k then some a else m.get? k' := by
  unfold insert
  split
  · rename_i h
    obtain ⟨b, hb⟩ := Option.isSome_iff_exists.1 h
    rw [get?_map_replace, hb]
    rfl
  · rename_i h
    have hk : m.get? k = none := by simpa [has] using h
    rw [get?_append, get?_cons]
    by_cases hk' : k' = k
    · simp [hk', hk]
    · simp [hk', Ne.symm hk', get?]

def ofList (pairs : List (κ × α)) : Keyed κ α := pairs.foldl (fun m p => m.insert p.1 p.2) []

end Keyed

end Rebind
