/-
Names in snake case and in camel case.

A name in camel case is a run of small letters and digits, followed by capitalized words; written in snake case, these
are its segments (`snakeCase_cons`, `segments_join`). Every name of ASCII letters and digits is such a sequence of words
(`exists_words`), so that the two ways of writing invert each other on conventional names (`conventional_names_invert`).
-/
import Rebind.Naming
import Rebind.Proofs.Text.Pieces

namespace Rebind

open List Text

variable {c : Char} {w v role start : Text}

/-! ## Letters and digits -/

namespace Text

def isSmall (c : Char) : Bool := c.isLower || c.isDigit

theorem isAlphanum_eq (c : Char) : c.isAlphanum = (c.isUpper || c.isLower || c.isDigit) := rfl

/-- What holds of each ASCII character holds of a letter or digit. -/
@[elab_as_elim]
theorem of_isAlphanum {p : Char → Prop} (h : c.isAlphanum = true) (hp : ∀ n : Fin 128, p (Char.ofNat n)) : p c := by
  have hz : c.val ≤ 122 := by
    delta Char.isAlphanum Char.isAlpha Char.isUpper Char.isLower Char.isDigit at h
    grind
  have hc : c.toNat < 128 := Nat.lt_of_le_of_lt (UInt32.le_iff_toNat_le.1 hz) (by decide)
  have := hp ⟨c.toNat, hc⟩
  rwa [Char.ofNat_toNat] at this

theorem of_isSmall (h : isSmall c = true) :
    Naming.snakeChar c = [c] ∧ lowerChar c = [c] ∧ c ≠ 'Σ' ∧ c ≠ '_' ∧ c.isUpper = false := by
  have halnum : c.isAlphanum = true := by
    rw [isSmall, Bool.or_eq_true] at h
    rcases h with h | h <;> simp [isAlphanum_eq, h]
  revert h
  exact of_isAlphanum halnum (by decide)

theorem of_isLower (h : c.isLower = true) : upperChar c = [c.toUpper] ∧ c.toUpper.isUpper = true ∧
    c.toUpper.toLower = c := by
  have halnum : c.isAlphanum = true := by simp [isAlphanum_eq, h]
  revert h
  exact of_isAlphanum halnum (by decide)

theorem of_isUpper (h : c.isUpper = true) : Naming.snakeChar c = ['_', c.toLower] ∧ lowerChar c = [c.toLower] ∧
    c ≠ 'Σ' ∧ c.toLower.isLower = true ∧ c.toLower.toUpper = c := by
  have halnum : c.isAlphanum = true := by simp [isAlphanum_eq, h]
  revert h
  exact of_isAlphanum halnum (by decide)

theorem lowerAfter_small : ∀ {t} (before : Text), t.all isSmall = true → lowerAfter before t = t
  | [], _, _ => rfl
  | c :: t, before, h => by
    simp only [all_cons, Bool.and_eq_true] at h
    obtain ⟨-, hlower, hsigma, -⟩ := of_isSmall h.1
    rw [lowerAfter, if_neg (by simpa using hsigma), hlower, lowerAfter_small _ h.2, singleton_append]

end Text

/-! ## Words -/

namespace Naming

/-- A small letter, then small letters and digits. -/
def IsSegment : Text → Prop
  | [] => False
  | c :: w => c.isLower = true ∧ w.all isSmall = true

theorem IsSegment.all_isSmall (h : IsSegment w) : w.all isSmall = true := by
  cases w with
  | nil => cases h
  | cons c w => rw [all_cons, isSmall, h.1, h.2]; rfl

theorem IsSegment.toLower_eq (h : IsSegment w) : toLower w = w := lowerAfter_small [] h.all_isSmall

theorem capitalize_cons (h : IsSegment (c :: w)) : capitalize (c :: w) = c.toUpper :: w := by
  rw [capitalize, (of_isLower h.1).1, toLower, lowerAfter_small [] h.2, singleton_append]

theorem toLower_capitalize (h : IsSegment w) : toLower (capitalize w) = w := by
  cases w with
  | nil => cases h
  | cons c w =>
    obtain ⟨-, hupper, hback⟩ := of_isLower h.1
    obtain ⟨-, hlower, hsigma, -⟩ := of_isUpper hupper
    rw [capitalize_cons h, toLower, lowerAfter, if_neg (by simpa using hsigma), hlower, hback, lowerAfter_small _ h.2,
      singleton_append]

/-- The words of a name: its capital letters, each with the small letters and digits behind it. -/
def capitalWords : Text → List Text
  | [] => []
  | c :: t => if c.isUpper then (c :: t.takeWhile isSmall) :: capitalWords t else capitalWords t

theorem capitalWords_small {t} : ∀ {w}, w.all isSmall = true → capitalWords (w ++ t) = capitalWords t
  | [], _ => rfl
  | c :: w, h => by
    simp only [all_cons, Bool.and_eq_true] at h
    rw [cons_append, capitalWords, if_neg (by simp [(of_isSmall h.1).2.2.2.2]), capitalWords_small h.2]

variable {ws : List Text}

theorem takeWhile_capitalize (h : ∀ w ∈ ws, IsSegment w) : (ws.flatMap capitalize).takeWhile isSmall = [] := by
  cases ws with
  | nil => rfl
  | cons w ws =>
    cases w with
    | nil => cases h [] (by simp)
    | cons c w =>
      have hw := h (c :: w) (by simp)
      have hnot : isSmall c.toUpper = false := by
        cases hs : isSmall c.toUpper with
        | false => rfl
        | true => exact absurd (of_isLower hw.1).2.1 (by simp [(of_isSmall hs).2.2.2.2])
      simp [capitalize_cons hw, hnot]

theorem capitalWords_capitalize : ∀ {ws : List Text}, (∀ w ∈ ws, IsSegment w) →
    capitalWords (ws.flatMap capitalize) = ws.map capitalize
  | [], _ => rfl
  | [] :: ws, h => by cases h [] (by simp)
  | (c :: w) :: ws, h => by
    obtain ⟨hw, hws⟩ := forall_mem_cons.1 h
    rw [flatMap_cons, map_cons, capitalize_cons hw, cons_append, capitalWords, if_pos (of_isLower hw.1).2.1,
      capitalWords_small hw.2, capitalWords_capitalize hws, takeWhile_append_of_pos (all_eq_true.1 hw.2),
      takeWhile_capitalize hws, append_nil]

/-- A text of ASCII letters and digits is a run of small ones and capitalized words. -/
theorem exists_words : ∀ {t}, t.all Char.isAlphanum = true →
    ∃ (v : Text) (ws : List Text), v.all isSmall = true ∧ (∀ w ∈ ws, IsSegment w) ∧ t = v ++ ws.flatMap capitalize
  | [], _ => ⟨[], [], rfl, by simp, rfl⟩
  | c :: t, h => by
    simp only [all_cons, Bool.and_eq_true] at h
    obtain ⟨v, ws, hv, hws, rfl⟩ := exists_words h.2
    by_cases hc : c.isUpper = true
    · obtain ⟨-, -, -, hlower, hback⟩ := of_isUpper hc
      have hw : IsSegment (c.toLower :: v) := ⟨hlower, hv⟩
      refine ⟨[], (c.toLower :: v) :: ws, rfl, by simpa using ⟨hw, hws⟩, ?_⟩
      rw [flatMap_cons, capitalize_cons hw, hback]
      rfl
    · have hsmall : isSmall c = true := by simpa [isAlphanum_eq, hc, isSmall] using h.1
      exact ⟨c :: v, ws, by rw [all_cons, hsmall, hv]; rfl, hws, rfl⟩

/-! ## Snake case -/

theorem flatMap_snakeChar (h : v.all isSmall = true) : v.flatMap snakeChar = v := by
  induction v with
  | nil => rfl
  | cons c v ih =>
    simp only [all_cons, Bool.and_eq_true] at h
    rw [flatMap_cons, (of_isSmall h.1).1, ih h.2, singleton_append]

theorem flatMap_capitalize : ∀ {ws : List Text}, (∀ w ∈ ws, IsSegment w) →
    (ws.flatMap capitalize).flatMap snakeChar = ws.flatMap ('_' :: ·)
  | [], _ => rfl
  | [] :: ws, h => by cases h [] (by simp)
  | (c :: w) :: ws, h => by
    obtain ⟨hw, hws⟩ := forall_mem_cons.1 h
    obtain ⟨-, hupper, hback⟩ := of_isLower hw.1
    rw [flatMap_cons, flatMap_append, capitalize_cons hw, flatMap_cons, (of_isUpper hupper).1, hback,
      flatMap_snakeChar hw.2, flatMap_capitalize hws, flatMap_cons]
    rfl

theorem join_eq_flatMap (w : Text) : ∀ ws : List Text, join ['_'] (w :: ws) = w ++ ws.flatMap ('_' :: ·)
  | [] => by simp [join]
  | v :: ws => by
    rw [join_cons _ _ (by simp), join_eq_flatMap v ws, flatMap_cons]
    rfl

/-- A name that starts with a letter whose small form is `c` is written with that form first. -/
theorem snakeCase_cons {d : Char} (hd : lowerChar d = [c]) (hv : v.all isSmall = true)
    (hws : ∀ w ∈ ws, IsSegment w) : snakeCase (d :: (v ++ ws.flatMap capitalize)) = join ['_'] ((c :: v) :: ws) := by
  rw [snakeCase, flatMap_append, flatMap_snakeChar hv, flatMap_capitalize hws, hd, join_eq_flatMap]
  rfl

variable {w : Text}

theorem snakeCase_camel (hw : IsSegment w) (hws : ∀ w ∈ ws, IsSegment w) :
    snakeCase (w ++ ws.flatMap capitalize) = join ['_'] (w :: ws) := by
  cases w with
  | nil => cases hw
  | cons c w => exact snakeCase_cons (of_isSmall (by simp [isSmall, hw.1])).2.1 hw.2 hws

theorem snakeCase_capitalized (hw : IsSegment w) (hws : ∀ w ∈ ws, IsSegment w) :
    snakeCase ((w :: ws).flatMap capitalize) = join ['_'] (w :: ws) := by
  cases w with
  | nil => cases hw
  | cons c w =>
    obtain ⟨-, hupper, hback⟩ := of_isLower hw.1
    rw [flatMap_cons, capitalize_cons hw, cons_append]
    exact snakeCase_cons (by rw [(of_isUpper hupper).2.1, hback]) hw.2 hws

/-! ## Segments -/

theorem segments_join (h : ∀ w ∈ ws, IsSegment w) (hne : ws ≠ []) : segments (join ['_'] ws) = ws := by
  have hsplit : pieces '_' (join ['_'] ws) = ws := by
    rw [pieces_eq_splitOn]
    refine splitOn_intercalate _ (fun w hw hmem => ?_) hne
    exact (of_isSmall (all_eq_true.1 (h w hw).all_isSmall _ hmem)).2.2.2.1 rfl
  rw [segments, hsplit, filter_eq_self]
  intro w hw
  cases w with
  | nil => cases h [] hw
  | cons c w => rfl

theorem bindingClassName_join (h : ∀ w ∈ ws, IsSegment w) (hne : ws ≠ []) :
    bindingClassName (join ['_'] ws) = ws.flatMap capitalize ++ "Binding" := by
  rw [bindingClassName, segments_join h hne]
  cases ws with
  | nil => exact absurd rfl hne
  | cons w ws => rfl

theorem fieldName_join (hw : IsSegment w) (hws : ∀ w ∈ ws, IsSegment w) :
    fieldName (join ['_'] (w :: ws)) = w ++ ws.flatMap capitalize := by
  have hne : join ['_'] (w :: ws) ≠ [] := by
    rw [join_eq_flatMap]
    cases w with
    | nil => cases hw
    | cons c w => simp
  rw [fieldName, if_neg (by simpa using hne), segments_join (by simpa using ⟨hw, hws⟩) (by simp)]
  split
  · next hno =>
    cases ws with
    | nil => simp [join]
    | cons v ws => simp [join_eq_flatMap] at hno
  · exact congrArg (· ++ ws.flatMap capitalize) hw.toLower_eq

/-! ## Roles -/

theorem before?_of_getLast? {stem suffix a b} (hrole : role.getLast? = some a)
    (hsuffix : suffix.getLast? = some b) (hne : a ≠ b) : before? suffix (stem ++ role) = none := by
  rw [before?, if_neg]
  intro hends
  obtain ⟨front, heq⟩ := isSuffixOf_iff_suffix.1 hends
  have hlast := congrArg getLast? heq
  rw [getLast?_append, getLast?_append, hrole, hsuffix] at hlast
  exact hne (Option.some.inj hlast).symm

/-- No role's suffix ends as another does, so the first that a name ends with is the only one. -/
theorem layoutNameOfClass_role (stem : Text) (h : (role, start) ∈ roles) :
    layoutNameOfClass (stem ++ role) = some (start ++ snakeCase stem) := by
  have hown : before? role (stem ++ role) = some stem := by simp [before?, endsWith]
  simp only [roles, mem_cons, Prod.mk.injEq, not_mem_nil, or_false] at h
  rw [layoutNameOfClass, if_neg (by rcases h with ⟨rfl, -⟩ | ⟨rfl, -⟩ | ⟨rfl, -⟩ <;> simp)]
  rcases h with ⟨rfl, rfl⟩ | ⟨rfl, rfl⟩ | ⟨rfl, rfl⟩
  · simp only [roles, findSome?_cons, hown]
    rfl
  · have hfirst : before? "Activity" (stem ++ "Fragment") = none := before?_of_getLast? rfl rfl (by decide)
    simp only [roles, findSome?_cons, hown, hfirst]
    rfl
  · have hfirst : before? "Activity" (stem ++ "Dialog") = none := before?_of_getLast? rfl rfl (by decide)
    have hsecond : before? "Fragment" (stem ++ "Dialog") = none := before?_of_getLast? rfl rfl (by decide)
    simp only [roles, findSome?_cons, hown, hfirst, hsecond]
    rfl

theorem exists_segment_of_role (h : (role, start) ∈ roles) :
    ∃ p, IsSegment p ∧ role = capitalize p ∧ start = p ++ ['_'] := by
  simp only [roles, mem_cons, Prod.mk.injEq, not_mem_nil, or_false] at h
  rcases h with ⟨rfl, rfl⟩ | ⟨rfl, rfl⟩ | ⟨rfl, rfl⟩
  · exact ⟨"activity", ⟨by decide, by decide⟩, by decide, rfl⟩
  · exact ⟨"fragment", ⟨by decide, by decide⟩, by decide, rfl⟩
  · exact ⟨"dialog", ⟨by decide, by decide⟩, by decide, rfl⟩

/-- On names of ASCII letters and digits the ways of writing invert each other: a field's name is that of its id in
snake case, an id that of its field, a binding class has the segments of its layout as its words, and the class of a
layout that was named for a screen has the screen's name with the role in front. -/
theorem conventional_names_invert :
    (∀ (c : Char) (rest : Text), c.isLower = true → rest.all Char.isAlphanum = true →
      fieldName (snakeCase (c :: rest)) = c :: rest) ∧
    (∀ ws, ws ≠ [] → (∀ w ∈ ws, IsSegment w) → snakeCase (fieldName (join ['_'] ws)) = join ['_'] ws ∧
      ∃ name : Text, bindingClassName (join ['_'] ws) = name ++ "Binding" ∧ (capitalWords name).map toLower = ws) ∧
    ∀ (c : Char) (rest : Text), c.isUpper = true → rest.all Char.isAlphanum = true → ∀ role ∈ roles.map (·.1),
      (layoutNameOfClass (c :: rest ++ role)).map bindingClassName = some (role ++ (c :: rest) ++ "Binding") := by
  refine ⟨fun c rest hc hrest => ?_, fun ws hne h => ?_, fun c rest hc hrest role hrole => ?_⟩
  · obtain ⟨v, ws, hv, hws, rfl⟩ := exists_words hrest
    have hw : IsSegment (c :: v) := ⟨hc, hv⟩
    rw [← cons_append, snakeCase_camel hw hws, fieldName_join hw hws]
  · refine ⟨?_, _, bindingClassName_join h hne, ?_⟩
    · cases ws with
      | nil => exact absurd rfl hne
      | cons w ws =>
        obtain ⟨hw, hws⟩ := forall_mem_cons.1 h
        rw [fieldName_join hw hws, snakeCase_camel hw hws]
    · rw [capitalWords_capitalize h, map_map]
      exact (map_congr_left fun w hw => toLower_capitalize (h w hw)).trans (map_id ws)
  · obtain ⟨v, ws, hv, hws, rfl⟩ := exists_words hrest
    obtain ⟨-, -, -, hlower, hback⟩ := of_isUpper hc
    have hw : IsSegment (c.toLower :: v) := ⟨hlower, hv⟩
    have hstem : c :: (v ++ ws.flatMap capitalize) = ((c.toLower :: v) :: ws).flatMap capitalize := by
      rw [flatMap_cons, capitalize_cons hw, hback]
      rfl
    obtain ⟨⟨role, start⟩, hmem, rfl⟩ := mem_map.1 hrole
    obtain ⟨p, hp, rfl, rfl⟩ := exists_segment_of_role hmem
    rw [layoutNameOfClass_role _ hmem, hstem, snakeCase_capitalized hw hws, Option.map_some]
    have hjoin : p ++ ['_'] ++ join ['_'] ((c.toLower :: v) :: ws) = join ['_'] (p :: (c.toLower :: v) :: ws) := by
      rw [join_cons _ p (by simp), append_assoc]
    rw [hjoin, bindingClassName_join (by simpa using ⟨hp, hw, hws⟩) (by simp), flatMap_cons]

theorem conventional_names_urlDialog : fieldName (snakeCase "urlV2") = "urlV2" ∧
    (layoutNameOfClass "MyDialogDialog").map bindingClassName = some "DialogMyDialogBinding".toList :=
  ⟨conventional_names_invert.1 'u' "rlV2" (by decide) (by decide),
    conventional_names_invert.2.2 'M' "yDialog" (by decide) (by decide) "Dialog" (by decide)⟩

end Naming

end Rebind
