/-
The mask of a source text is as long as the text, and shows at every offset the character that stands
there, or a space in its place. So a character of the mask that is no blank stands in the text too.
-/
import Rebind.Java.Lexeme
import Rebind.Proofs.Text.Offset
import Mathlib.Data.List.Forall2

namespace Rebind.Java

open Text List

/-- A mask shows a character as itself, or as a space if it is no line break. -/
def Shows (shown c : Char) : Prop := shown = c ∨ shown = ' ' ∧ c ≠ '\n'

theorem forall₂_shows_refl (t : Text) : List.Forall₂ Shows t t := forall₂_same.2 fun _ _ => .inl rfl

theorem forall₂_shows_blanked (t : Text) : List.Forall₂ Shows (blanked t) t := by
  induction t with
  | nil => exact .nil
  | cons c t ih =>
    refine .cons ?_ ih
    by_cases hc : c = '\n'
    · exact .inl (by simp [hc])
    · exact .inr ⟨by simp [hc], hc⟩

theorem Lexeme.forall₂_shows (l : Lexeme) : List.Forall₂ Shows l.masked l.text := by
  cases l with
  | code c => exact forall₂_shows_refl _
  | comment body => exact forall₂_shows_blanked body
  | literal opening body closing =>
    exact rel_append (rel_append (forall₂_shows_refl _) (forall₂_shows_blanked _))
      (forall₂_shows_refl _)

theorem forall₂_shows_mask (t : Text) : List.Forall₂ Shows (mask t) t := by
  have h : ∀ ls : List Lexeme, List.Forall₂ Shows (ls.flatMap Lexeme.masked) (ls.flatMap Lexeme.text) := by
    intro ls
    induction ls with
    | nil => exact .nil
    | cons l ls ih =>
      exact rel_append l.forall₂_shows ih
  have := h (lexemes t)
  rwa [flatMap_text_lexemes] at this

@[simp] theorem length_mask (t : Text) : (mask t).length = t.length := (forall₂_shows_mask t).length_eq

theorem getElem?_mask (t : Text) (i : Nat) : (mask t)[i]? = t[i]? ∨ t[i]? ≠ some '\n' ∧ (mask t)[i]? = some ' ' := by
  rcases Nat.lt_or_ge i t.length with hlt | hge
  · have hlt' : i < (mask t).length := by simpa using hlt
    have hshows := (forall₂_shows_mask t).get hlt' hlt
    simp only [get_eq_getElem] at hshows
    rw [getElem?_eq_getElem hlt, getElem?_eq_getElem hlt']
    rcases hshows with h | ⟨h, hne⟩
    · exact .inl (congrArg some h)
    · exact .inr ⟨by simpa using hne, congrArg some h⟩
  · rw [getElem?_eq_none hge, getElem?_eq_none (by simpa using hge)]
    exact .inl rfl

theorem getElem?_of_mask {t} {i : Nat} {c} (h : (mask t)[i]? = some c)
    (hc : isBlank c = false) : t[i]? = some c := by
  rcases getElem?_mask t i with h' | ⟨-, h'⟩
  · rwa [← h']
  · rw [h', Option.some.injEq] at h
    subst h
    simp [show isBlank ' ' = true by decide] at hc

theorem getElem?_mask_newline {t} {i : Nat} : (mask t)[i]? = some '\n' ↔ t[i]? = some '\n' := by
  rcases getElem?_mask t i with h | ⟨hne, h⟩
  · rw [h]
  · simp [h, hne]

theorem mask_faithful (t : Text) : (mask t).length = t.length ∧
    (∀ i : Nat, (mask t)[i]? = t[i]? ∨ t[i]? ≠ some '\n' ∧ (mask t)[i]? = some ' ') ∧
    ∀ i : Nat, (mask t)[i]? = some '\n' ↔ t[i]? = some '\n' :=
  ⟨length_mask t, getElem?_mask t, fun _ => getElem?_mask_newline⟩

end Rebind.Java
