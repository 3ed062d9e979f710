/-
Splitting arguments at their commas, against joining them.

Arguments joined by commas, with any blanks around each comma, are split into themselves again. Texts without angle
brackets are split alike as arguments and as declarators.
-/
import Rebind.Binding.Argument
import Rebind.Proofs.Java.Spelling

namespace Rebind.Binding

open Java Text List

/-- The brackets that a text opens more than it closes. -/
def depthOf (t : Text) : Int := (t.map (bracketStep openers closers)).sum

/-- An argument as it may stand between commas: a text with no blanks at its ends that closes as many brackets as it
opens and has its own commas inside of them. -/
structure Argument where
  text : Text
  nonempty : text ≠ []
  stripped : strip text = text
  closed : depthOf text = 0
  inside : ∀ k < text.length, text[k]? = some ',' → depthOf (text.take k) ≠ 0

/-- An argument with the comma before it, and the blanks before and after that comma. -/
structure Separated extends Argument where
  before : Text
  after : Text
  blank_before : isAllBlank before = true
  blank_after : isAllBlank after = true

def Separated.spelled (s : Separated) : Text := s.before ++ ',' :: (s.after ++ s.text)

def joined (first : Argument) (rest : List Separated) : Text := first.text ++ rest.flatMap Separated.spelled

/-- No comma cuts the text, and the brackets are as before behind it. -/
def Uncut (t : Text) : Prop :=
  ∀ u, splitOutside openers closers ',' 0 (t ++ u) = (splitOutside openers closers ',' 0 u).modifyHead (t ++ ·)

namespace Uncut

variable {t u : Text}

theorem append (ht : Uncut t) (hu : Uncut u) : Uncut (t ++ u) := by
  intro v
  rw [append_assoc, ht, hu, modifyHead_modifyHead]
  congr 1
  funext p
  simp

theorem splitArguments (h : Uncut t) : splitArguments t = [strip t].filter (!·.isEmpty) := by
  have := h []
  rw [append_nil, splitOutside, modifyHead_cons, append_nil] at this
  rw [Binding.splitArguments, this, map_singleton]

theorem splitArguments_comma (h : Uncut t) (u : Text) :
    Binding.splitArguments (t ++ ',' :: u) = [strip t].filter (!·.isEmpty) ++ Binding.splitArguments u := by
  have hcut : splitOutside openers closers ',' 0 (',' :: u) = [] :: splitOutside openers closers ',' 0 u := rfl
  rw [Binding.splitArguments, h, hcut, modifyHead_cons, append_nil, map_cons, ← singleton_append, filter_append]
  rfl

end Uncut

theorem uncut_of_blank : ∀ {t}, isAllBlank t = true → Uncut t
  | [], _ => fun u => @splitOutside_append openers closers ',' u [] 0 (by simp)
  | c :: t, h => fun u => by
    rw [isAllBlank, all_cons, Bool.and_eq_true] at h
    have hsolid : (',' :: openers ++ closers).all (!isBlank ·) = true := by decide
    have hnot : c ∉ ',' :: openers ++ closers := fun hc => by simpa [h.1] using all_eq_true.1 hsolid c hc
    simp only [cons_append, mem_cons, mem_append, not_or] at hnot
    have hstep : bracketStep openers closers c = 0 := by simp [bracketStep, hnot]
    rw [cons_append, splitOutside_cons (absurd · hnot.1), hstep, Int.add_zero,
      uncut_of_blank h.2 u, modifyHead_modifyHead]
    rfl

theorem Argument.uncut (a : Argument) : Uncut a.text := by
  intro u
  have := @splitOutside_append openers closers ',' u a.text 0 fun p q h => by
    have hdepth := a.inside p.length (by simp [h]) (by simp [h])
    rwa [h, take_left, ← Int.zero_add (depthOf p)] at hdepth
  rwa [← depthOf, a.closed] at this

theorem splitArguments_blanks : ∀ (rest : List Separated) (a : Argument) {g}, isAllBlank g = true →
    splitArguments (g ++ a.text ++ rest.flatMap Separated.spelled) = a.text :: rest.map (·.text)
  | [], a, g, hg => by
    have hpiece := ((uncut_of_blank hg).append a.uncut).append (uncut_of_blank (t := []) rfl)
    rw [flatMap_nil, hpiece.splitArguments, strip_between hg rfl, a.stripped]
    simp [a.nonempty]
  | s :: rest, a, g, hg => by
    have htext : g ++ a.text ++ (s :: rest).flatMap Separated.spelled =
        g ++ a.text ++ s.before ++ ',' :: (s.after ++ s.text ++ rest.flatMap Separated.spelled) := by
      simp [Separated.spelled]
    have hpiece := ((uncut_of_blank hg).append a.uncut).append (uncut_of_blank s.blank_before)
    rw [htext, hpiece.splitArguments_comma, strip_between hg s.blank_before, a.stripped,
      splitArguments_blanks rest s.toArgument s.blank_after]
    simp [a.nonempty]

theorem splitOutside_congr {opens closes opens' closes' sep} : ∀ {t} (depth : Int),
    (∀ c ∈ t, bracketStep opens closes c = bracketStep opens' closes' c) →
    splitOutside opens closes sep depth t = splitOutside opens' closes' sep depth t
  | [], _, _ => rfl
  | c :: t, depth, h => by
    have ih := fun depth => @splitOutside_congr opens closes opens' closes' sep t depth (forall_mem_cons.1 h).2
    rw [splitOutside, splitOutside, h c (by simp), ih, ih]

theorem splitArguments_joined (first : Argument) (rest : List Separated) :
    splitArguments (joined first rest) = first.text :: rest.map (·.text) ∧
      ∀ t : Text, '<' ∉ t → '>' ∉ t → ((splitDeclarators t).map strip).filter (!·.isEmpty) = splitArguments t := by
  refine ⟨splitArguments_blanks rest first (g := []) rfl, fun t hopen hclose => ?_⟩
  rw [splitDeclarators, splitArguments]
  congr 2
  refine splitOutside_congr 0 fun c hc => ?_
  have hne : c ≠ '<' := fun h => hopen (h ▸ hc)
  have hne' : c ≠ '>' := fun h => hclose (h ▸ hc)
  simp [bracketStep, hne, hne']

theorem splitArguments_joined_nested : ∃ (first : Argument) (rest : List Separated),
    joined first rest = "f(a, [b]) ,\tc".toList ∧
      splitArguments (joined first rest) = ["f(a, [b])".toList, "c".toList] :=
  ⟨⟨"f(a, [b])".toList, by decide, by decide, by decide, by decide⟩,
    [⟨⟨"c".toList, by decide, by decide, by decide, by decide⟩, " ".toList, "\t".toList, by decide, by decide⟩],
    rfl, (splitArguments_joined _ _).1⟩

end Rebind.Binding
