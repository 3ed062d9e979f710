/-
What is added to a layout.

`Extended` says what a layout keeps over any number of additions: its tree only grew, its views have what they had, and
it counts as changed as soon as it is not what it was.
-/
import Rebind.Layout.Repair
import Rebind.Proofs.Layout.Walk
import Rebind.Proofs.Markup.Growth

namespace Rebind.Layout

open Rebind.Markup List Option

variable {α β : Type} {e : Element} {key value : Text} {place : Place} {a b : LayoutFile}

theorem rel_imp {r r'} {a b : Option α} (h : Option.Rel r a b) (himp : ∀ x y, r x y → r' x y) :
    Option.Rel r' a b := by
  cases h with
  | some h => exact .some (himp _ _ h)
  | none => exact .none

theorem rel_bind {r r' a b} {f g : α → Option β} (h : Option.Rel r a b)
    (hfg : ∀ x y, r x y → Option.Rel r' (f x) (g y)) : Option.Rel r' (a >>= f) (b >>= g) := by
  cases h with
  | some h => exact hfg _ _ h
  | none => exact .none

/-! ## Attributes of views -/

theorem find?_eraseDupsBy [BEq α] [LawfulBEq α] (k : α) (l : List (α × β)) :
    (l.eraseDupsBy fun a b => a.1 == b.1).find? (fun p => p.1 == k) = l.find? fun p => p.1 == k := by
  induction h : l.length using Nat.strongRecOn generalizing l with
  | _ n ih =>
    cases l with
    | nil => rfl
    | cons p l =>
      have hlen : (l.filter fun q => decide ((q.1 == p.1) = false)).length < n := by
        rw [← h, length_cons]
        exact Nat.lt_succ_of_le (length_filter_le _ _)
      rw [eraseDupsBy_cons, find?_cons, find?_cons, ih _ hlen _ rfl, find?_filter]
      cases hk : p.1 == k with
      | true => rfl
      | false =>
        have hpred : ∀ q : α × β, decide (decide ((q.1 == p.1) = false) = true ∧ (q.1 == k) = true) = (q.1 == k) := by
          intro q
          by_cases hq : q.1 = k
          · have hqp : (q.1 == p.1) = false := by
              rw [beq_eq_false_iff_ne] at hk ⊢
              rw [hq]
              exact Ne.symm hk
            simp [hqp]
          · simp [hq]
        simp only [hpred]

/-- The name of an attribute that describes a view. -/
def androidName (key : Text) : Option Text × Text := (some androidSpace, key)

theorem androidAttribute?_eq (e : Element) (key : Text) : androidAttribute? e key =
    (e.tag.attributes.find? fun a => decide (a.expanded = androidName key)).map (·.value) := by
  unfold androidAttribute? androidAttributes
  rw [find?_eraseDupsBy, find?_map, find?_filter, Option.map_map]
  simp [Function.comp_def, Attribute.expanded, androidName, Prod.ext_iff]

theorem hasAttribute_eq_false : hasAttribute e key = false ↔ ∀ a ∈ e.tag.attributes, a.expanded ≠ androidName key := by
  rw [hasAttribute, androidAttribute?_eq, isSome_map, isSome_eq_false_iff, isNone_iff_eq_none,
    find?_eq_none]
  simp

/-! ## Replacing one element -/

theorem modify?_const_spec {root root' e'} (h : root.modify? (fun _ => some e') place = some root') :
    ∃ e, elementAt? root place = some e ∧ root'.weight + e.weight = root.weight + e'.weight ∧
      (∀ new, e.tag.Grown new e'.tag → e.inner.Grown new e'.inner →
        root.tag.Grown new root'.tag ∧ root.inner.Grown new root'.inner) ∧
      (e'.inner.elements = e.inner.elements → ∀ q, q ≠ place →
        (elementAt? root' q).map (·.tag) = (elementAt? root q).map (·.tag)) := by
  induction place generalizing root root' with
  | nil =>
    obtain rfl := some.inj h
    refine ⟨root, rfl, Nat.add_comm _ _, fun _ htag hinner => ⟨htag, hinner⟩, fun helements q hq => ?_⟩
    cases q with
    | nil => exact absurd rfl hq
    | cons i q => rw [elementAt?_cons, elementAt?_cons, helements]
  | cons i place ih =>
    obtain ⟨inner, hinner, rfl⟩ := map_eq_some_iff.1 h
    obtain ⟨x, x', hx, hx', helements, hweight, hgrown⟩ := Content.modify?_spec hinner
    obtain ⟨e, he, hweight', hgrown', helse⟩ := ih hx'
    refine ⟨e, by rw [elementAt?_cons, hx]; exact he, ?_, fun new htag hinner => ⟨.refl _, ?_⟩, fun hsame q hq => ?_⟩
    · simp only [Element.weight] at hweight hweight' ⊢
      omega
    · obtain ⟨htag', hinner'⟩ := hgrown' new htag hinner
      exact hgrown new htag' hinner'
    · cases q with
      | nil => rfl
      | cons j q =>
        have hlt := (List.getElem?_eq_some_iff.1 hx).1
        rw [elementAt?_cons, elementAt?_cons, helements, getElem?_set]
        by_cases hij : i = j
        · subst hij
          rw [if_pos rfl, if_pos hlt, hx]
          exact helse hsame q fun hqp => hq (by rw [hqp])
        · rw [if_neg hij]

/-! ## One addition -/

/-- The names of the attributes that views get: ids, and at the root those that make it react to touch. -/
def Gained (atRoot : Prop) (name : Option Text × Text) : Prop :=
  ∃ key, name = androidName key ∧ (key = idAttribute ∨ atRoot ∧ key ∈ Repair.touchAttributes)

theorem Gained.mono {p q} (h : p → q) {name} : Gained p name → Gained q name := by
  rintro ⟨key, hname, hkey⟩
  exact ⟨key, hname, hkey.imp_right fun hroot => ⟨h hroot.1, hroot.2⟩⟩

/-- A view gets an attribute that it lacks, or a comment is put under the root. -/
inductive Addition (a b : LayoutFile) : Prop where
  | toView {place : Place} {e : Element} {key value : Text} (there : elementAt? a.document.root place = some e)
      (lacked : hasAttribute e key = false) (gained : Gained (place = []) (androidName key))
      (set : a.setAttribute place key value = .ok b)
  | toRoot {text : Text} (added : a.addComment [] text = .ok b)

theorem LayoutFile.put_eq_ok {handedOut} (h : a.put place e handedOut = .ok b) :
    ∃ root, a.document.root.modify? (fun _ => some e) place = some root ∧
      b = { a with document := { a.document with root, handedOut }, changed := true } := by
  unfold put at h
  split at h
  · next root hroot =>
    cases h
    exact ⟨root, hroot, rfl⟩
  · cases h

theorem LayoutFile.setAttribute_eq_ok (h : a.setAttribute place key value = .ok b) : ∃ around e tag handedOut,
      elementAt? a.document.root place = some e ∧
      e.tag.setAttribute around a.document.handedOut androidSpace key value = .ok (tag, handedOut) ∧
      a.put place { e with tag } handedOut = .ok b := by
  unfold setAttribute at h
  split at h
  · cases h
  · next around e hat =>
    split at h
    · next tag handedOut hset =>
      exact ⟨around, e, tag, handedOut, by rw [elementAt?, hat]; rfl, hset, h⟩
    · cases h

theorem LayoutFile.addComment_root_eq_ok {text} (h : a.addComment [] text = .ok b) : b = { a with
      document := { a.document with
        root := ⟨a.document.root.tag, a.document.root.inner.insertComment text a.document.root.inner.leading⟩ }
      changed := true } := by
  unfold addComment at h
  split at h
  · cases h
  · next around e hat =>
    cases hat
    split at h
    · next inner hinner =>
      obtain ⟨root, hroot, rfl⟩ := put_eq_ok h
      cases hroot
      unfold Content.addComment at hinner
      split at hinner
      · cases hinner
      · split at hinner
        · cases hinner
        · cases hinner
          rfl
    · cases h

theorem LayoutFile.tag_of_setAttribute {q} (h : a.setAttribute place key value = .ok b) (hq : q ≠ place) :
    (elementAt? b.document.root q).map (·.tag) = (elementAt? a.document.root q).map (·.tag) := by
  obtain ⟨_, e, _, _, he, _, hput⟩ := setAttribute_eq_ok h
  obtain ⟨root, hroot, rfl⟩ := put_eq_ok hput
  obtain ⟨e', he', -, -, helse⟩ := modify?_const_spec hroot
  obtain rfl := some.inj (he.symm.trans he')
  exact helse rfl q hq

/-! ## Any number of additions -/

/-- The second layout is the first one, or is marked as changed and holds more; nothing of the first one is lost or
altered, and what is new are attributes of views, and comments under the root. -/
structure LayoutFile.Extended (a b : LayoutFile) : Prop where
  root : a.document.root.Grown (Gained True) (Gained False) b.document.root
  rest : b = { a with
    document := { a.document with root := b.document.root, handedOut := b.document.handedOut }
    changed := b.changed }
  changed : b = a ∨ b.changed = true ∧ a.document.root.weight < b.document.root.weight

namespace LayoutFile.Extended

theorem refl (a : LayoutFile) : a.Extended a := ⟨.refl _, rfl, .inl rfl⟩

variable {a b : LayoutFile}

theorem trans {c} (h : a.Extended b) (h' : b.Extended c) : a.Extended c := by
  refine ⟨h.root.trans h'.root, ?_, ?_⟩
  · rw [h'.rest, h.rest]
  · rcases h'.changed with rfl | ⟨hchanged, hweight⟩
    · exact h.changed
    · refine .inr ⟨hchanged, ?_⟩
      rcases h.changed with rfl | ⟨-, hweight'⟩
      · exact hweight
      · omega

theorem changed_iff (h : a.Extended b) : b.changed = true ↔ a.changed = true ∨ b.document.root ≠ a.document.root := by
  rcases h.changed with rfl | ⟨hchanged, hweight⟩
  · simp
  · refine iff_of_true hchanged (.inr fun heq => ?_)
    rw [heq] at hweight
    exact Nat.lt_irrefl _ hweight

end LayoutFile.Extended

theorem Addition.extended (h : Addition a b) : a.Extended b := by
  cases h with
  | @toView place e key value hthere hlacked hgained hset =>
    obtain ⟨around, e', tag, handedOut, he', hset', hput⟩ := LayoutFile.setAttribute_eq_ok hset
    obtain rfl := some.inj (hthere.symm.trans he')
    obtain ⟨root, hroot, rfl⟩ := LayoutFile.put_eq_ok hput
    have hlacked := hasAttribute_eq_false.1 hlacked
    obtain ⟨e', he', hweight, hgrown, -⟩ := modify?_const_spec hroot
    obtain rfl := some.inj (hthere.symm.trans he')
    refine ⟨?_, rfl, .inr ⟨rfl, ?_⟩⟩
    · cases place with
      | nil =>
        obtain rfl := some.inj hthere
        obtain rfl := some.inj hroot
        exact ⟨Tag.grown_of_setAttribute hset' hlacked (hgained.mono fun _ => trivial), _, [], .refl _, rfl⟩
      | cons i place =>
        have hgained : Gained False (androidName key) := hgained.mono (cons_ne_nil i place)
        obtain ⟨htag, hinner⟩ := hgrown _ (Tag.grown_of_setAttribute hset' hlacked hgained) (.refl _)
        exact ⟨htag.mono fun _ => Gained.mono False.elim, root.inner, [], hinner, rfl⟩
    · obtain ⟨-, -, -, q, hattributes⟩ := Tag.setAttribute_of_lacked hset' hlacked
      simp only [Element.weight, hattributes, length_append, length_singleton] at hweight ⊢
      omega
  | @toRoot text hadded =>
    rw [LayoutFile.addComment_root_eq_ok hadded]
    refine ⟨⟨.refl _, _, [text], .refl _, rfl⟩, rfl, .inr ⟨rfl, ?_⟩⟩
    simp only [Element.weight, Content.weight_insertComment]
    omega

/-! ## Views -/

/-- What becomes of a view at a place: it keeps its tag, its children and its attributes, and gets no attribute but
an id, and at the root those that make it react to touch. Comments are added at the root only. -/
structure ViewKept (place : Place) (e e' : Element) : Prop where
  name : e'.tag.name = e.tag.name
  space : e'.tag.space = e.tag.space
  children : e'.inner.elements.length = e.inner.elements.length
  comments : ∃ texts, e'.inner.comments = texts ++ e.inner.comments ∧ (place ≠ [] → texts = [])
  kept : ∀ key value, androidAttribute? e key = some value → androidAttribute? e' key = some value
  gained : ∀ key, hasAttribute e' key = true →
    hasAttribute e key = true ∨ key = idAttribute ∨ place = [] ∧ key ∈ Repair.touchAttributes

section Kept

variable {atRoot : Prop} {new : Option Text × Text → Prop}

variable {e e' : Element} {key : Text}

theorem androidAttribute?_of_grown (h : e.tag.Grown new e'.tag) {value}
    (hkey : androidAttribute? e key = some value) : androidAttribute? e' key = some value := by
  obtain ⟨gained, hattributes, -⟩ := h.attributes
  rw [androidAttribute?_eq] at hkey ⊢
  obtain ⟨x, hx, rfl⟩ := map_eq_some_iff.1 hkey
  rw [hattributes, find?_append, hx]
  rfl

theorem hasAttribute_of_grown (h : e.tag.Grown (Gained atRoot) e'.tag) (hkey : hasAttribute e' key = true) :
    hasAttribute e key = true ∨ key = idAttribute ∨ atRoot ∧ key ∈ Repair.touchAttributes := by
  refine Classical.or_iff_not_imp_left.2 fun hnot => ?_
  have hlacked := hasAttribute_eq_false.1 (Bool.not_eq_true _ ▸ hnot)
  obtain ⟨gained, hattributes, hnew, -⟩ := h.attributes
  have hx : ∃ x ∈ e'.tag.attributes, x.expanded = androidName key := by
    by_contra hno
    refine Bool.false_ne_true ((hasAttribute_eq_false.2 fun x hx heq => hno ⟨x, hx, heq⟩).symm.trans hkey)
  obtain ⟨x, hx, heq⟩ := hx
  rw [hattributes] at hx
  rcases mem_append.1 hx with hx | hx
  · exact absurd heq (hlacked x hx)
  · obtain ⟨key', hname, hkey'⟩ := hnew x hx
    obtain rfl : key = key' := (Prod.mk.inj (heq.symm.trans hname)).2
    exact hkey'

theorem elementAt?_of_grown {x y : Element} (h : x.inner.Grown new y.inner) (i : Nat) (place : Place) :
    Option.Rel (fun e e' => e.tag.Grown new e'.tag ∧ e.inner.Grown new e'.inner)
      (elementAt? x (i :: place)) (elementAt? y (i :: place)) := by
  induction place generalizing x y i with
  | nil =>
    rw [elementAt?_cons, elementAt?_cons]
    exact rel_bind (h.getElem?_elements i) fun _ _ hi => .some hi
  | cons j place ih =>
    rw [elementAt?_cons, elementAt?_cons]
    exact rel_bind (h.getElem?_elements i) fun _ _ hi => ih hi.2 j

end Kept

theorem LayoutFile.Extended.viewKept (h : a.Extended b) (place : Place) :
    Option.Rel (ViewKept place) (elementAt? a.document.root place) (elementAt? b.document.root place) := by
  obtain ⟨c, texts, hgrown, hinner⟩ := h.root.inner
  cases place with
  | nil =>
    refine .some ⟨h.root.tag.name, h.root.tag.space, ?_, ⟨texts.reverse, ?_, fun hne => absurd rfl hne⟩,
      fun _ _ => androidAttribute?_of_grown h.root.tag, fun key hkey => ?_⟩
    · rw [hinner, Content.elements_withComments, hgrown.length_elements]
    · rw [hinner, Content.comments_withComments, hgrown.comments]
    · simpa using hasAttribute_of_grown h.root.tag hkey
  | cons i place =>
    have hsame : elementAt? b.document.root (i :: place) = elementAt? ⟨b.document.root.tag, c⟩ (i :: place) := by
      rw [elementAt?_cons, elementAt?_cons, hinner, Content.elements_withComments]
    rw [hsame]
    refine rel_imp (elementAt?_of_grown (by exact hgrown) i place) ?_
    rintro e e' ⟨htag, hinner'⟩
    refine ⟨htag.name, htag.space, hinner'.length_elements, ⟨[], hinner'.comments, fun _ => rfl⟩,
      fun _ _ => androidAttribute?_of_grown htag, fun key hkey => ?_⟩
    exact (hasAttribute_of_grown htag hkey).imp_right (Or.imp_right fun hroot => hroot.1.elim)

end Rebind.Layout
