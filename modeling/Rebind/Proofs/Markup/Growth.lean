/-
Trees that only gain. `weight` counts what can be gained.
-/
import Mathlib.Data.List.Nodup
import Mathlib.Data.List.TakeWhile
import Rebind.Markup.Update

namespace Rebind.Markup

open List Option

variable {new : Option Text × Text → Prop}

/-! ## Tags -/

/-- The tag keeps its name, its declarations and its attributes. What attributes it gains are `new` ones, stand behind
the others, and have names that the tag lacked. -/
structure Tag.Grown (new : Option Text × Text → Prop) (a b : Tag) : Prop where
  name : b.name = a.name
  space : b.space = a.space
  declarations : a.declarations <+: b.declarations
  attributes : ∃ gained, b.attributes = a.attributes ++ gained ∧ (∀ x ∈ gained, new x.expanded) ∧
    (gained.map Attribute.expanded).Nodup ∧ ∀ x ∈ gained, ∀ y ∈ a.attributes, y.expanded ≠ x.expanded

namespace Tag.Grown

variable {new : Option Text × Text → Prop} {a b c : Tag}

theorem refl (a : Tag) : a.Grown new a := ⟨rfl, rfl, prefix_rfl, [], by simp⟩

theorem trans (h : a.Grown new b) (h' : b.Grown new c) : a.Grown new c := by
  obtain ⟨gained, hb, hnew, hnodup, hlacked⟩ := h.attributes
  obtain ⟨gained', hc, hnew', hnodup', hlacked'⟩ := h'.attributes
  refine ⟨h'.name.trans h.name, h'.space.trans h.space, h.declarations.trans h'.declarations,
    gained ++ gained', by rw [hc, hb, append_assoc], fun x hx => ?_, ?_, fun x hx y hy => ?_⟩
  · exact (mem_append.1 hx).elim (hnew x) (hnew' x)
  · rw [map_append, nodup_append]
    refine ⟨hnodup, hnodup', fun n hn m hm => ?_⟩
    obtain ⟨y, hy, rfl⟩ := mem_map.1 hn
    obtain ⟨x, hx, rfl⟩ := mem_map.1 hm
    exact hlacked' x hx y (by rw [hb]; exact mem_append_right _ hy)
  · rcases mem_append.1 hx with hx | hx
    · exact hlacked x hx y hy
    · exact hlacked' x hx y (by rw [hb]; exact mem_append_left _ hy)

theorem mono {new'} (h : a.Grown new b) (himp : ∀ n, new n → new' n) : a.Grown new' b := by
  obtain ⟨gained, hb, hnew, hrest⟩ := h.attributes
  exact ⟨h.name, h.space, h.declarations, gained, hb, fun x hx => himp _ (hnew x hx), hrest⟩

end Tag.Grown

variable {tag tag' : Tag} {around : List Tag} {handedOut handedOut' : Nat} {uri name value : Text}

theorem Tag.putAttribute_of_lacked {a} (h : ∀ b ∈ tag.attributes, b.expanded ≠ a.expanded) :
    tag.putAttribute a = { tag with attributes := tag.attributes ++ [a] } := by
  have hnone : tag.attributes.dropWhile (fun b => !decide (b.expanded = a.expanded)) = [] := by
    rw [dropWhile_eq_nil_iff]
    intro b hb
    simpa using h b hb
  simp only [putAttribute, hnone]

theorem Tag.setAttribute_of_lacked (h : tag.setAttribute around handedOut uri name value = .ok (tag', handedOut'))
    (hlacked : ∀ b ∈ tag.attributes, b.expanded ≠ (some uri, name)) :
    tag'.name = tag.name ∧ tag'.space = tag.space ∧ tag.declarations <+: tag'.declarations ∧
      ∃ q, tag'.attributes = tag.attributes ++ [⟨⟨some q, name⟩, some uri, value⟩] := by
  unfold Tag.setAttribute at h
  split at h
  · cases h
  · split at h
    · cases h
    · split at h
      · next q _ =>
        rw [putAttribute_of_lacked hlacked] at h
        cases h
        exact ⟨rfl, rfl, prefix_rfl, q, rfl⟩
      · extract_lets n declaring at h
        rw [putAttribute_of_lacked (by exact hlacked)] at h
        cases h
        exact ⟨rfl, rfl, prefix_append _ _, _, rfl⟩

theorem Tag.grown_of_setAttribute
    (h : tag.setAttribute around handedOut uri name value = .ok (tag', handedOut'))
    (hlacked : ∀ b ∈ tag.attributes, b.expanded ≠ (some uri, name)) (hnew : new (some uri, name)) :
    tag.Grown new tag' := by
  obtain ⟨hname, hspace, hdeclarations, q, hattributes⟩ := setAttribute_of_lacked h hlacked
  refine ⟨hname, hspace, hdeclarations, _, hattributes, ?_, nodup_singleton _, ?_⟩
  · rintro x hx
    rw [mem_singleton.1 hx]
    exact hnew
  · rintro x hx y hy
    rw [mem_singleton.1 hx]
    exact hlacked y hy

/-! ## Contents -/

/-- A content grows when tags in it do, while all items stay in their order. -/
inductive Content.Grown (new : Option Text × Text → Prop) : Content → Content → Prop where
  | done : Grown new .done .done
  | chars {a b : Content} (text : Text) (rest : Grown new a b) : Grown new (.chars text a) (.chars text b)
  | cdata {a b : Content} (text : Text) (rest : Grown new a b) : Grown new (.cdata text a) (.cdata text b)
  | comment {a b : Content} (text : Text) (rest : Grown new a b) : Grown new (.comment text a) (.comment text b)
  | instruction {a b : Content} (target : Text) (data : Option Text) (rest : Grown new a b) :
      Grown new (.instruction target data a) (.instruction target data b)
  | element {tag tag' : Tag} {inner inner' a b : Content} (grown : tag.Grown new tag')
      (within : Grown new inner inner') (rest : Grown new a b) :
      Grown new (.element tag inner a) (.element tag' inner' b)

def Content.weight : Content → Nat
  | .done => 0
  | .chars _ rest => rest.weight
  | .cdata _ rest => rest.weight
  | .comment _ rest => rest.weight + 1
  | .instruction _ _ rest => rest.weight
  | .element tag inner rest => tag.attributes.length + inner.weight + rest.weight

/-- How many attributes the element has, and attributes and comments are in it. -/
def Element.weight (e : Element) : Nat := e.tag.attributes.length + e.inner.weight

namespace Content.Grown

variable {new : Option Text × Text → Prop} {a b c : Content}

theorem refl (a : Content) : a.Grown new a := by
  induction a with
  | done => exact .done
  | chars text _ ih => exact .chars text ih
  | cdata text _ ih => exact .cdata text ih
  | comment text _ ih => exact .comment text ih
  | instruction target data _ ih => exact .instruction target data ih
  | element tag _ _ ihInner ihRest => exact .element (.refl tag) ihInner ihRest

theorem trans (h : a.Grown new b) (h' : b.Grown new c) : a.Grown new c := by
  induction h generalizing c with
  | done => exact h'
  | chars text _ ih =>
    cases h' with
    | chars _ h' => exact .chars text (ih h')
  | cdata text _ ih =>
    cases h' with
    | cdata _ h' => exact .cdata text (ih h')
  | comment text _ ih =>
    cases h' with
    | comment _ h' => exact .comment text (ih h')
  | instruction target data _ ih =>
    cases h' with
    | instruction _ _ h' => exact .instruction target data (ih h')
  | element htag _ _ ihInner ihRest =>
    cases h' with
    | element htag' hinner' hrest' => exact .element (htag.trans htag') (ihInner hinner') (ihRest hrest')

theorem getElem?_elements (h : a.Grown new b) (i : Nat) : Option.Rel
    (fun x y => x.tag.Grown new y.tag ∧ x.inner.Grown new y.inner) a.elements[i]? b.elements[i]? := by
  induction h generalizing i with
  | done => exact .none
  | chars _ _ ih | cdata _ _ ih | comment _ _ ih | instruction _ _ _ ih => exact ih i
  | element htag hinner _ _ ih =>
    cases i with
    | zero => exact .some ⟨htag, hinner⟩
    | succ i => exact ih i

theorem length_elements (h : a.Grown new b) : b.elements.length = a.elements.length := by
  induction h with
  | done => rfl
  | chars _ _ ih | cdata _ _ ih | comment _ _ ih | instruction _ _ _ ih => exact ih
  | element _ _ _ _ ih => rw [Content.elements, Content.elements, length_cons, length_cons, ih]

theorem comments (h : a.Grown new b) : b.comments = a.comments := by
  induction h with
  | done => rfl
  | chars _ _ ih | cdata _ _ ih | instruction _ _ _ ih | element _ _ _ _ ih => exact ih
  | comment text _ ih => rw [Content.comments, Content.comments, ih]

theorem leading (h : a.Grown new b) : b.leading = a.leading := by
  induction h with
  | done | comment _ _ _ | instruction _ _ _ _ | element _ _ _ _ _ => rfl
  | chars text _ ih | cdata text _ ih => rw [Content.leading, Content.leading, ih]

end Content.Grown

/-! ## A change of one element -/

/-- A content grows by a change of one element. -/
theorem Content.modify?_spec {f i} {c c' : Content} (h : c.modify? f i = some c') :
    ∃ x x', c.elements[i]? = some x ∧ f x = some x' ∧ c'.elements = c.elements.set i x' ∧
      c'.weight + x.weight = c.weight + x'.weight ∧
      ∀ new, x.tag.Grown new x'.tag → x.inner.Grown new x'.inner → c.Grown new c' := by
  induction c generalizing i c' with
  | done => simp [modify?] at h
  | chars text rest ih | cdata text rest ih | comment text rest ih | instruction target data rest ih =>
    simp only [modify?, map_eq_some_iff] at h
    obtain ⟨rest', hrest, rfl⟩ := h
    obtain ⟨x, x', hx, hf, helements, hweight, hgrown⟩ := ih hrest
    refine ⟨x, x', hx, hf, helements, ?_, fun new htag hinner => ?_⟩
    · simp only [weight]
      omega
    · constructor
      exact hgrown new htag hinner
  | element tag inner rest _ ih =>
    cases i with
    | zero =>
      simp only [modify?, map_eq_some_iff] at h
      obtain ⟨x', hf, rfl⟩ := h
      refine ⟨⟨tag, inner⟩, x', rfl, hf, rfl, ?_, fun new htag hinner => .element htag hinner (.refl rest)⟩
      simp only [weight, Element.weight]
      omega
    | succ i =>
      simp only [modify?, map_eq_some_iff] at h
      obtain ⟨rest', hrest, rfl⟩ := h
      obtain ⟨x, x', hx, hf, helements, hweight, hgrown⟩ := ih hrest
      refine ⟨x, x', hx, hf, by rw [elements, elements, helements]; rfl, ?_, fun new htag hinner => ?_⟩
      · simp only [weight]
        omega
      · exact .element (.refl tag) (.refl inner) (hgrown new htag hinner)

/-! ## A new comment -/

section Comment

variable {new : Option Text × Text → Prop} (text tail : Text)

theorem Content.elements_insertComment (c : Content) : (c.insertComment text tail).elements = c.elements := by
  fun_induction insertComment text tail c with
  | case1 t rest ih | case2 t rest ih => exact ih
  | case3 rest _ _ =>
    split <;> rfl

theorem Content.comments_insertComment (c : Content) : (c.insertComment text tail).comments = text :: c.comments := by
  fun_induction insertComment text tail c with
  | case1 t rest ih | case2 t rest ih => exact ih
  | case3 rest _ _ =>
    split <;> rfl

theorem Content.weight_insertComment (c : Content) : (c.insertComment text tail).weight = c.weight + 1 := by
  fun_induction insertComment text tail c with
  | case1 t rest ih | case2 t rest ih => exact ih
  | case3 rest _ _ =>
    split <;> rfl

theorem Content.Grown.of_insertComment {c d : Content} (h : (c.insertComment text tail).Grown new d) :
    ∃ c', c.Grown new c' ∧ d = c'.insertComment text tail := by
  fun_induction insertComment text tail c generalizing d with
  | case1 t rest ih =>
    cases h with
    | chars _ h =>
      obtain ⟨c', hgrown, rfl⟩ := ih h
      exact ⟨.chars t c', .chars t hgrown, rfl⟩
  | case2 t rest ih =>
    cases h with
    | cdata _ h =>
      obtain ⟨c', hgrown, rfl⟩ := ih h
      exact ⟨.cdata t c', .cdata t hgrown, rfl⟩
  | case3 rest hchars hcdata =>
    cases h with
    | @comment _ b _ h =>
      have hrest : ∃ c', rest.Grown new c' ∧ b = if tail.isEmpty then c' else .chars tail c' := by
        split at h
        · next hempty => exact ⟨b, h, by rw [if_pos hempty]⟩
        · next hempty =>
          cases h with
          | chars _ h => exact ⟨_, h, by rw [if_neg hempty]⟩
      obtain ⟨c', hgrown, rfl⟩ := hrest
      refine ⟨c', hgrown, ?_⟩
      cases hgrown with
      | chars t _ => exact absurd rfl (hchars t _)
      | cdata t _ => exact absurd rfl (hcdata t _)
      | done | comment _ _ | instruction _ _ _ | element _ _ _ => rfl

end Comment

/-- The content with comments added one after the other. -/
def Content.withComments (texts : List Text) (c : Content) : Content :=
  texts.foldl (fun c text => c.insertComment text c.leading) c

namespace Content

@[simp] theorem elements_withComments (texts : List Text) (c : Content) :
    (c.withComments texts).elements = c.elements := by
  induction texts generalizing c with
  | nil => rfl
  | cons text texts ih => exact (ih _).trans (elements_insertComment text _ c)

theorem comments_withComments (texts : List Text) (c : Content) :
    (c.withComments texts).comments = texts.reverse ++ c.comments := by
  induction texts generalizing c with
  | nil => rfl
  | cons text texts ih =>
    refine (ih _).trans ?_
    rw [comments_insertComment, reverse_cons, append_assoc]
    rfl

theorem Grown.of_withComments {texts} {c d : Content}
    (h : (c.withComments texts).Grown new d) : ∃ c', c.Grown new c' ∧ d = c'.withComments texts := by
  induction texts generalizing c with
  | nil => exact ⟨d, h, rfl⟩
  | cons text texts ih =>
    obtain ⟨c', hgrown, rfl⟩ := ih h
    obtain ⟨c'', hgrown', rfl⟩ := hgrown.of_insertComment text c.leading
    refine ⟨c'', hgrown', ?_⟩
    rw [← hgrown'.leading]
    rfl

end Content

/-- The element grows, and has comments added to its content. -/
structure Element.Grown (new inside : Option Text × Text → Prop) (a b : Element) : Prop where
  tag : a.tag.Grown new b.tag
  inner : ∃ c texts, a.inner.Grown inside c ∧ b.inner = c.withComments texts

namespace Element.Grown

variable {new inside : Option Text × Text → Prop} {a b c : Element}

theorem refl (a : Element) : a.Grown new inside a := ⟨.refl _, a.inner, [], .refl _, rfl⟩

theorem trans (h : a.Grown new inside b) (h' : b.Grown new inside c) : a.Grown new inside c := by
  obtain ⟨d, texts, hd, hb⟩ := h.inner
  obtain ⟨d', texts', hd', hc⟩ := h'.inner
  rw [hb] at hd'
  obtain ⟨d'', hd'', rfl⟩ := hd'.of_withComments
  refine ⟨h.tag.trans h'.tag, d'', texts ++ texts', hd.trans hd'', ?_⟩
  rw [hc, Content.withComments, Content.withComments, Content.withComments, foldl_append]

end Element.Grown

end Rebind.Markup
