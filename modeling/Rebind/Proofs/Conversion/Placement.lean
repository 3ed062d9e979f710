/-
Where the changes of a conversion stand in the file.
-/
import Rebind.Proofs.Binding.Extraction
import Rebind.Proofs.Conversion.Changes
import Rebind.Proofs.Conversion.Phrases
import Rebind.Proofs.Java.Statements
import Rebind.Proofs.Java.Uses

namespace Rebind.Conversion

open Binding Java Text List Option Except

variable {call : Match Unit} {cs : List Change} {c : Change} {a : Annotation} {name : Text}

/-! ## The changes of a class -/

/-- The span lies in the text and holds a mark, so it is never just a use. -/
def Marked (masked : Text) (s : Span) : Prop :=
  s.stop ≤ masked.length ∧ ∃ i, s.start ≤ i ∧ i < s.stop ∧ ∃ c ∈ marks, masked[i]? = some c

variable {masked : Text} {s : Span} {options : Options} {unit : CompilationUnit}

theorem Marked.start_lt (h : Marked masked s) : s.start < s.stop := by
  obtain ⟨-, i, h1, h2, -⟩ := h
  omega

theorem marked_semicolon {i} (hs : s.stop ≤ masked.length) (h : s.start ≤ i) (h' : i < s.stop)
    (hc : masked[i]? = some ';') : Marked masked s :=
  ⟨hs, i, h, h', ';', by decide, hc⟩

/-- What is taken out holds a mark. A content statement is one of a method of the class, and a use is one
of a word in the class. -/
def Change.Placed (masked : Text) (type : TypeDecl) : Change → Prop
  | .removal s => Marked masked s
  | .content s => ∃ m ∈ type.methods, ∃ b, m.body = some b ∧ ∃ c : Statement, c.span = s ∧
      c.Placed masked (b.opening + 1) b.closing
  | .use s _ => ∃ name, (∀ c ∈ name, isWord c = true) ∧
      UseOf masked (type.body.opening + 1) type.body.closing name s

theorem mem_gather {α g c} : ∀ {l : List α}
    {cs}, gather g l = .ok cs → c ∈ cs → ∃ a ∈ l, ∃ ds, g a = .ok ds ∧ c ∈ ds
  | [], cs, h, hc => by
    simp only [gather, ok.injEq] at h
    simp [← h] at hc
  | a :: l, cs, h, hc => by
    obtain ⟨ds, hds, h⟩ := bind_eq_ok.1 h
    obtain ⟨es, hes, rfl⟩ := bind_pure_eq_ok.1 h
    rcases mem_append.1 hc with hc | hc
    · exact ⟨a, by simp, ds, hds, hc⟩
    · obtain ⟨b, hb, h⟩ := mem_gather hes hc
      exact ⟨b, by simp [hb], h⟩

theorem mem_of_gather {α g a ds c} : ∀ {l : List α} {cs}, gather g l = .ok cs → a ∈ l → g a = .ok ds → c ∈ ds → c ∈ cs
  | b :: l, cs, h, ha, hds, hc => by
    obtain ⟨bs, hbs, h⟩ := bind_eq_ok.1 h
    obtain ⟨es, hes, rfl⟩ := bind_pure_eq_ok.1 h
    rcases mem_cons.1 ha with rfl | ha
    · rw [hds, ok.injEq] at hbs
      exact mem_append_left _ (hbs ▸ hc)
    · exact mem_append_right _ (mem_of_gather hes ha hds hc)

theorem Plan.removal_of_mem_bindCallChanges {plan : Plan} {b}
    (hcs : plan.bindCallChanges b call = .ok cs) (hc : c ∈ cs) :
    ∃ closing k, partner plan.unit.masked (call.stop - 1) = .ok closing ∧
      skipBlanks plan.unit.masked (closing + 1) b.closing = k ∧ k < b.closing ∧ plan.unit.masked[k]? = some ';' ∧
      (∃ d ∈ ['{', '}', ';'], (dropBlanksEnd (slice plan.unit.masked b.opening call.start)).getLast? = some d) ∧
      c = .removal ⟨call.start, k + 1⟩ := by
  simp only [bindCallChanges] at hcs
  obtain ⟨closing, hclosing, hcs⟩ := bind_eq_ok.1 hcs
  split at hcs
  · next hif =>
    rw [pure_eq_ok] at hcs
    subst hcs
    simp only [Bool.and_eq_true, decide_eq_true_eq, beq_iff_eq, Option.any_eq_true] at hif
    obtain ⟨⟨⟨d, hd, hmem⟩, hlt⟩, hsemicolon⟩ := hif
    exact ⟨closing, _, hclosing, rfl, hlt, hsemicolon, ⟨d, contains_iff_mem.1 hmem, hd⟩, mem_singleton.1 hc⟩
  · rw [pure_eq_ok] at hcs
    subst hcs
    cases hc

/-- All that a plan can change. -/
inductive Plan.Makes (plan : Plan) : Change → Prop where
  | annotated {a : Annotation} (ha : a ∈ plan.bindings.annotations) : Makes plan (.removal a.span)
  | content {screen : Screen} {init : Method} {content : Statement}
      (ha : plan.anchor = .content screen init content) : Makes plan (.content content.span)
  | use {f : FieldBinding} {us : List Span} {u : Span} (hf : f ∈ plan.bindings.fields)
      (hus : plan.visibleUses f.name = .ok us) (hu : u ∈ us) : Makes plan (.use u f.id)
  | declaration {name : Text} {f : Field} (hf : plan.bindings.declarations.get? name = some f) :
      Makes plan (.removal f.span)
  | bindCall {m : Method} {b : Block} {call : Match Unit} {cs : List Change} {c : Change}
      (hsupported : plan.bindings.unsupported = []) (hm : m ∈ plan.type.methods) (hb : m.body = some b)
      (hcall : call ∈ allMatches plan.unit.masked b.opening b.closing Before.unqualified bindCall?)
      (hcs : plan.bindCallChanges b call = .ok cs) (hc : c ∈ cs) : Makes plan c
  | unbinder {f : Field} (hf : f ∈ plan.type.fields) : Makes plan (.removal f.span)
  | unbinderStatement {f : Field} {m : Method} {b : Block} {name : Text} {s : Span}
      (hsupported : plan.bindings.unsupported = []) (hf : f ∈ plan.type.fields) (hname : name ∈ f.names)
      (hm : m ∈ plan.type.methods) (hb : m.body = some b)
      (hs : s ∈ unbinderStatements plan.unit.masked name b) : Makes plan (.removal s)

namespace Plan

variable {plan : Plan} {cs : List Change} {c : Change}

theorem makes_of_mem_holderChanges (hcs : plan.holderChanges = .ok cs) (hc : c ∈ cs) : plan.Makes c := by
  simp only [holderChanges] at hcs
  split at hcs
  · next screen init content ha =>
    obtain ⟨i, -, hcs⟩ := bind_eq_ok.1 hcs
    split at hcs
    · rw [pure_eq_ok] at hcs
      subst hcs
      simp at hc
    · obtain ⟨uses, huses, rfl⟩ := bind_pure_eq_ok.1 hcs
      simp only [cons_append, mem_cons, mem_append, mem_flatMap] at hc
      rcases hc with rfl | hc | ⟨f, hf, hc⟩
      · exact .content ha
      · obtain ⟨f, hf, ds, hds, hc⟩ := mem_gather huses hc
        obtain ⟨us, hus, rfl⟩ := bind_pure_eq_ok.1 hds
        obtain ⟨u, hu, rfl⟩ := List.mem_map.1 hc
        exact .use hf hus hu
      · simp only [declarationChanges, List.mem_map, mem_toList] at hc
        obtain ⟨g, hg, rfl⟩ := hc
        exact .declaration hg
  · rw [pure_eq_ok] at hcs
    subst hcs
    simp at hc

theorem makes_of_mem_lookupChanges (hc : c ∈ plan.lookupChanges) : plan.Makes c := by
  simp only [lookupChanges] at hc
  split at hc
  · next screen init content ha =>
    split at hc
    · simp at hc
    · split at hc
      · simp at hc
      · rw [mem_singleton.1 hc]
        exact .content ha
  · simp at hc

theorem makes_of_mem_bindingChanges (hcs : plan.bindingChanges = .ok cs) (hc : c ∈ cs) : plan.Makes c := by
  simp only [bindingChanges] at hcs
  split at hcs
  · next hempty =>
    have hsupported : plan.bindings.unsupported = [] := List.isEmpty_iff.1 hempty
    obtain ⟨calls, hcalls, rfl⟩ := bind_pure_eq_ok.1 hcs
    simp only [mem_append, mem_flatMap, mem_filter] at hc
    rcases hc with hc | ⟨f, ⟨hf, -⟩, hc⟩
    · obtain ⟨m, hm, ds, hds, hc⟩ := mem_gather hcalls hc
      simp only [bindCallsChanges] at hds
      split at hds
      · rw [pure_eq_ok] at hds
        subst hds
        simp at hc
      · next b hb =>
        obtain ⟨call, hcall, es, hes, hc⟩ := mem_gather hds hc
        exact .bindCall hsupported hm hb hcall hes hc
    · simp only [unbinderChanges, mem_cons, mem_flatMap, mem_filterMap, List.mem_map] at hc
      rcases hc with rfl | ⟨name, hname, b, ⟨m, hm, hb⟩, s, hs, rfl⟩
      · exact .unbinder hf
      · exact .unbinderStatement hsupported hf hname hm hb hs
  · rw [pure_eq_ok] at hcs
    subst hcs
    simp at hc

theorem makes_of_mem_changes (hcs : plan.changes = .ok cs) (hc : c ∈ cs) : plan.Makes c := by
  obtain ⟨converted, hconverted, hcs⟩ := bind_eq_ok.1 hcs
  obtain ⟨unbound, hunbound, rfl⟩ := bind_pure_eq_ok.1 hcs
  simp only [mem_append, List.mem_map] at hc
  rcases hc with (⟨a, ha, rfl⟩ | hc) | hc
  · exact .annotated ha
  · simp only [modeChanges] at hconverted
    split at hconverted
    · exact makes_of_mem_holderChanges hconverted hc
    · rw [pure_eq_ok] at hconverted
      subst hconverted
      exact makes_of_mem_lookupChanges hc
  · exact makes_of_mem_bindingChanges hunbound hc

end Plan

/-- A plan for a class of the file with the text, as it was read. -/
structure Plan.Placed (t : Text) (plan : Plan) : Prop where
  text_eq : plan.unit.text = t
  unit : plan.unit.Placed
  type_mem : plan.type ∈ plan.unit.types
  bindings_eq : plan.bindings = bindingsOf plan.unit plan.type
  anchor_eq : Anchor.locate plan.unit plan.type = .ok plan.anchor

namespace Plan.Placed

variable {t : Text} {plan : Plan} (h : plan.Placed t)

include h

theorem length_masked : plan.unit.masked.length = t.length := by
  rw [h.unit.masked_eq, length_mask, h.text_eq]

theorem type : plan.type.Placed plan.unit.masked := h.unit.types _ h.type_mem

theorem body : plan.type.body.opening < plan.type.body.closing ∧ plan.type.body.closing < plan.unit.masked.length :=
  partner_lt_length h.type.braces

theorem drawn : plan.bindings.Drawn plan.type := h.bindings_eq ▸ drawn_bindingsOf _ _

theorem annotation (ha : a ∈ plan.bindings.annotations) :
    a.Within plan.unit.masked (plan.type.body.opening + 1) plan.type.body.closing := by
  rcases h.drawn.annotations a ha with ⟨f, hf, ha⟩ | ⟨m, hm, ha⟩
  · obtain ⟨h1, -, h3, -, h4⟩ := h.type.field hf
    exact (h4.annotations a ha).widen (by omega) (by omega)
  · obtain ⟨h1, -, h3, h4⟩ := h.type.method hm
    exact (h4.annotations a ha).widen (by omega) (by omega)

theorem marked_annotation (ha : a ∈ plan.bindings.annotations) : Marked plan.unit.masked a.span := by
  have hwithin := h.annotation ha
  have := hwithin.stop_le
  have := h.body
  exact ⟨by omega, a.span.start, Nat.le_refl _, hwithin.start_lt, '@', by decide, hwithin.at_sign⟩

theorem marked_field {f} (hf : f ∈ plan.type.fields) : Marked plan.unit.masked f.span := by
  obtain ⟨h1, h2, h3, -, h4⟩ := h.type.field hf
  have := h.body
  exact marked_semicolon (by omega) (by omega) (by omega) h4.semicolon

variable {screen : Screen} {init m : Method} {b : Block}

theorem content_mem {content} (ha : plan.anchor = .content screen init content) :
    init ∈ plan.type.methods ∧ ∃ ss, statements plan.unit init = .ok ss ∧ content ∈ ss := by
  have hlocate := h.anchor_eq
  rw [ha] at hlocate
  simp only [Anchor.locate] at hlocate
  split at hlocate
  · simp at hlocate
  · next screen' method hinit =>
    obtain ⟨ss, hss, hlocate⟩ := bind_eq_ok.1 hlocate
    have hmem : method ∈ plan.type.methods := by
      simp only [Anchor.initOf?, or_eq_some_iff, map_eq_some_iff] at hinit
      have : ∃ name arity, method ∈ plan.type.methodsNamed name arity := by
        rcases hinit with ⟨m, hm, heq⟩ | ⟨-, m, hm, heq⟩ <;>
          exact ⟨_, _, mem_of_mem_head? (by simpa [(Prod.mk.inj heq).2] using hm)⟩
      obtain ⟨name, arity, hm⟩ := this
      exact (mem_filter.1 hm).1
    split at hlocate
    · next s hs =>
      obtain ⟨-, rfl, rfl⟩ := hlocate
      exact ⟨hmem, ss, hss, mem_of_find?_eq_some hs⟩
    · simp at hlocate

theorem content {screen init content}
    (ha : plan.anchor = .content screen init content) :
    init ∈ plan.type.methods ∧ ∃ b, init.body = some b ∧ content.Placed plan.unit.masked (b.opening + 1) b.closing := by
  obtain ⟨hm, ss, hss, hcontent⟩ := h.content_mem ha
  refine ⟨hm, ?_⟩
  simp only [statements] at hss
  split at hss
  · simp only [ok.injEq] at hss
    subst hss
    cases hcontent
  · next b hb => exact ⟨b, hb, statementsFrom_spec hss content hcontent⟩

theorem content_placed {content} (ha : plan.anchor = .content screen init content) :
    (Change.content content.span).Placed plan.unit.masked plan.type := by
  obtain ⟨hm, b, hb, hc⟩ := h.content ha
  exact ⟨init, hm, b, hb, content, rfl, hc⟩

theorem use_placed {f : FieldBinding} {us u} (hf : f ∈ plan.bindings.fields)
    (hus : plan.visibleUses f.name = .ok us) (hu : u ∈ us) :
    (Change.use u f.id).Placed plan.unit.masked plan.type := by
  obtain ⟨g, hg⟩ := h.drawn.fields f hf
  obtain ⟨hg, hname⟩ := h.drawn.declarations _ g hg
  have hplaced := (h.type.field hg).2.2.2.2
  obtain ⟨hidden, -, rfl⟩ := bind_pure_eq_ok.1 hus
  have hbody := h.body
  refine ⟨f.name, hname ▸ hplaced.name_word, ?_⟩
  exact references_spec (by omega) (by omega) (hname ▸ hplaced.name_ne_nil) (mem_filter.1 hu).1

theorem bindCall_within (hm : m ∈ plan.type.methods)
    (hb : m.body = some b) (hcall : call ∈ allMatches plan.unit.masked b.opening b.closing Before.unqualified bindCall?)
    (hcs : plan.bindCallChanges b call = .ok cs) (hc : c ∈ cs) :
    ∃ s, c = .removal s ∧ Marked plan.unit.masked s ∧ b.opening ≤ s.start ∧ s.stop ≤ b.closing := by
  obtain ⟨h1, h2, h3, h4⟩ := h.type.methodBody hm hb
  have hbody := h.body
  have hcall := allMatches_spec hcall (by omega) (by omega)
  have hstart := hcall.start_le
  obtain ⟨closing, k, hclosing, hk, hlt, hsemicolon, -, rfl⟩ := removal_of_mem_bindCallChanges hcs hc
  have hclose := (partner_lt_length hclosing).1
  have hskip : closing + 1 ≤ k := hk ▸ le_skipBlanks ..
  refine ⟨_, rfl, ?_, hcall.le_start, hlt⟩
  exact marked_semicolon (by simp only; omega) (by simp only; omega) (Nat.lt_succ_self _) hsemicolon

theorem unbinderStatement_within {s} (hm : m ∈ plan.type.methods) (hb : m.body = some b)
    (hs : s ∈ unbinderStatements plan.unit.masked name b) :
    Marked plan.unit.masked s ∧ b.opening ≤ s.start ∧ s.stop ≤ b.closing := by
  obtain ⟨h1, h2, h3, h4⟩ := h.type.methodBody hm hb
  have hbody := h.body
  obtain ⟨hstart, -, hstop, _, _, htokens, hspelled⟩ := spelled_of_mem_unbinderStatements (by omega) (by omega) hs
  obtain ⟨i, hi, hi', hc⟩ := mem_slice.1 (hspelled.spaced.mem_of_mem htokens.semicolon_mem (mem_singleton.2 rfl))
  exact ⟨marked_semicolon (by omega) hi hi' hc, hstart, hstop⟩

/-- All that a plan changes stands where it should. -/
theorem changes (hc : plan.Makes c) : c.Placed plan.unit.masked plan.type := by
  cases hc with
  | annotated ha => exact h.marked_annotation ha
  | content ha => exact h.content_placed ha
  | use hf hus hu => exact h.use_placed hf hus hu
  | declaration hf => exact h.marked_field (h.drawn.declarations _ _ hf).1
  | bindCall _ hm hb hcall hcs hc =>
    obtain ⟨s, rfl, hmarked, -⟩ := h.bindCall_within hm hb hcall hcs hc
    exact hmarked
  | unbinder hf => exact h.marked_field hf
  | unbinderStatement _ _ _ hm hb hs => exact (h.unbinderStatement_within hm hb hs).1

end Plan.Placed

theorem exists_plan_of_mem_classChanges {type} (hunit : unit.Placed) (htype : type ∈ unit.types)
    (hcs : classChanges options unit type = .ok cs) (hc : c ∈ cs) :
    (bindingsOf unit type).isEmpty = false ∧
      ∃ plan : Plan, plan.Placed unit.text ∧ plan.unit = unit ∧ plan.type = type ∧ plan.Makes c := by
  simp only [classChanges] at hcs
  split at hcs
  · rw [pure_eq_ok] at hcs
    simp [← hcs] at hc
  · next hempty =>
    obtain ⟨anchor, hanchor, hcs⟩ := bind_eq_ok.1 hcs
    refine ⟨by simpa using hempty, _, ⟨rfl, hunit, htype, rfl, hanchor⟩, rfl, rfl, Plan.makes_of_mem_changes hcs hc⟩

theorem classChanges_placed {type} (hunit : unit.Placed) (htype : type ∈ unit.types)
    (hcs : classChanges options unit type = .ok cs) (hc : c ∈ cs) : c.Placed unit.masked type := by
  obtain ⟨-, plan, hplan, rfl, rfl, hmakes⟩ := exists_plan_of_mem_classChanges hunit htype hcs hc
  exact hplan.changes hmakes

/-! ## Imports -/

/-- What holds of all spans, and of two that meet taken as one, holds of the joined ones. -/
theorem joinSpans_induction {P : Span → Prop}
    (hjoin : ∀ a b : Span, P a → P b → a.stop = b.start → P ⟨a.start, b.stop⟩) :
    ∀ {l}, (∀ s ∈ l, P s) → ∀ s ∈ joinSpans l, P s
  | [], _, s, hs => by simp [joinSpans] at hs
  | a :: l, h, s, hs => by
    have ih := joinSpans_induction hjoin fun s hs => h s (mem_cons_of_mem a hs)
    have ha := h a (by simp)
    simp only [joinSpans] at hs
    split at hs
    · next next more hmore =>
      rw [hmore] at ih
      split at hs
      · next heq =>
        rcases mem_cons.1 hs with rfl | hs
        · exact hjoin a next ha (ih next (by simp)) heq
        · exact ih s (by simp [hs])
      · rcases mem_cons.1 hs with rfl | hs
        · exact ha
        · exact ih s hs
    · rw [mem_singleton.1 hs]
      exact ha

theorem marked_joinSpans {masked : Text} {l} :
    (∀ s ∈ l, Marked masked s) → ∀ s ∈ joinSpans l, Marked masked s := by
  refine joinSpans_induction ?_
  rintro a b ⟨-, i, hi, hi', hc⟩ hb heq
  have := hb.start_lt
  exact ⟨hb.1, i, hi, by simp only; omega, hc⟩

theorem marked_importsSpan {text} (h : Marked (mask text) s) : Marked (mask text) (importsSpan text s) := by
  simp only [importsSpan]
  split
  · next hslice =>
    obtain ⟨hs, i, hi, hi', c, hc, hget⟩ := h
    refine ⟨by simp only; omega, i, hi, ?_, c, hc, hget⟩
    have hne : i ≠ s.stop - 1 := by
      rintro rfl
      have hblank := (of_mem_marks hc).1
      have htext := getElem?_of_mask hget hblank
      have := congrArg (·[0]?) (beq_iff_eq.1 hslice)
      simp only [getElem?_slice, Nat.add_zero, htext] at this
      split at this
      · obtain rfl : c = '\n' := by simpa using this
        simp [isBlank_newline] at hblank
      · omega
    simp only
    omega
  · exact h

theorem marked_import {i : Import} (h : i.Placed masked) : Marked masked i.span := by
  obtain ⟨hstop, k, hk, hk', hc⟩ := h
  exact marked_semicolon hstop hk hk' hc

theorem marked_importChanges (hunit : unit.Placed) (hc : c ∈ importChanges unit cs) :
    ∃ s, c = .removal s ∧ Marked unit.masked s := by
  simp only [importChanges, List.mem_map] at hc
  obtain ⟨s, hs, rfl⟩ := hc
  have hmarked : Marked unit.masked s := by
    refine marked_joinSpans (fun s hs => ?_) s hs
    simp only [List.mem_map, mem_filter] at hs
    obtain ⟨i, ⟨hi, -⟩, rfl⟩ := hs
    exact marked_import (hunit.imports i hi)
  rw [hunit.masked_eq] at hmarked ⊢
  exact ⟨_, rfl, marked_importsSpan hmarked⟩

theorem Marked.inside_removed (hunit : unit.Placed) (h : Marked unit.masked s) :
    s.Inside (Edit.removed unit.text s) := by
  have hstop := h.1
  rw [hunit.masked_eq, length_mask] at hstop
  obtain ⟨h1, h2, -⟩ := Edit.removalSpan_spec (s := s.start) hstop
  exact ⟨h1, h2⟩

/-- What takes away just a use of a word is the replacement of a use: all else takes away a mark. -/
theorem Change.Placed.eq_use (hunit : unit.Placed) {type} (hc : c.Placed unit.masked type)
    {lo hi} (hname : ∀ c ∈ name, isWord c = true)
    (huse : UseOf unit.masked lo hi name (c.range unit.text)) : ∃ id, c = .use (c.range unit.text) id := by
  cases c with
  | use s id => exact ⟨id, rfl⟩
  | removal s =>
    obtain ⟨hin1, hin2⟩ := Marked.inside_removed hunit hc
    obtain ⟨-, i, h1, h2, d, hd, hmasked⟩ := hc
    exact absurd hd (huse.not_mark hname (Nat.le_trans hin1 h1) (Nat.lt_of_lt_of_le h2 hin2) hmasked)
  | content s =>
    obtain ⟨_, -, _, -, statement, rfl, hplaced⟩ := hc
    obtain ⟨d, hd, hmasked⟩ := hplaced.endsCode
    have hlt := hplaced.start_lt_stop
    exact absurd (mem_cons_of_mem _ hd)
      (huse.not_mark hname (Nat.le_sub_one_of_lt hlt) (Nat.sub_one_lt (Nat.ne_zero_of_lt hlt)) hmasked)

end Rebind.Conversion
