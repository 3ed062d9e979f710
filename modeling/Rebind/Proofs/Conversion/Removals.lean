/-
What the removals of a file take out.
-/
import Rebind.Proofs.Conversion.Annotations
import Rebind.Proofs.Conversion.Preservation
import Rebind.Proofs.Java.Imports

namespace Rebind.Conversion

open Binding Java Text

variable {s : Span} {cs : List Change} {c : Change} {i : Nat}

variable {options : Options} {unit : CompilationUnit}

/-! ## Removals of a class -/

/-- What may be taken out of a class with the bindings. -/
inductive Removes (type : TypeDecl) (bindings : BindingSet) : Span → Prop where
  | annotated {a : Annotation} (ha : a ∈ bindings.annotations) : Removes type bindings a.span
  | field {f : Field} (hf : f ∈ type.fields) : Removes type bindings f.span
  | code {m : Method} {b : Block} {s : Span} (hm : m ∈ type.methods) (hb : m.body = some b)
      (hstart : b.opening ≤ s.start) (hstop : s.stop ≤ b.closing) (hsupported : bindings.unsupported = []) :
      Removes type bindings s

theorem Plan.Placed.removes {t} {plan : Plan} (h : plan.Placed t) (hs : plan.Makes (.removal s)) :
    Removes plan.type plan.bindings s := by
  cases hs with
  | annotated ha => exact .annotated ha
  | declaration hf => exact .field (h.drawn.declarations _ _ hf).1
  | unbinder hf => exact .field hf
  | bindCall hsupported hm hb hcall hcs hs =>
    obtain ⟨_, ⟨rfl⟩, -, hstart, hstop⟩ := h.bindCall_within hm hb hcall hcs hs
    exact .code hm hb hstart hstop hsupported
  | unbinderStatement hsupported _ _ hm hb hs =>
    obtain ⟨-, hstart, hstop⟩ := h.unbinderStatement_within hm hb hs
    exact .code hm hb hstart hstop hsupported

theorem classChanges_removes {type : TypeDecl} (hunit : unit.Placed) (htype : type ∈ unit.types)
    (hcs : classChanges options unit type = .ok cs) (hs : .removal s ∈ cs) :
    (bindingsOf unit type).isEmpty = false ∧ Removes type (bindingsOf unit type) s := by
  obtain ⟨hempty, plan, hplan, rfl, rfl, hmakes⟩ := exists_plan_of_mem_classChanges hunit htype hcs hs
  exact ⟨hempty, hplan.bindings_eq ▸ hplan.removes hmakes⟩

section Removes

variable {type : TypeDecl} {s : Span} {i : Nat}

theorem Removes.within (htype : type.Placed unit.masked) (h : Removes type (bindingsOf unit type) s) :
    type.body.opening < s.start ∧ s.stop ≤ type.body.closing := by
  cases h with
  | annotated ha =>
    obtain ⟨m, hm, hwithin, -⟩ := Heads.within htype ((drawn_bindingsOf unit type).annotations _ ha)
    obtain ⟨h1, -, h3, -⟩ := htype.members m hm
    have := hwithin.le_start
    have := hwithin.stop_le
    omega
  | field hf =>
    obtain ⟨h1, -, h3, -⟩ := htype.field hf
    exact ⟨h1, h3⟩
  | code hm hb hstart hstop _ =>
    obtain ⟨-, h2, -, h4⟩ := htype.methodBody hm hb
    omega

/-- Code in the bodies of the methods is taken out only if no annotation needs what bound the views. -/
theorem Removes.of_covers_body (htype : type.Placed unit.masked)
    (h : Removes type (bindingsOf unit type) s) {m b} (hm : m ∈ type.methods)
    (hb : m.body = some b) (hi : b.opening ≤ i ∧ i ≤ b.closing) (hcovers : s.covers i = true) :
    (bindingsOf unit type).unsupported = [] := by
  rw [Span.covers_iff] at hcovers
  obtain ⟨h1, h2, h3, hplaced⟩ := htype.method hm
  obtain ⟨-, h4, h5, -⟩ := hplaced.body b hb
  -- annotations and fields lie apart from the bodies
  cases h with
  | code _ _ _ _ hsupported => exact hsupported
  | @annotated a ha =>
    obtain ⟨m', hm', hwithin, hbody⟩ := Heads.within htype ((drawn_bindingsOf unit type).annotations a ha)
    have := hwithin.le_start
    have := hwithin.stop_le
    rcases eq_or_of_pairwise htype.apart hm' (TypeDecl.mem_members_of_method hm) with rfl | hle | hle
    · have := hbody m b rfl hb
      omega
    · have hle : m'.span.stop ≤ m.span.start := hle
      omega
    · have hle : m.span.stop ≤ m'.span.start := hle
      omega
  | @field f hf =>
    rcases eq_or_of_pairwise htype.apart (TypeDecl.mem_members_of_field hf) (TypeDecl.mem_members_of_method hm) with
      heq | hle | hle
    · simp at heq
    · have hle : f.span.stop ≤ m.span.start := hle
      omega
    · have hle : m.span.stop ≤ f.span.start := hle
      omega

theorem opening_lt_of_covers (hunit : unit.Placed) (htype : type ∈ unit.types)
    (hcs : classChanges options unit type = .ok cs) (hc : c ∈ cs) (hi : c.span.covers i = true) :
    type.body.opening < i := by
  have hplaced := hunit.types type htype
  have hchange := classChanges_placed hunit htype hcs hc
  rw [Span.covers_iff] at hi
  cases c with
  | removal s =>
    have := ((classChanges_removes hunit htype hcs hc).2.within hplaced).1
    exact Nat.lt_of_lt_of_le this hi.1
  | content s =>
    obtain ⟨m, hm, b, hb, statement, rfl, hstatement⟩ := hchange
    have := (hplaced.methodBody hm hb).2.1
    have := hstatement.le_start
    have : statement.span.start ≤ i := hi.1
    omega
  | use s id =>
    obtain ⟨name, hname, huse⟩ := hchange
    -- else the brace would stand in the use
    apply Classical.byContradiction
    intro hlt
    have := huse.lt_stop
    have hstart : s.start ≤ i := hi.1
    have hbrace := huse.chars type.body.opening '{' (by omega) (by omega) hplaced.brace
    rcases hbrace with hbrace | hbrace | hbrace
    · exact absurd hbrace (by decide)
    · exact absurd hbrace (by decide)
    · exact absurd (hname _ hbrace) (by decide)

end Removes

/-! ## Imports -/

theorem exists_covers_of_joinSpans {l} : ∀ s ∈ joinSpans l, s.covers i = true →
    ∃ a ∈ l, a.covers i = true := by
  refine joinSpans_induction (fun a b ha hb heq hi => ?_) fun s hs hi => ⟨s, hs, hi⟩
  have hi : a.start ≤ i ∧ i < b.stop := Span.covers_iff.1 hi
  by_cases hlt : i < a.stop
  · exact ha (Span.covers_iff.2 ⟨hi.1, hlt⟩)
  · exact hb (Span.covers_iff.2 ⟨by omega, hi.2⟩)

/-- Outside of the classes whole imports are taken out. -/
theorem exists_obsolete_of_covers (hc : c ∈ importChanges unit cs) (hi : c.span.covers i = true) :
    ∃ im ∈ unit.imports, isObsolete unit (takenBy unit.text cs) im = true ∧ im.span.covers i = true := by
  simp only [importChanges, List.mem_map] at hc
  obtain ⟨s, hs, rfl⟩ := hc
  have hcovers : s.covers i = true := by
    rw [Span.covers_iff] at hi ⊢
    simp only [Change.span, importsSpan] at hi
    split at hi <;> omega
  obtain ⟨a, ha, hai⟩ := exists_covers_of_joinSpans s hs hcovers
  simp only [List.mem_map, List.mem_filter] at ha
  obtain ⟨im, ⟨him, hobsolete⟩, rfl⟩ := ha
  exact ⟨im, him, hobsolete, hai⟩

/-! ## The file -/

section File

variable {layouts : Keyed Text Bytes} {draft : Edit.Draft} {rs : List ClassRecord} {imports : List Change}
  {e : Edit} {i : Nat} {d : Char}

theorem FileRecord.exists_of_covers (h : FileRecord options layouts unit draft rs imports) (hunit : unit.Placed)
    (he : e ∈ draft.edits) (hi : e.start ≤ i ∧ i < e.stop) (hd : unit.text[i]? = some d)
    (hblank : isBlank d = false) :
    (∃ r ∈ rs, ∃ c ∈ r.changes, c.edit unit.text r.content r.paths = e ∧ c.span.covers i = true) ∨
      e.text = [] ∧ ∃ im ∈ unit.imports, isObsolete unit (takenBy unit.text (rs.flatMap (·.changes))) im = true ∧
        im.span.covers i = true := by
  rcases (h.mem_edits_iff (by omega)).1 he with ⟨r, hr, c, hc, rfl⟩ | ⟨c, hc, rfl⟩
  · refine .inl ⟨r, hr, c, hc, rfl, ?_⟩
    refine Change.span_covers_of_range hunit ?_ hd hblank (Span.covers_iff.2 hi)
    rintro s rfl
    exact h.placed hunit hr hc
  · have hobsolete := h.obsolete c hc
    obtain ⟨s, rfl, hmarked⟩ := marked_importChanges hunit hobsolete
    refine .inr ⟨rfl, exists_obsolete_of_covers hobsolete ?_⟩
    refine Change.span_covers_of_range hunit ?_ hd hblank (Span.covers_iff.2 hi)
    intro s' heq
    rwa [← Change.removal.inj heq]

theorem ClassRecord.Sound.eq_removal {r : ClassRecord} (h : r.Sound options unit) (hc : c ∈ r.changes)
    (hnone : (c.edit unit.text r.content r.paths).text = []) : ∃ s, c = .removal s := by
  cases c with
  | removal s => exact ⟨s, rfl⟩
  | content s => exact absurd hnone (h.written s hc)
  | use s id =>
    obtain ⟨path, hdot, hpath⟩ := h.known s id hc
    have hnil : path = [] := by
      simpa [Change.edit, hpath] using hnone
    simp [hnil] at hdot

end File

end Rebind.Conversion
