/-
Where the parts of a source file stand in its mask.

The members of a class follow one another between its braces, and the annotations of a member stand at its front, before
the semicolon of a field (`Field.Placed`) or the body of a method (`Method.Placed`). `placed_of_readUnit` says all of it
of every file that is read.
-/
import Rebind.Java.Reader
import Rebind.Proofs.Java.Lexing
import Rebind.Proofs.Java.Nesting
import Rebind.Proofs.Text.Matching

namespace Rebind.Java

open Text List Option Except

variable {masked rest text : Text}

/-! ## Annotations -/

variable {c : Char} {a : Annotation} {name className : Text} {i stop start : Nat} {as : List Annotation} {f : Field}
  {m : Method} {head : Match (TypeKind × Text)}

theorem isCode_of_mem_closers (h : c ∈ closers) : isCode c = true := by
  simp only [closers, mem_cons, not_mem_nil, or_false] at h
  rcases h with rfl | rfl | rfl <;> decide

/-- The annotation stands between two offsets, its at sign is the first thing of it, and it ends with code. -/
structure Annotation.Within (masked : Text) (lo hi : Nat) (a : Annotation) : Prop where
  le_start : lo ≤ a.span.start
  start_lt : a.span.start < a.span.stop
  stop_le : a.span.stop ≤ hi
  at_sign : masked[a.span.start]? = some '@'
  last : ∃ c, masked[a.span.stop - 1]? = some c ∧ isCode c = true

theorem Annotation.Within.widen {lo hi lo' hi'} (h : a.Within masked lo hi) (hlo : lo' ≤ lo)
    (hhi : hi ≤ hi') : a.Within masked lo' hi' :=
  ⟨Nat.le_trans hlo h.le_start, h.start_lt, Nat.le_trans h.stop_le hhi, h.at_sign, h.last⟩

theorem annotationName?_spec {t} (h : annotationName? t = some (name, rest)) :
    t.head? = some '@' ∧ ∃ front c, t = front ++ c :: rest ∧ isCode c = true := by
  obtain ⟨u, hu, h⟩ := bind_eq_some_iff.1 h
  rw [after?_eq_some] at hu
  rw [hu]
  refine ⟨rfl, ?_⟩
  split at h
  · next c v hv =>
    split at h
    · next hc =>
      obtain ⟨-, rfl⟩ := h
      obtain ⟨blanks, hblanks⟩ := dropBlanks_suffix u
      rw [hv] at hblanks
      -- the name ends with its first letter or with a character of the run behind that
      rcases eq_nil_or_concat (v.takeWhile isDotted) with hnil | ⟨front, d, hconcat⟩
      · refine ⟨'@' :: blanks, c, ?_, isCode_of_letter (by simpa using hc)⟩
        have := @List.takeWhile_append_dropWhile _ isDotted v
        rw [hnil, nil_append] at this
        rw [this, ← hblanks]
        rfl
      · refine ⟨'@' :: blanks ++ c :: front, d, ?_, isCode_of_isDotted ?_⟩
        · have := @List.takeWhile_append_dropWhile _ isDotted v
          rw [hconcat, concat_eq_append] at this
          rw [← hblanks]
          conv => lhs; rw [← this]
          simp
        · exact all_eq_true.1 all_takeWhile d (by rw [hconcat]; simp)
    · simp at h
  · simp at h

theorem annotationAt_spec (h : annotationAt text masked i = .ok a) :
    a.span.start = i ∧ i < a.span.stop ∧ a.span.stop ≤ masked.length ∧ masked[i]? = some '@' ∧
      ∃ c, masked[a.span.stop - 1]? = some c ∧ isCode c = true := by
  simp only [annotationAt] at h
  split at h
  · simp at h
  · next name rest hname =>
    obtain ⟨hhead, front, c, hsplit, hc⟩ := annotationName?_spec hname
    rw [head?_drop] at hhead
    have hlen := congrArg List.length hsplit
    rw [length_drop, length_append, length_cons] at hlen
    split at h
    · obtain ⟨close, hclose, rfl⟩ := bind_pure_eq_ok.1 h
      have := partner_lt_length hclose
      have := le_skipBlanks masked (masked.length - rest.length) masked.length
      obtain ⟨_, closer, -, hkind, -, hcloser, -⟩ := partner_spec hclose
      exact ⟨rfl, by simp only; omega, by simp only; omega, hhead, closer, hcloser,
        isCode_of_mem_closers (mem_closers hkind)⟩
    · simp only [ok.injEq] at h
      subst h
      refine ⟨rfl, by simp only; omega, by simp only; omega, hhead, c, ?_, hc⟩
      have hget := congrArg (·[front.length]?) hsplit
      simp only [getElem?_drop, getElem?_append_right (Nat.le_refl _), Nat.sub_self, getElem?_cons_zero] at hget
      rw [← hget]
      congr 1
      simp only
      omega

theorem annotationsFrom_spec {text masked stop i k as}
    (h : annotationsFrom text masked stop i = .ok (as, k)) :
    i ≤ k ∧ (∀ a ∈ as, a.Within masked i k) ∧ as.Pairwise fun a b => a.span.stop ≤ b.span.start := by
  have hij := le_skipBlanks masked i stop
  rw [annotationsFrom] at h
  split at h
  · next hj =>
    split at h
    · obtain ⟨a, ha, h⟩ := bind_eq_ok.1 h
      obtain ⟨hstart, hlt, -, hsign, hlast⟩ := annotationAt_spec ha
      rw [dif_pos hlt] at h
      obtain ⟨⟨more, k'⟩, hmore, h⟩ := bind_eq_ok.1 h
      obtain ⟨rfl, rfl⟩ := h
      obtain ⟨hk, hwithin, hapart⟩ := annotationsFrom_spec hmore
      refine ⟨by omega, fun b hb => ?_, pairwise_cons.2 ⟨fun b hb => (hwithin b hb).le_start, hapart⟩⟩
      rcases mem_cons.1 hb with rfl | hb
      · exact ⟨by omega, by omega, hk, by rw [hstart]; exact hsign, hlast⟩
      · exact (hwithin b hb).widen (by omega) (Nat.le_refl _)
    · simp only [ok.injEq, Prod.mk.injEq] at h
      obtain ⟨rfl, rfl⟩ := h
      exact ⟨hij, by simp, .nil⟩
  · simp only [ok.injEq, Prod.mk.injEq] at h
    obtain ⟨rfl, rfl⟩ := h
    exact ⟨hij, by simp, .nil⟩
termination_by stop - i

/-! ## Members -/

/-- A field ends with its semicolon; its annotations stand in front of that, and its names are words. -/
structure Field.Placed (masked : Text) (f : Field) : Prop where
  semicolon : masked[f.span.stop - 1]? = some ';'
  annotations : ∀ a ∈ f.annotations, a.Within masked f.span.start (f.span.stop - 1)
  apart : f.annotations.Pairwise fun a b => a.span.stop ≤ b.span.start
  name_ne_nil : f.name ≠ []
  name_word : ∀ c ∈ f.name, isWord c = true
  moreNames : ∀ n ∈ f.moreNames, n ≠ [] ∧ ∀ c ∈ n, isWord c = true

/-- A method ends with the brace that closes its body; its annotations stand before the body. -/
structure Method.Placed (masked : Text) (m : Method) : Prop where
  annotations : ∀ a ∈ m.annotations, a.Within masked m.span.start m.span.stop
  apart : m.annotations.Pairwise fun a b => a.span.stop ≤ b.span.start
  brace : ∀ b, m.body = some b → masked[b.opening]? = some '{'
  body : ∀ b, m.body = some b → partner masked b.opening = .ok b.closing ∧ m.span.start ≤ b.opening ∧
    b.closing + 1 = m.span.stop ∧ ∀ a ∈ m.annotations, a.span.stop ≤ b.opening

/-- What holds of fields and methods by their kind. -/
def Member.Placed (masked : Text) : Member → Prop
  | .field f => f.Placed masked
  | .method m => m.Placed masked
  | _ => True

theorem lastWord?_spec {t front n} (h : lastWord? t = some (front, name, n)) :
    name ≠ [] ∧ ∀ c ∈ name, isWord c = true := by
  simp only [lastWord?] at h
  split at h
  · simp at h
  · next hne =>
    obtain ⟨-, rfl, -⟩ := h
    refine ⟨by simpa using hne, fun c hc => ?_⟩
    exact all_eq_true.1 all_takeWhile c (mem_reverse.1 hc)

theorem fieldOf?_spec {declaration span} (h : fieldOf? declaration as span = some f) :
    f.span = span ∧ f.annotations = as ∧ (f.name ≠ [] ∧ ∀ c ∈ f.name, isWord c = true) ∧
      ∀ n ∈ f.moreNames, n ≠ [] ∧ ∀ c ∈ n, isWord c = true := by
  simp only [fieldOf?] at h
  obtain ⟨⟨front, name, n⟩, hword, h⟩ := bind_eq_some_iff.1 h
  split at h
  · simp at h
  · simp only [some.injEq] at h
    subst h
    refine ⟨rfl, rfl, lastWord?_spec hword, fun n hn => ?_⟩
    obtain ⟨part, -, hn⟩ := mem_filterMap.1 hn
    obtain ⟨⟨n, rest⟩, hrun, rfl⟩ := map_eq_some_iff.1 hn
    exact (run?_spec hrun).2

theorem isWord_of_mem_parameters {list p} (hp : p ∈ parameters list) : ∀ c ∈ p.name, isWord c = true := by
  unfold parameters at hp
  split at hp
  · simp at hp
  · obtain ⟨piece, -, hp⟩ := mem_filterMap.1 hp
    obtain ⟨⟨front, name, arrays⟩, hword, rfl⟩ := map_eq_some_iff.1 hp
    exact (lastWord?_spec hword).2

theorem methodAt_spec {paren} (h : methodAt masked className stop start i paren as = .ok m) :
    m.span.start = start ∧ m.annotations = as ∧
      ((∀ c ∈ m.name, isWord c = true) ∧ ∀ p ∈ m.params, ∀ c ∈ p.name, isWord c = true) ∧
      ∃ k, paren < k ∧ k < stop ∧ ((m.body = none ∧ masked[k]? = some ';' ∧ m.span.stop = k + 1) ∨
          ∃ closing, masked[k]? = some '{' ∧ partner masked k = .ok closing ∧ m.body = some ⟨k, closing⟩ ∧
            m.span.stop = closing + 1) := by
  obtain ⟨close, hclose, h⟩ := bind_eq_ok.1 h
  have := partner_lt_length hclose
  split at h
  · next front name hword =>
    have hname := (lastWord?_spec hword).2
    split at h
    · simp at h
    · next k hk =>
      obtain ⟨h1, h2, c, hc, hc'⟩ := firstWithin?_eq_some hk
      split at h
      · next hbrace =>
        obtain ⟨closing, hclosing, rfl⟩ := bind_pure_eq_ok.1 h
        exact ⟨rfl, rfl, ⟨hname, fun _ => isWord_of_mem_parameters⟩, k, by omega, h2,
          .inr ⟨closing, by simpa using hbrace, hclosing, rfl, rfl⟩⟩
      · next hbrace =>
        rw [pure_eq_ok] at h
        subst h
        have hsemicolon : masked[k]? = some ';' := by
          simp only [Bool.or_eq_true, beq_iff_eq] at hc'
          rcases hc' with rfl | rfl
          · exact hc
          · simp [hc] at hbrace
        exact ⟨rfl, rfl, ⟨hname, fun _ => isWord_of_mem_parameters⟩, k, by omega, h2, .inl ⟨rfl, hsemicolon, rfl⟩⟩
  · simp at h

theorem memberAt_cases {m} (h : memberAt text masked className stop start = .ok m) :
    ∃ as i k, annotationsFrom text masked stop start = .ok (as, i) ∧ i ≤ k ∧ k < stop ∧
      ((∃ b closing, k ≤ b ∧ b < stop ∧ masked[b]? = some '{' ∧ partner masked b = .ok closing ∧
          (m = .nestedType ⟨start, closing + 1⟩ ∨ m = .initializer ⟨start, closing + 1⟩)) ∨
        (∃ method, methodAt masked className stop start i k as = .ok method ∧ m = .method method) ∨
        ∃ last, declarationEnd masked i stop = .ok last ∧
          ((∃ f, fieldOf? (slice masked i (last - 1)) as ⟨start, last⟩ = some f ∧ m = .field f) ∨
            m = .unreadable ⟨start, last⟩)) := by
  obtain ⟨⟨as, i⟩, has, h⟩ := bind_eq_ok.1 h
  simp only at h
  split at h
  · simp at h
  · next k hk =>
    obtain ⟨hik, hks, -⟩ := firstWithin?_eq_some hk
    refine ⟨as, i, k, has, hik, hks, ?_⟩
    split at h
    · split at h
      · simp at h
      · next b hb =>
        obtain ⟨hkb, hbs, c, hc, hc'⟩ := firstWithin?_eq_some hb
        obtain rfl : c = '{' := by simpa using hc'
        obtain ⟨closing, hclosing, h⟩ := bind_eq_ok.1 h
        rw [pure_eq_ok] at h
        refine .inl ⟨b, closing, hkb, hbs, hc, hclosing, ?_⟩
        split at h
        · exact .inl h.symm
        · exact .inr h.symm
    · split at h
      · obtain ⟨method, hm, h⟩ := bind_eq_ok.1 h
        rw [pure_eq_ok] at h
        exact .inr (.inl ⟨method, hm, h.symm⟩)
      · obtain ⟨last, hlast, h⟩ := bind_eq_ok.1 h
        refine .inr (.inr ⟨last, hlast, ?_⟩)
        split at h
        · next f hf =>
          rw [pure_eq_ok] at h
          exact .inl ⟨f, hf, h.symm⟩
        · rw [pure_eq_ok] at h
          exact .inr h.symm

theorem memberAt_spec {brace m} (hbrace : partner masked brace = .ok stop)
    (hopen : masked[brace]? = some '{') (hstart : brace < start) (h : memberAt text masked className stop start = .ok m)
    : m.span.start = start ∧ start < m.span.stop ∧ m.span.stop ≤ stop ∧ m.Placed masked := by
  -- a brace that opens inside the class closes inside it
  have nested : ∀ {k closing}, start ≤ k → k < stop → masked[k]? = some '{' → partner masked k = .ok closing →
      k < closing ∧ closing < stop := fun hk hks hkb hkc =>
    ⟨(partner_lt_length hkc).1, partner_lt_of_same hbrace (by omega) hks (by rw [hkb, hopen]) hkc⟩
  obtain ⟨as, i, k, has, hik, hks, h⟩ := memberAt_cases h
  obtain ⟨hi, has, hapart⟩ := annotationsFrom_spec has
  rcases h with ⟨b, closing, hkb, hbs, hb, hclosing, h⟩ | ⟨method, hm, rfl⟩ | ⟨last, hlast, h⟩
  · obtain ⟨h1, h2⟩ := nested (by omega) hbs hb hclosing
    rcases h with rfl | rfl <;>
      exact ⟨rfl, by simp only [Member.span]; omega, by simp only [Member.span]; omega, trivial⟩
  · obtain ⟨h1, h2, -, k', h3, h4, h5⟩ := methodAt_spec hm
    have hannot : ∀ a ∈ method.annotations, a.Within masked start k' := fun a ha =>
      (has a (h2 ▸ ha)).widen (Nat.le_refl _) (by omega)
    simp only [Member.span, Member.Placed]
    rcases h5 with ⟨hnone, -, hstop⟩ | ⟨closing, hk', hclosing, hbody, hstop⟩
    · refine ⟨h1, by omega, by omega, fun a ha => ?_, h2 ▸ hapart, by simp [hnone], by simp [hnone]⟩
      exact (hannot a ha).widen (by omega) (by omega)
    · obtain ⟨h6, h7⟩ := nested (by omega) h4 hk' hclosing
      refine ⟨h1, by omega, by omega, fun a ha => ?_, h2 ▸ hapart, fun b hb => ?_, fun b hb => ?_⟩
      · exact (hannot a ha).widen (by omega) (by omega)
      · obtain rfl : ⟨k', closing⟩ = b := by simpa [hbody] using hb
        exact hk'
      · obtain rfl : ⟨k', closing⟩ = b := by simpa [hbody] using hb
        exact ⟨hclosing, by simp only; omega, hstop.symm, fun a ha => (hannot a ha).stop_le⟩
  · obtain ⟨h1, h2, -, h4⟩ := declarationEnd_spec hlast
    rcases h with ⟨f, hf, rfl⟩ | rfl
    · obtain ⟨h5, h6, ⟨h7, h8⟩, h9⟩ := fieldOf?_spec hf
      simp only [Member.span, Member.Placed, h5]
      refine ⟨trivial, by omega, h2, by rw [h5]; exact h4, fun a ha => ?_, h6 ▸ hapart, h7, h8, h9⟩
      rw [h5]
      exact (has a (h6 ▸ ha)).widen (Nat.le_refl _) (by simp only; omega)
    · simp only [Member.span]
      exact ⟨trivial, by omega, h2, trivial⟩

/-- Each member is read behind the blanks from an offset at which holds what holds where reading starts, behind a
semicolon and behind a member. -/
theorem mem_membersFrom {P : Nat → Prop} {text masked className stop i ms}
    (hsemicolon : ∀ {j}, masked[j]? = some ';' → P (j + 1))
    (hmember : ∀ {j m}, memberAt text masked className stop j = .ok m → P m.span.stop) (hi : P i)
    (h : membersFrom text masked className stop i = .ok ms) :
    ∀ m ∈ ms, ∃ j, P j ∧ i ≤ j ∧ skipBlanks masked j stop < stop ∧
      memberAt text masked className stop (skipBlanks masked j stop) = .ok m := by
  have hij := le_skipBlanks masked i stop
  rw [membersFrom] at h
  split at h
  · next hj =>
    split at h
    · next hmark =>
      intro m hm
      obtain ⟨j, hP, hle, hread⟩ := mem_membersFrom hsemicolon hmember (hsemicolon (beq_iff_eq.1 hmark)) h m hm
      exact ⟨j, hP, by omega, hread⟩
    · obtain ⟨first, hfirst, h⟩ := bind_eq_ok.1 h
      split at h
      · obtain ⟨rest, hrest, rfl⟩ := bind_pure_eq_ok.1 h
        intro m hm
        rcases mem_cons.1 hm with rfl | hm
        · exact ⟨i, hi, Nat.le_refl _, hj, hfirst⟩
        · obtain ⟨j, hP, hle, hread⟩ := mem_membersFrom hsemicolon hmember (hmember hfirst) hrest m hm
          exact ⟨j, hP, by omega, hread⟩
      · rw [pure_eq_ok] at h
        subst h
        intro m hm
        obtain rfl := mem_singleton.1 hm
        exact ⟨i, hi, Nat.le_refl _, hj, hfirst⟩
  · simp only [ok.injEq] at h
    subst h
    simp
termination_by stop - i

/-- The members of a class from an offset on: each lies between there and the closing brace, starts with
no blank, and they follow one another. -/
theorem membersFrom_spec {text masked className brace stop i ms}
    (hbrace : partner masked brace = .ok stop) (hopen : masked[brace]? = some '{') (hstart : brace < i)
    (h : membersFrom text masked className stop i = .ok ms) :
    (∀ m ∈ ms, i ≤ m.span.start ∧ m.span.start < m.span.stop ∧ m.span.stop ≤ stop ∧
      (∃ c, masked[m.span.start]? = some c ∧ isBlank c = false) ∧ m.Placed masked) ∧
    ms.Pairwise fun a b => a.span.stop ≤ b.span.start := by
  have hij := le_skipBlanks masked i stop
  rw [membersFrom] at h
  split at h
  · next hj =>
    split at h
    · obtain ⟨h1, h2⟩ := membersFrom_spec hbrace hopen (by omega) h
      refine ⟨fun m hm => ?_, h2⟩
      obtain ⟨h3, h4⟩ := h1 m hm
      exact ⟨by omega, h4⟩
    · obtain ⟨m, hm, h⟩ := bind_eq_ok.1 h
      obtain ⟨h1, h2, h3, h4⟩ := memberAt_spec hbrace hopen (by omega) hm
      rw [dif_pos h2] at h
      obtain ⟨rest, hrest, rfl⟩ := bind_pure_eq_ok.1 h
      obtain ⟨h5, h6⟩ := membersFrom_spec hbrace hopen (by omega) hrest
      refine ⟨fun m' hm' => ?_, pairwise_cons.2 ⟨fun m' hm' => (h5 m' hm').1, h6⟩⟩
      rcases mem_cons.1 hm' with rfl | hm'
      · have hlt : skipBlanks masked i stop < masked.length := by
          have := partner_lt_length hbrace
          omega
        refine ⟨by omega, by omega, h3, ?_, h4⟩
        rw [h1]
        exact ⟨_, getElem?_eq_getElem hlt, not_isBlank_skipBlanks hj (getElem?_eq_getElem hlt)⟩
      · obtain ⟨h7, h8⟩ := h5 m' hm'
        exact ⟨by omega, h8⟩
  · simp only [ok.injEq] at h
    subst h
    simp
termination_by stop - i

/-! ## Types and files -/

/-- The braces of a type stand behind its head, and its members follow one another between them, none starting
with a blank. -/
structure TypeDecl.Placed (masked : Text) (t : TypeDecl) : Prop where
  start_lt : t.start < t.body.opening
  brace : masked[t.body.opening]? = some '{'
  braces : partner masked t.body.opening = .ok t.body.closing
  members : ∀ m ∈ t.members, t.body.opening < m.span.start ∧ m.span.start < m.span.stop ∧
    m.span.stop ≤ t.body.closing ∧ (∃ c, masked[m.span.start]? = some c ∧ isBlank c = false) ∧ m.Placed masked
  apart : t.members.Pairwise fun a b => a.span.stop ≤ b.span.start

theorem TypeDecl.mem_members_of_field {t : TypeDecl} (hf : f ∈ t.fields) : .field f ∈ t.members := by
  simp only [TypeDecl.fields, mem_filterMap] at hf
  obtain ⟨m, hm, hf⟩ := hf
  split at hf
  · obtain rfl := some.inj hf
    exact hm
  · simp at hf

theorem TypeDecl.mem_members_of_method {t : TypeDecl} (hm : m ∈ t.methods) : .method m ∈ t.members := by
  simp only [TypeDecl.methods, mem_filterMap] at hm
  obtain ⟨m', hm', hm⟩ := hm
  split at hm
  · obtain rfl := some.inj hm
    exact hm'
  · simp at hm

namespace TypeDecl.Placed

variable {masked : Text} {t : TypeDecl} (h : t.Placed masked)

include h

theorem field {f : Field} (hf : f ∈ t.fields) : t.body.opening < f.span.start ∧ f.span.start < f.span.stop ∧
    f.span.stop ≤ t.body.closing ∧ (∃ c, masked[f.span.start]? = some c ∧ isBlank c = false) ∧
    f.Placed masked :=
  h.members _ (mem_members_of_field hf)

theorem method {m : Method} (hm : m ∈ t.methods) : t.body.opening < m.span.start ∧
    m.span.start < m.span.stop ∧ m.span.stop ≤ t.body.closing ∧ m.Placed masked := by
  obtain ⟨h1, h2, h3, -, h4⟩ := h.members _ (mem_members_of_method hm)
  exact ⟨h1, h2, h3, h4⟩

theorem methodBody {m b} (hm : m ∈ t.methods) (hb : m.body = some b) :
    partner masked b.opening = .ok b.closing ∧ t.body.opening < b.opening ∧ b.opening < b.closing ∧
      b.closing < t.body.closing := by
  obtain ⟨h1, h2, h3, h4⟩ := h.method hm
  obtain ⟨h5, h6, h7, -⟩ := h4.body b hb
  have := (partner_lt_length h5).1
  exact ⟨h5, by omega, by omega, by omega⟩

end TypeDecl.Placed

theorem typeHead?_spec {t v} (h : typeHead? t = some (v, rest)) :
    rest.length < t.length ∧ ∀ c ∈ v.2, isWord c = true := by
  obtain ⟨kind, -, h⟩ := exists_of_findSome?_eq_some h
  obtain ⟨u, hu, h⟩ := bind_eq_some_iff.1 h
  obtain ⟨w, hw, h⟩ := bind_eq_some_iff.1 h
  obtain ⟨⟨name, rest'⟩, hrun, h⟩ := bind_eq_some_iff.1 h
  obtain ⟨rfl, rfl⟩ := h
  obtain ⟨hname, -, hword⟩ := run?_spec hrun
  refine ⟨?_, hword⟩
  have hgap := (Past.of_someBlanks? (p := isBlank) (fun _ => id) hw).suffix.length_le
  have hkey : 0 < kind.keyword.length := by cases kind <;> decide
  rw [hname, length_append] at hgap
  rw [after?_eq_some.1 hu, length_append]
  omega

theorem isBlank_of_mem_indentBefore {fallback pos} (h : ∀ c ∈ fallback, isBlank c = true) :
    ∀ c ∈ indentBefore text pos fallback, isBlank c = true := by
  intro c hc
  simp only [indentBefore] at hc
  split at hc
  · next hblank =>
    simp only [Bool.and_eq_true] at hblank
    exact all_eq_true.1 hblank.2 c hc
  · exact h c hc

structure TypeDecl.ReadAt (text masked : Text) (head : Match (TypeKind × Text)) (t : TypeDecl) : Prop where
  start : t.start = head.start
  name : t.name = head.value.2
  stop_le : head.stop ≤ t.body.opening
  brace : masked[t.body.opening]? = some '{'
  braces : partner masked t.body.opening = .ok t.body.closing
  members : membersFrom text masked t.name t.body.closing (t.body.opening + 1) = .ok t.members ∨
    t.kind ≠ .classType ∧ t.members = []
  memberIndent : ∀ c ∈ t.memberIndent, isBlank c = true

theorem readAt_of_typeAt {t} (h : typeAt text masked head = .ok t) : t.ReadAt text masked head := by
  simp only [typeAt] at h
  split at h
  · simp at h
  · next brace hbrace =>
    obtain ⟨hle, -, c, hc, hc'⟩ := firstWithin?_eq_some hbrace
    obtain rfl : c = '{' := by simpa using hc'
    obtain ⟨close, hclose, h⟩ := bind_eq_ok.1 h
    have hindent : ∀ c ∈ indentBefore text head.start [] ++ "    ", isBlank c = true := by
      intro c hc
      rcases mem_append.1 hc with hc | hc
      · exact isBlank_of_mem_indentBefore (by simp) c hc
      · have hall : "    ".toList.all isBlank = true := by decide
        exact all_eq_true.1 hall c hc
    split at h
    · obtain ⟨members, hmembers, rfl⟩ := bind_pure_eq_ok.1 h
      refine ⟨rfl, rfl, hle, hc, hclose, .inl hmembers, ?_⟩
      cases members with
      | nil => exact hindent
      | cons m ms => exact isBlank_of_mem_indentBefore hindent
    · next hkind =>
      rw [pure_bind, pure_eq_ok] at h
      subst h
      exact ⟨rfl, rfl, hle, hc, hclose, .inr ⟨hkind, rfl⟩, hindent⟩

theorem TypeDecl.ReadAt.placed {t : TypeDecl} (h : t.ReadAt text masked head)
    (hhead : head.start < head.stop) : t.Placed masked := by
  have hlt : t.start < t.body.opening := by
    rw [h.start]
    exact Nat.lt_of_lt_of_le hhead h.stop_le
  rcases h.members with hmembers | ⟨-, hnone⟩
  · obtain ⟨hmembers, hapart⟩ := membersFrom_spec h.braces h.brace (Nat.lt_succ_self _) hmembers
    exact ⟨hlt, h.brace, h.braces, hmembers, hapart⟩
  · exact ⟨hlt, h.brace, h.braces, by simp [hnone], hnone ▸ .nil⟩

theorem typesFrom_spec {text masked pos ts} (hpos : pos ≤ masked.length)
    (h : typesFrom text masked pos = .ok ts) :
    (∀ t ∈ ts, pos ≤ t.start ∧ t.Placed masked ∧
      ∃ head, t.ReadAt text masked head ∧ ∀ c ∈ head.value.2, isWord c = true) ∧
    ts.Pairwise fun a b => a.body.closing < b.start := by
  rw [typesFrom] at h
  split at h
  · simp only [ok.injEq] at h
    subst h
    simp
  · next head hhead =>
    obtain ⟨t, ht, h⟩ := bind_eq_ok.1 h
    have hread := readAt_of_typeAt ht
    have hwithin := search_spec hhead hpos (Nat.le_refl _)
    have hstart := hwithin.le_start
    obtain ⟨rest, haccept, hstop⟩ := hwithin.accepts
    obtain ⟨hlength, hword⟩ := typeHead?_spec haccept
    have hplaced := hread.placed (by omega)
    have hclosing := partner_lt_length hplaced.braces
    have h0 := hread.start
    have h1 := hread.stop_le
    rw [dif_pos (by omega)] at h
    obtain ⟨rest, hrest, rfl⟩ := bind_pure_eq_ok.1 h
    obtain ⟨h3, h4⟩ := typesFrom_spec (by omega) hrest
    refine ⟨fun t' ht' => ?_, pairwise_cons.2 ⟨fun t' ht' => ?_, h4⟩⟩
    · rcases mem_cons.1 ht' with rfl | ht'
      · exact ⟨by omega, hplaced, head, hread, hword⟩
      · have := h3 t' ht'
        exact ⟨by omega, this.2⟩
    · have := (h3 t' ht').1
      omega
termination_by masked.length - pos

theorem isBlank_of_isInlineBlank (h : isInlineBlank c = true) : isBlank c = true := by
  simp only [isInlineBlank, Bool.or_eq_true, beq_iff_eq] at h
  rcases h with rfl | rfl <;> decide

/-- The characters of a head line in front of its semicolon. -/
def isHeadPart (c : Char) : Bool := isBlank c || isDotted c || c == '*'

theorem isHeadPart_of_isBlank (c : Char) (h : isBlank c = true) : isHeadPart c = true := by simp [isHeadPart, h]

/-- A head line ends: its semicolon and blanks behind it are taken, and its line break unless something else stands
there. -/
def HeadEnds (t rest : Text) : Prop :=
  ∃ front blanks tail, t = front ++ ';' :: blanks ++ tail ++ rest ∧ front.all isHeadPart = true ∧
    (∀ c ∈ blanks, isInlineBlank c = true) ∧
    (tail = ['\n'] ∨ tail = [] ∧ ∀ c, rest.head? = some c → isInlineBlank c = false ∧ c ≠ '\n')

section HeadLines

variable {t u rest : Text}

theorem HeadEnds.of_past (hu : Past isHeadPart t u) (h : HeadEnds u rest) : HeadEnds t rest := by
  obtain ⟨pre, rfl, hpre⟩ := hu
  obtain ⟨front, blanks, tail, rfl, hfront, h⟩ := h
  exact ⟨pre ++ front, blanks, tail, by simp, by rw [all_append, hpre, hfront]; rfl, h⟩

theorem HeadEnds.passes (h : HeadEnds t rest) : Passes ';' t rest := by
  obtain ⟨front, blanks, tail, heq, -⟩ := h
  exact ⟨front ++ ';' :: blanks ++ tail, heq, by simp⟩

theorem headEnds_headEnd? (h : headEnd? t = some rest) : HeadEnds t rest := by
  obtain ⟨u, hu, h⟩ := bind_eq_some_iff.1 h
  refine .of_past (.of_dropWhile isHeadPart_of_isBlank t) ?_
  rw [← dropBlanks, after?_eq_some.1 hu]
  have hsplit := (@List.takeWhile_append_dropWhile _ isInlineBlank u).symm
  have hrun : ∀ c ∈ u.takeWhile isInlineBlank, isInlineBlank c = true := fun c hc => all_eq_true.1 all_takeWhile c hc
  split at h
  · next v hv =>
    simp only [some.injEq] at h
    subst h
    refine ⟨[], u.takeWhile isInlineBlank, ['\n'], ?_, rfl, hrun, .inl rfl⟩
    conv => lhs; rw [hsplit, hv]
    simp
  · next hnot =>
    simp only [some.injEq] at h
    subst h
    refine ⟨[], u.takeWhile isInlineBlank, [], ?_, rfl, hrun, .inr ⟨rfl, fun c hc => ?_⟩⟩
    · conv => lhs; rw [hsplit]
      simp
    · have hhead := head?_dropWhile_not isInlineBlank u
      rw [hc] at hhead
      refine ⟨by simpa using hhead, ?_⟩
      rintro rfl
      cases hdrop : u.dropWhile isInlineBlank with
      | nil => simp [hdrop] at hc
      | cons d v =>
        rw [hdrop, head?_cons, some.injEq] at hc
        exact hnot v (by rw [hdrop, hc])

variable {v name : Text}

theorem past_headWord {word} (hword : word.all isHeadPart = true)
    (hu : after? word (t.dropWhile isInlineBlank) = some u) (hv : someBlanks? u = some v) : Past isHeadPart t v := by
  have hline : Past isHeadPart t (t.dropWhile isInlineBlank) :=
    .of_dropWhile (fun c hc => isHeadPart_of_isBlank c (isBlank_of_isInlineBlank hc)) t
  exact hline.trans (.trans (.of_after? hword hu) (.of_someBlanks? isHeadPart_of_isBlank hv))

theorem past_headName (h : run? isDotted t = some (name, rest)) : Past isHeadPart t rest :=
  .of_run? (fun c hc => by simp [isHeadPart, hc]) h

theorem headEnds_importName? (h : importName? t = some (name, rest)) : HeadEnds t rest := by
  obtain ⟨⟨v, u⟩, hu, h⟩ := bind_eq_some_iff.1 h
  refine .of_past (past_headName hu) ?_
  simp only at h
  split at h
  · split at h
    · obtain ⟨w, hw, h⟩ := map_eq_some_iff.1 h
      obtain ⟨-, rfl⟩ := Prod.mk.inj h
      exact .of_past ⟨['*'], rfl, rfl⟩ (headEnds_headEnd? hw)
    · simp at h
  · obtain ⟨w, hw, h⟩ := map_eq_some_iff.1 h
    obtain ⟨-, rfl⟩ := Prod.mk.inj h
    exact headEnds_headEnd? hw

theorem headEnds_import? {v} (h : import? t = some (v, rest)) : HeadEnds t rest := by
  obtain ⟨u, hu, h⟩ := bind_eq_some_iff.1 h
  obtain ⟨w, hw, h⟩ := bind_eq_some_iff.1 h
  refine .of_past (past_headWord (by decide +kernel) hu hw) ?_
  split at h
  · next name rest' hstatic =>
    obtain ⟨-, rfl⟩ := h
    obtain ⟨x, hx, hstatic⟩ := bind_eq_some_iff.1 hstatic
    obtain ⟨y, hy, hstatic⟩ := bind_eq_some_iff.1 hstatic
    exact .of_past (.trans (.of_after? (by decide +kernel) hx) (.of_someBlanks? isHeadPart_of_isBlank hy))
      (headEnds_importName? hstatic)
  · obtain ⟨⟨name, rest'⟩, hname, h⟩ := map_eq_some_iff.1 h
    obtain ⟨-, rfl⟩ := Prod.mk.inj h
    exact headEnds_importName? hname

theorem headEnds_package? (h : package? t = some (v, rest)) : HeadEnds t rest := by
  obtain ⟨u, hu, h⟩ := bind_eq_some_iff.1 h
  obtain ⟨w, hw, h⟩ := bind_eq_some_iff.1 h
  obtain ⟨⟨name, x⟩, hx, h⟩ := bind_eq_some_iff.1 h
  obtain ⟨y, hy, h⟩ := map_eq_some_iff.1 h
  obtain ⟨-, rfl⟩ := Prod.mk.inj h
  exact .of_past ((past_headWord (by decide +kernel) hu hw).trans (past_headName hx)) (headEnds_headEnd? hy)

end HeadLines

/-- An import lies in the text and holds a semicolon. -/
structure Import.Placed (masked : Text) (i : Import) : Prop where
  stop_le : i.span.stop ≤ masked.length
  semicolon : ∃ k, i.span.start ≤ k ∧ k < i.span.stop ∧ masked[k]? = some ';'

theorem imports_spec {i} (h : i ∈ imports masked) : i.Placed masked := by
  simp only [imports, List.mem_map] at h
  obtain ⟨m, hm, rfl⟩ := h
  have hwithin := allMatches_spec hm (Nat.zero_le _) (Nat.le_refl _)
  exact ⟨hwithin.stop_le, hwithin.exists_of_passes fun h => (headEnds_import? h).passes⟩

structure CompilationUnit.Placed (u : CompilationUnit) : Prop where
  masked_eq : u.masked = mask u.text
  imports : ∀ i ∈ u.imports, i.Placed u.masked
  importsEnd_le : u.importsEnd ≤ u.masked.length
  types : ∀ t ∈ u.types, t.Placed u.masked
  inOrder : u.types.Pairwise fun a b => a.body.closing < b.start

theorem CompilationUnit.Placed.apart {u : CompilationUnit} (h : u.Placed) :
    u.types.Pairwise fun a b => a.body.closing < b.body.opening :=
  h.inOrder.imp_of_mem fun _ hb hlt => Nat.lt_trans hlt (h.types _ hb).start_lt

section Units

variable {text : Text} {u : CompilationUnit} (h : readUnit text = .ok u)

include h

theorem typesFrom_of_readUnit : u.text = text ∧ u.masked = mask text ∧ u.imports = imports (mask text) ∧
    u.importsEnd ≤ (mask text).length ∧ typesFrom text (mask text) u.importsEnd = .ok u.types := by
  obtain ⟨types, htypes, rfl⟩ := bind_pure_eq_ok.1 h
  refine ⟨rfl, rfl, rfl, ?_, htypes⟩
  split
  · next last hlast => exact (imports_spec (mem_of_getLast? hlast)).stop_le
  · next p _ hp => exact (search_spec hp (Nat.zero_le _) (Nat.le_refl _)).stop_le
  · exact Nat.zero_le _

theorem placed_of_readUnit : u.text = text ∧ u.Placed := by
  obtain ⟨rfl, hmasked, himports, hend, htypes⟩ := typesFrom_of_readUnit h
  obtain ⟨h1, h2⟩ := typesFrom_spec hend htypes
  rw [← hmasked] at himports hend h1
  exact ⟨rfl, hmasked, fun i hi => imports_spec (himports ▸ hi), hend, fun t ht => (h1 t ht).2.1, h2⟩

theorem readAt_of_readUnit {t} (ht : t ∈ u.types) :
    ∃ head, t.ReadAt text (mask text) head ∧ ∀ c ∈ head.value.2, isWord c = true := by
  obtain ⟨-, -, -, hend, htypes⟩ := typesFrom_of_readUnit h
  exact ((typesFrom_spec hend htypes).1 t ht).2.2

end Units

end Rebind.Java
