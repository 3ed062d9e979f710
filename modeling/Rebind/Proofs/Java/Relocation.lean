/-
Reading does not depend on what stands in front.

Two files with the same text behind their heads declare the same types, each where its own head ends
(`exists_readUnit_of_behindHead`).
-/
import Rebind.Proofs.Java.Edges
import Rebind.Proofs.Java.Imports

namespace Rebind

open List Option

/-- The match as it is found behind a front of that many characters. -/
def Text.Match.move {α : Type} (d : Nat) (m : Text.Match α) : Text.Match α := ⟨d + m.start, d + m.stop, m.value⟩

namespace Java

open Text

/-! ## Readings that fail together -/

/-- Two readings fail both, or give results that are related. -/
inductive Alike {α β : Type} (R : α → β → Prop) : Except ReadError α → Except ReadError β → Prop where
  | ok {a : α} {b : β} (h : R a b) : Alike R (.ok a) (.ok b)
  | error (e e' : ReadError) : Alike R (.error e) (.error e')

namespace Alike

variable {α β γ δ : Type} {R : α → β → Prop} {S : γ → δ → Prop}

theorem pure {a b} (h : R a b) : Alike R (Pure.pure a) (Pure.pure b) := .ok h

theorem bind {x y f g}
    (h : Alike R x y) (hf : ∀ a b, R a b → Alike S (f a) (g b)) : Alike S (x >>= f) (y >>= g) := by
  cases h with
  | ok h => exact hf _ _ h
  | error e e' => exact .error e e'

theorem dite {p q} [Decidable p] [Decidable q] (h : p ↔ q) {x : p → Except ReadError α}
    {x' : ¬ p → Except ReadError α} {y : q → Except ReadError β} {y' : ¬ q → Except ReadError β}
    (hthen : ∀ hp hq, Alike R (x hp) (y hq)) (helse : ∀ hp hq, Alike R (x' hp) (y' hq)) :
    Alike R (if hp : p then x hp else x' hp) (if hq : q then y hq else y' hq) := by
  by_cases hp : p
  · rw [dif_pos hp, dif_pos (h.1 hp)]
    exact hthen _ _
  · rw [dif_neg hp, dif_neg fun hq => hp (h.2 hq)]
    exact helse _ _

theorem map_left {x y f} {T : γ → β → Prop}
    (h : Alike R x y) (hf : ∀ a b, R a b → T (f a) b) : Alike T (x.map f) y := by
  cases h with
  | ok h => exact .ok (hf _ _ h)
  | error e e' => exact .error e e'

theorem symm {x y} (h : Alike R x y) : Alike (fun b a => R a b) y x := by
  cases h with
  | ok h => exact .ok h
  | error e e' => exact .error e' e

theorem exists_of_ok {x} {y : Except ReadError β} (h : Alike R x y) {a : α} (hx : x = .ok a) :
    ∃ b, y = .ok b ∧ R a b := by
  cases h with
  | ok h =>
    obtain rfl := Except.ok.inj hx
    exact ⟨_, rfl, h⟩
  | error e e' => simp at hx

end Alike

/-! ## Moving what was read -/

def Span.move (d : Nat) (s : Span) : Span := ⟨d + s.start, d + s.stop⟩

def Annotation.move (d : Nat) (a : Annotation) : Annotation := { a with span := a.span.move d }

def Field.move (d : Nat) (f : Field) : Field :=
  { f with annotations := f.annotations.map (·.move d), span := f.span.move d }

def Block.move (d : Nat) (b : Block) : Block := ⟨d + b.opening, d + b.closing⟩

def Method.move (d : Nat) (m : Method) : Method :=
  { m with annotations := m.annotations.map (·.move d), span := m.span.move d, body := m.body.map (·.move d) }

/-- The member as it is read behind a front of that many characters. -/
def Member.move (d : Nat) : Member → Member
  | field f => field (f.move d)
  | method m => method (m.move d)
  | nestedType s => nestedType (s.move d)
  | initializer s => initializer (s.move d)
  | unreadable s => unreadable (s.move d)

theorem Member.span_move (d : Nat) (m : Member) : (m.move d).span = m.span.move d := by
  cases m <;> rfl

section Behind

variable {g f : Text} {d : Nat} (hg : g.length = d) (hf : f.length = d) (t m : Text)

include hf in
theorem slice_behind (s e : Nat) : slice (f ++ m) (d + s) (d + e) = slice m s e := by
  subst hf
  simp [slice, take_append, drop_append]

include hf in
theorem drop_behind (i : Nat) : (f ++ m).drop (d + i) = m.drop i := by
  subst hf
  simp [drop_append]

include hf in
theorem getElem?_behind (i : Nat) : (f ++ m)[d + i]? = m[i]? := by
  subst hf
  rw [getElem?_append_right (by omega), Nat.add_sub_cancel_left]

include hf in
theorem skipBlanks_behind (i e : Nat) : skipBlanks (f ++ m) (d + i) (d + e) = d + skipBlanks m i e := by
  rw [skipBlanks, skipBlanks, slice_behind hf, Nat.add_assoc]

include hf in
theorem firstWithin?_behind (s e : Nat) (p : Char → Bool) :
    firstWithin? (f ++ m) (d + s) (d + e) p = (firstWithin? m s e p).map (d + ·) := by
  rw [firstWithin?, firstWithin?, slice_behind hf]
  split
  · rfl
  · simp only [map_some, Nat.add_assoc]

theorem closeAfter_add (opener closer : Char) : ∀ (t : Text) (depth pos : Nat),
    closeAfter opener closer depth (d + pos) t = (closeAfter opener closer depth pos t).map (d + ·)
  | [], _, _ => rfl
  | c :: t, depth, pos => by
    have ih := fun depth => closeAfter_add opener closer t depth (pos + 1)
    simp only [closeAfter, Nat.add_assoc, ih]
    split
    · rfl
    · split
      · split <;> rfl
      · rfl

theorem semicolonAfter?_add : ∀ (t : Text) (depth : Int) (pos : Nat),
    semicolonAfter? depth (d + pos) t = (semicolonAfter? depth pos t).map (d + ·)
  | [], _, _ => rfl
  | c :: t, depth, pos => by
    simp only [semicolonAfter?, Nat.add_assoc, semicolonAfter?_add t _ (pos + 1)]
    split <;> rfl

include hf in
theorem partner_behind (i : Nat) : Alike (fun x y => x = d + y) (partner (f ++ m) (d + i)) (partner m i) := by
  rw [partner, partner, drop_behind hf]
  split
  · exact .error _ _
  · split
    · exact .error _ _
    · next opener rest _ _ closer _ =>
      rw [show d + i + 1 = d + (i + 1) by omega, closeAfter_add]
      cases closeAfter opener closer 1 (i + 1) rest with
      | none => exact .error _ _
      | some j => exact .ok rfl

include hf in
theorem declarationEnd_behind (i stop : Nat) :
    Alike (fun x y => x = d + y ∧ 0 < y) (declarationEnd (f ++ m) (d + i) (d + stop)) (declarationEnd m i stop) := by
  rw [declarationEnd, declarationEnd, slice_behind hf, semicolonAfter?_add]
  cases hj : semicolonAfter? 0 i (slice m i stop) with
  | none => exact .error _ _
  | some j =>
    have := (semicolonAfter?_spec hj).1
    exact .ok ⟨rfl, by omega⟩

include hf in
theorem length_behind : (f ++ m).length = d + m.length := by rw [length_append, hf]

include hg hf in
theorem annotationAt_behind (i : Nat) :
    Alike (fun a b => a = b.move d) (annotationAt (g ++ t) (f ++ m) (d + i)) (annotationAt t m i) := by
  rw [annotationAt, annotationAt, drop_behind hf]
  split
  · exact .error _ _
  · next name rest hname =>
    have hle : rest.length ≤ m.length := by
      obtain ⟨-, front, c, hsplit, -⟩ := annotationName?_spec hname
      have := congrArg List.length hsplit
      rw [length_drop, length_append, length_cons] at this
      omega
    have hend : (f ++ m).length - rest.length = d + (m.length - rest.length) := by
      rw [length_behind hf]
      omega
    simp only [hend]
    simp only [length_behind hf, skipBlanks_behind hf, getElem?_behind hf]
    split
    · refine (partner_behind hf m _).bind fun x y hxy => ?_
      subst hxy
      refine .pure ?_
      rw [show d + skipBlanks m (m.length - rest.length) m.length + 1 =
        d + (skipBlanks m (m.length - rest.length) m.length + 1) by omega, slice_behind hg]
      rfl
    · exact .ok rfl

include hg hf in
theorem annotationsFrom_behind (stop i : Nat) : Alike (fun x y => x.1 = y.1.map (·.move d) ∧ x.2 = d + y.2)
      (annotationsFrom (g ++ t) (f ++ m) (d + stop) (d + i)) (annotationsFrom t m stop i) := by
  have hle := le_skipBlanks m i stop
  rw [annotationsFrom, annotationsFrom]
  simp only [skipBlanks_behind hf, getElem?_behind hf, drop_behind hf, Nat.add_lt_add_iff_left]
  split
  · split
    · refine (annotationAt_behind hg hf t m _).bind fun a b hab => ?_
      subst hab
      refine .dite Nat.add_lt_add_iff_left (fun _ hlt => ?_) fun _ _ => .pure ⟨rfl, rfl⟩
      refine (annotationsFrom_behind stop b.span.stop).bind ?_
      rintro ⟨more, k⟩ ⟨more', k'⟩ ⟨hmore, hk⟩
      simp only at hmore hk
      subst hmore hk
      exact .pure ⟨rfl, rfl⟩
    · exact .ok ⟨rfl, rfl⟩
  · exact .ok ⟨rfl, rfl⟩
termination_by stop - i

/-! ## Members -/

theorem fieldOf?_move (declaration : Text) (as : List Annotation) (span : Span) :
    fieldOf? declaration (as.map (·.move d)) (span.move d) = (fieldOf? declaration as span).map (·.move d) := by
  simp only [fieldOf?]
  cases lastWord? (strip (((splitDeclarators declaration).map (·.takeWhile (· != '='))).headD [])) with
  | none => rfl
  | some word =>
    split <;> rfl

include hf in
theorem methodAt_behind (className : Text) (stop start i paren : Nat) (as : List Annotation) :
    Alike (fun a b => a = b.move d)
      (methodAt (f ++ m) className (d + stop) (d + start) (d + i) (d + paren) (as.map (·.move d)))
      (methodAt m className stop start i paren as) := by
  rw [methodAt, methodAt]
  refine (partner_behind hf m paren).bind fun x close hx => ?_
  subst hx
  simp only [slice_behind hf, Nat.add_assoc, firstWithin?_behind hf]
  split
  · cases firstWithin? m (close + 1) stop fun c => c == ';' || c == '{' with
    | none => exact .error _ _
    | some k =>
      simp only [map_some, getElem?_behind hf]
      split
      · refine (partner_behind hf m k).bind fun x closing hx => ?_
        subst hx
        exact .pure rfl
      · exact .pure rfl
  · exact .error _ _

include hg hf in
theorem memberAt_behind (className : Text) (stop start : Nat) :
    Alike (fun a b => a = b.move d) (memberAt (g ++ t) (f ++ m) className (d + stop) (d + start))
      (memberAt t m className stop start) := by
  rw [memberAt, memberAt]
  refine (annotationsFrom_behind hg hf t m stop start).bind ?_
  rintro ⟨as, i⟩ ⟨as', i'⟩ ⟨has, hi⟩
  simp only at has hi
  subst has hi
  simp only [firstWithin?_behind hf]
  cases firstWithin? m i' stop fun c => c == ';' || c == '{' || c == '=' || c == '(' with
  | none => exact .error _ _
  | some k =>
    simp only [map_some, slice_behind hf, getElem?_behind hf, firstWithin?_behind hf]
    split
    · cases firstWithin? m k stop (· == '{') with
      | none => exact .error _ _
      | some brace =>
        simp only [map_some]
        refine (partner_behind hf m brace).bind fun x closing hx => ?_
        subst hx
        refine .pure ?_
        split <;> rfl
    · split
      · refine (methodAt_behind hf m className stop start i' k as').bind fun x y hxy => ?_
        subst hxy
        exact .pure rfl
      · refine (declarationEnd_behind hf m i' stop).bind ?_
        rintro x last ⟨hx, hlast⟩
        subst hx
        rw [show (⟨d + start, d + last⟩ : Span) = Span.move d ⟨start, last⟩ from rfl,
          Nat.add_sub_assoc hlast, slice_behind hf, fieldOf?_move]
        cases fieldOf? (slice m i' (last - 1)) as' ⟨start, last⟩ with
        | none | some field => exact .pure rfl

include hg hf in
theorem membersFrom_behind (className : Text) (stop i : Nat) :
    Alike (fun x y => x = y.map (·.move d)) (membersFrom (g ++ t) (f ++ m) className (d + stop) (d + i))
      (membersFrom t m className stop i) := by
  have hle := le_skipBlanks m i stop
  rw [membersFrom.eq_def (g ++ t), membersFrom.eq_def t]
  simp only [skipBlanks_behind hf, getElem?_behind hf]
  refine .dite Nat.add_lt_add_iff_left (fun _ hj => ?_) fun _ _ => .ok rfl
  split
  · exact membersFrom_behind className stop (skipBlanks m i stop + 1)
  · refine (memberAt_behind hg hf t m className stop _).bind fun x y hxy => ?_
    subst hxy
    have hspan : (y.move d).span.stop = d + y.span.stop := by rw [Member.span_move]; rfl
    refine .dite (by rw [hspan]; exact Nat.add_lt_add_iff_left) (fun _ hlt => ?_) fun _ _ => .pure rfl
    rw [hspan]
    refine (membersFrom_behind className stop y.span.stop).bind fun rest rest' hrest => ?_
    subst hrest
    exact .pure rfl
termination_by stop - i

/-! ## Types -/

theorem matchHere_add {α before} {r : Recogniser α} {p q} (t : Text) (pos : Nat)
    (h : before p = before q) : matchHere before r p (d + pos) t = (matchHere before r q pos t).map (·.move d) := by
  rw [matchHere, matchHere, h]
  split
  · rw [Option.map_map]
    exact congrArg (Option.map · (r t)) (funext fun x => by simp [Match.move, Nat.add_assoc])
  · rfl

theorem searchFrom_add {α before} {r : Recogniser α} : ∀ (t : Text) {p q} (pos : Nat),
    before p = before q → searchFrom before r p (d + pos) t = (searchFrom before r q pos t).map (·.move d)
  | [], p, q, pos, h => matchHere_add [] pos h
  | c :: t, p, q, pos, h => by
    rw [searchFrom, searchFrom, matchHere_add (c :: t) pos h, Nat.add_assoc, searchFrom_add t (pos + 1) rfl]
    cases matchHere before r q pos (c :: t) <;> rfl

include hf in
theorem charBefore_behind (hlast : Before.wordStart f.getLast? = true) (pos : Nat) :
    Before.wordStart (charBefore (f ++ m) (d + pos)) = Before.wordStart (charBefore m pos) := by
  cases pos with
  | succ n =>
    show Before.wordStart (f ++ m)[d + n]? = Before.wordStart m[n]?
    rw [getElem?_behind hf]
  | zero =>
    subst hf
    rw [getLast?_eq_getElem?] at hlast
    cases hlength : f.length with
    | zero => rfl
    | succ n =>
      show Before.wordStart (f ++ m)[n]? = true
      rw [hlength, Nat.add_sub_cancel] at hlast
      rw [getElem?_append_left (by omega), hlast]

include hf in
theorem search_behind {α} {r : Recogniser α} (hlast : Before.wordStart f.getLast? = true) (s e : Nat) :
    search (f ++ m) (d + s) (d + e) Before.wordStart r = (search m s e Before.wordStart r).map (·.move d) := by
  rw [search, search, slice_behind hf, searchFrom_add _ s (charBefore_behind hf m hlast s)]

/-- The first type is the second as it is read behind a front of that many characters; its members may be indented
otherwise. -/
structure TypeDecl.Moved (d : Nat) (a b : TypeDecl) : Prop where
  kind : a.kind = b.kind
  name : a.name = b.name
  superclass : a.superclass = b.superclass
  start : a.start = d + b.start
  body : a.body = b.body.move d
  members : a.members = b.members.map (·.move d)

include hg hf in
theorem typeAt_behind (head : Match (TypeKind × Text)) :
    Alike (TypeDecl.Moved d) (typeAt (g ++ t) (f ++ m) (head.move d)) (typeAt t m head) := by
  obtain ⟨start, stop, kind, name⟩ := head
  simp only [typeAt, Match.move, length_behind hf, firstWithin?_behind hf]
  cases firstWithin? m stop m.length (· == '{') with
  | none => exact .error _ _
  | some brace =>
    simp only [map_some]
    refine (partner_behind hf m brace).bind fun x close hx => ?_
    subst hx
    split
    · refine (membersFrom_behind hg hf t m name close (brace + 1)).bind fun x members hx => ?_
      subst hx
      exact .pure ⟨rfl, rfl, by rw [slice_behind hf], rfl, rfl, rfl⟩
    · exact .pure ⟨rfl, rfl, by rw [slice_behind hf], rfl, rfl, rfl⟩

include hg hf in
/-- What is read of the end of a text is read behind any other front as well, with all offsets moved by the length of
the front. -/
theorem typesFrom_behind (hlast : Before.wordStart f.getLast? = true) (pos : Nat) :
    Alike (List.Forall₂ (TypeDecl.Moved d)) (typesFrom (g ++ t) (f ++ m) (d + pos)) (typesFrom t m pos) := by
  rw [typesFrom.eq_def (g ++ t), typesFrom.eq_def t, length_behind hf, search_behind hf m hlast]
  cases search m pos m.length Before.wordStart typeHead? with
  | none => exact .ok .nil
  | some head =>
    simp only [map_some]
    refine (typeAt_behind hg hf t m head).bind fun a b hab => ?_
    have hclosing : a.body.closing + 1 = d + (b.body.closing + 1) := by rw [hab.body]; rfl
    rw [hclosing]
    refine .dite (by omega) (fun _ hlt => ?_) fun _ _ => .pure (.cons hab .nil)
    refine (typesFrom_behind hlast (b.body.closing + 1)).bind fun rest rest' hrest => ?_
    exact .pure (.cons hab hrest)
termination_by m.length - pos

end Behind

/-! ## Files -/

/-- Where the head of a file ends: behind its last import, or else behind its package line. -/
def headStop (masked : Text) : Nat :=
  match (imports masked).getLast?, search masked 0 masked.length Before.lineStart package? with
  | some last, _ => last.span.stop
  | none, some p => p.stop
  | none, none => 0

/-- The text behind the head of a file, and what the mask shows of it. -/
def behindHead (t : Text) : Text × Text := (t.drop (headStop (mask t)), (mask t).drop (headStop (mask t)))

theorem HeadEnds.last {t rest} (h : HeadEnds t rest) : ∃ front c, t = front ++ c :: rest ∧ isWord c = false := by
  obtain ⟨front, blanks, tail, rfl, -, hblanks, htail⟩ := h
  have hword : ∀ c ∈ ';' :: (blanks ++ tail), isWord c = false := by
    intro c hc
    rcases mem_cons.1 hc with rfl | hc
    · decide
    · rcases mem_append.1 hc with hc | hc
      · have := hblanks c hc
        simp only [isInlineBlank, Bool.or_eq_true, beq_iff_eq] at this
        rcases this with rfl | rfl <;> decide
      · rcases htail with rfl | ⟨rfl, -⟩
        · rw [mem_singleton.1 hc]
          decide
        · simp at hc
  obtain ⟨init, c, hinit⟩ := eq_nil_or_concat' (';' :: (blanks ++ tail)) |>.resolve_left (by simp)
  refine ⟨front ++ init, c, ?_, hword c (by rw [hinit]; simp)⟩
  have := congrArg (front ++ · ++ rest) hinit
  simpa using this

theorem wordStart_of_headEnds {α masked r} {m : Match α}
    (hm : MatchWithin r masked 0 masked.length m)
    (hends : ∀ {t v rest}, r t = some (v, rest) → HeadEnds t rest) :
    m.stop ≤ masked.length ∧ Before.wordStart (masked.take m.stop).getLast? = true := by
  obtain ⟨rest, haccept, hstop⟩ := hm.accepts
  obtain ⟨front, c, hsplit, hc⟩ := (hends haccept).last
  refine ⟨hm.stop_le, ?_⟩
  have hlen := congrArg List.length hsplit
  simp only [length_append, length_cons] at hlen
  have hget : masked[m.start + front.length]? = some c := by
    have hfront : slice masked m.start masked.length = (front ++ [c]) ++ rest := by rw [hsplit]; simp
    rw [getElem?_front hfront (by simp)]
    simp
  have hpos : m.stop - 1 = m.start + front.length := by omega
  rw [getLast?_take, if_neg (by omega), hpos, hget, Before.wordStart]
  simp [hc]

theorem headStop_spec (masked : Text) : headStop masked ≤ masked.length ∧
    Before.wordStart (masked.take (headStop masked)).getLast? = true := by
  unfold headStop
  split
  · next last _ hlast =>
    obtain ⟨m, hm, rfl⟩ := mem_map.1 (mem_of_getLast? hlast)
    exact wordStart_of_headEnds (allMatches_spec hm (Nat.zero_le _) (Nat.le_refl _)) headEnds_import?
  · next p _ hp =>
    exact wordStart_of_headEnds (search_spec hp (Nat.zero_le _) (Nat.le_refl _)) headEnds_package?
  · exact ⟨Nat.zero_le _, rfl⟩

theorem readUnit_eq (t : Text) : readUnit t = (typesFrom t (mask t) (headStop (mask t))).map fun types => {
    text := t
    masked := mask t
    package := (search (mask t) 0 (mask t).length Before.lineStart package?).map (·.value)
    imports := imports (mask t)
    importsEnd := headStop (mask t)
    types := types } := by
  simp only [readUnit, headStop]
  cases typesFrom t (mask t) _ <;> rfl

theorem readUnit_behind (t : Text) :
    Alike (fun (unit : CompilationUnit) types => List.Forall₂ (TypeDecl.Moved unit.importsEnd) unit.types types)
      (readUnit t) (typesFrom (behindHead t).1 (behindHead t).2 0) := by
  obtain ⟨hle, hlast⟩ := headStop_spec (mask t)
  have hlength : (t.take (headStop (mask t))).length = headStop (mask t) := by
    rw [length_mask] at hle
    rw [length_take, Nat.min_eq_left hle]
  have hlength' : ((mask t).take (headStop (mask t))).length = headStop (mask t) := by
    rw [length_take, Nat.min_eq_left hle]
  have htypes := typesFrom_behind hlength hlength' (behindHead t).1 (behindHead t).2 hlast 0
  simp only [behindHead, take_append_drop, Nat.add_zero] at htypes
  exact htypes.map_left fun _ _ h => h

theorem forall₂_through {α β γ : Type} {R S} {xs : List α} {ys : List β} {zs : List γ}
    (h : List.Forall₂ R xs zs) (h' : List.Forall₂ S ys zs) :
    List.Forall₂ (fun x y => ∃ z, R x z ∧ S y z) xs ys := by
  induction h generalizing ys with
  | nil =>
    cases h'
    exact .nil
  | cons hr _ ih =>
    cases h' with
    | cons hs h' => exact .cons ⟨_, hr, hs⟩ (ih h')

/-- Two files with the same text behind their heads are read alike: their types are the same ones, moved. -/
theorem exists_readUnit_of_behindHead {s t} (h : behindHead s = behindHead t) {a}
    (ha : readUnit s = .ok a) : ∃ b, readUnit t = .ok b ∧
      List.Forall₂ (fun x y => ∃ z, TypeDecl.Moved a.importsEnd x z ∧ TypeDecl.Moved b.importsEnd y z)
        a.types b.types := by
  obtain ⟨types, htypes, hmoved⟩ := (readUnit_behind s).exists_of_ok ha
  rw [h] at htypes
  obtain ⟨b, hb, hmoved'⟩ := (readUnit_behind t).symm.exists_of_ok htypes
  exact ⟨b, hb, forall₂_through hmoved hmoved'⟩

end Java

end Rebind
