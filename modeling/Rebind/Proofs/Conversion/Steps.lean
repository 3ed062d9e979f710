/-
Reasoning about the steps of a conversion.

`Yields` is the triple of this library: from a given state the step does not fail because of an edit, and where it
succeeds a condition holds of its result and the state after it. `Ensures` is the second half alone. `Records` says that
the ranges recorded since a state are the edits that make some changes, in order; it composes (`Records.trans`).
-/
import Rebind.Proofs.Conversion.Placement

namespace Rebind

open Edit List Except Conversion

variable {pos : Nat}

variable {α : Type} {p q : Progress} {text : Text}

def Edit.isRange (e : Edit) : Bool := decide (e.start < e.stop)

namespace Conversion

open Java (Span ReadError)
open Text

/-! ## Changes as edits -/

/-- The edit that makes a change, where `content` is what is written for a content statement and `paths`
holds the ways to the views. -/
def Change.edit (t content : Text) (paths : Keyed Text Text) (c : Change) : Edit where
  start := (c.range t).start
  stop := (c.range t).stop
  text :=
    match c with
    | .removal _ => []
    | .content _ => content
    | .use _ id => (paths.get? id).getD []

/-- The ranges recorded between two states are the edits that make the changes, the ways that the uses among
them need are known, and something is written for a content statement. Ways that were known before are known
still. -/
structure Records (t content : Text) (p q : Progress) (cs : List Change) : Prop where
  edits : q.draft.edits.filter isRange =
    p.draft.edits.filter isRange ++ (cs.map (Change.edit t content q.paths)).filter isRange
  paths : ∀ id path, p.paths.get? id = some path → q.paths.get? id = some path
  known : ∀ s id, .use s id ∈ cs → ∃ path, q.paths.get? id = some path
  written : ∀ s, .content s ∈ cs → content ≠ []
  kept : p.draft.edits ⊆ q.draft.edits

structure Quiet (p q : Progress) : Prop where
  edits : q.draft.edits.filter isRange = p.draft.edits.filter isRange
  paths : ∀ id path, p.paths.get? id = some path → q.paths.get? id = some path
  kept : p.draft.edits ⊆ q.draft.edits

theorem Quiet.refl (p : Progress) : Quiet p p := ⟨rfl, fun _ _ h => h, fun _ h => h⟩

theorem Quiet.of_eq (hdraft : q.draft = p.draft) (hpaths : q.paths = p.paths) : Quiet p q :=
  ⟨by rw [hdraft], by simp [hpaths], by rw [hdraft]; exact List.Subset.refl _⟩

theorem Quiet.trans {r} (h : Quiet p q) (h' : Quiet q r) : Quiet p r :=
  ⟨h'.edits.trans h.edits, fun id path hid => h'.paths id path (h.paths id path hid), List.Subset.trans h.kept h'.kept⟩

namespace Records

variable {t content : Text} {p q r : Progress} {cs ds : List Change}

theorem of_quiet (h : Quiet p q) : Records t content p q [] := ⟨by simp [h.edits], h.paths, by simp, by simp, h.kept⟩

theorem trans (h : Records t content p q cs) (h' : Records t content q r ds) : Records t content p r (cs ++ ds) := by
  have hmap : cs.map (Change.edit t content q.paths) = cs.map (Change.edit t content r.paths) := by
    refine map_congr_left fun c hc => ?_
    cases c with
    | removal s | content s => rfl
    | use s id =>
      obtain ⟨path, hpath⟩ := h.known s id hc
      simp only [Change.edit, hpath, h'.paths id path hpath]
  refine ⟨?_, fun id path hid => h'.paths id path (h.paths id path hid), fun s id hmem => ?_, fun s hmem => ?_,
    List.Subset.trans h.kept h'.kept⟩
  · rw [h'.edits, h.edits, hmap, map_append, filter_append, append_assoc]
  · rcases mem_append.1 hmem with hmem | hmem
    · obtain ⟨path, hpath⟩ := h.known s id hmem
      exact ⟨path, h'.paths id path hpath⟩
    · exact h'.known s id hmem
  · exact (mem_append.1 hmem).elim (h.written s) (h'.written s)

theorem trans_quiet (h : Records t content p q cs) (h' : Quiet q r) : Records t content p r cs := by
  simpa using h.trans (of_quiet h')

theorem quiet_trans (h : Quiet p q) (h' : Records t content q r ds) : Records t content p r ds := by
  simpa using (of_quiet h).trans h'

theorem content_irrelevant (h : Records t content p q cs) (hcs : ∀ s, .content s ∉ cs) (content' : Text) :
    Records t content' p q cs := by
  refine ⟨?_, h.paths, h.known, fun s hs => absurd hs (hcs s), h.kept⟩
  have hmap : cs.map (Change.edit t content q.paths) = cs.map (Change.edit t content' q.paths) := by
    refine map_congr_left fun c hc => ?_
    cases c with
    | removal s => rfl
    | content s => exact absurd hc (hcs s)
    | use s id => rfl
  rw [h.edits, hmap]

end Records

/-! ## Steps -/

/-- The state is one of a conversion of the text: its edits lie in the text, its insertions are of the given kind, and
every way to a view goes through a dot. -/
structure Progress.Sound (W : Edit → Prop) (t : Text) (p : Progress) : Prop where
  text_eq : p.draft.text = t
  orderly : p.draft.Orderly
  inserted : ∀ e ∈ p.draft.edits, e.start < e.stop ∨ W e
  dotted : ∀ id path, p.paths.get? id = some path → '.' ∈ path

variable {W : Edit → Prop}

theorem Progress.Sound.of_eq {t} (h : p.Sound W t) (hdraft : q.draft = p.draft)
    (hpaths : q.paths = p.paths) : q.Sound W t :=
  ⟨hdraft ▸ h.text_eq, hdraft ▸ h.orderly, hdraft ▸ h.inserted, hpaths ▸ h.dotted⟩

theorem run_bind_of_ok {β x} {f : α → Conversion β} {a}
    (h : x.run p = .ok (a, q)) : (x >>= f).run p = (f a).run q := by
  rw [StateT.run_bind, h]
  rfl

theorem run_edit (f : Draft → Except EditError Draft) (p : Progress) : (edit f).run p = match f p.draft with
      | .ok draft => .ok ((), { p with draft })
      | .error why => .error (.conflict why) := by
  simp only [edit, StateT.run_bind, StateT.run_get, pure_bind]
  cases f p.draft <;> rfl

theorem run_repair (r : Layout.Repair α) (p : Progress) : (repair r).run p = match r p.layouts with
      | (.ok a, layouts) => .ok (a, { p with layouts })
      | (.error why, _) => .error (.layout why) := by
  simp only [repair, StateT.run_bind, StateT.run_get, pure_bind]
  rcases r p.layouts with ⟨why | a, layouts⟩ <;> rfl

/-- From a sound state the step does not fail because of an edit; where it succeeds, the state is sound and the condition
holds afterwards. -/
structure Yields {α : Type} (W : Edit → Prop) (t : Text) (x : Conversion α) (p : Progress)
    (post : α → Progress → Prop) : Prop where
  of_ok : p.Sound W t → ∀ a q, x.run p = .ok (a, q) → q.Sound W t ∧ post a q
  ne_conflict : p.Sound W t → ∀ why, x.run p ≠ .error (.conflict why)

namespace Yields

variable {α β : Type} {t : Text} {p : Progress} {x y : Conversion α} {post post' : α → Progress → Prop} {a : α}

theorem of_sound (h : p.Sound W t → Yields W t x p post) : Yields W t x p post :=
  ⟨fun hp => (h hp).of_ok hp, fun hp => (h hp).ne_conflict hp⟩

theorem mono (h : Yields W t x p post) (himp : ∀ a q, post a q → post' a q) : Yields W t x p post' :=
  ⟨fun hp a q hrun => (h.of_ok hp a q hrun).imp_right (himp a q), h.ne_conflict⟩

theorem with_run (h : Yields W t x p post) : Yields W t x p fun a q => x.run p = .ok (a, q) ∧ post a q :=
  ⟨fun hp a q hrun => (h.of_ok hp a q hrun).imp_right fun hpost => ⟨hrun, hpost⟩, h.ne_conflict⟩

theorem congr (hrun : x.run p = y.run p) (h : Yields W t y p post) : Yields W t x p post :=
  ⟨by rw [hrun]; exact h.of_ok, by rw [hrun]; exact h.ne_conflict⟩

theorem of_run (hrun : x.run p = .ok (a, q)) (hq : p.Sound W t → q.Sound W t) (h : post a q) :
    Yields W t x p post := by
  refine ⟨fun hp b r hrun' => ?_, fun _ why hrun' => ?_⟩
  · rw [hrun, ok.injEq, Prod.mk.injEq] at hrun'
    obtain ⟨rfl, rfl⟩ := hrun'
    exact ⟨hq hp, h⟩
  · rw [hrun] at hrun'
    simp at hrun'

theorem of_error {e} (hrun : x.run p = .error e) (he : ∀ why, e ≠ .conflict why) : Yields W t x p post := by
  refine ⟨fun _ b r hrun' => ?_, fun _ why hrun' => ?_⟩
  · rw [hrun] at hrun'
    simp at hrun'
  · rw [hrun, error.injEq] at hrun'
    exact he why hrun'

theorem pure (h : post a p) : Yields W t (pure a) p post := of_run rfl id h

theorem bind {f : α → Conversion β} {mid} {post : β → Progress → Prop} (h : Yields W t x p mid)
    (hf : ∀ a q, mid a q → Yields W t (f a) q post) : Yields W t (x >>= f) p post := by
  refine .of_sound fun hp => ?_
  cases hx : x.run p with
  | error e =>
    have hrun : (x >>= f).run p = .error e := by rw [StateT.run_bind, hx]; rfl
    exact of_error hrun fun why he => h.ne_conflict hp why (he ▸ hx)
  | ok aq =>
    obtain ⟨a, q⟩ := aq
    obtain ⟨hq, hmid⟩ := h.of_ok hp a q hx
    refine ⟨fun _ => ?_, fun _ => ?_⟩ <;> rw [run_bind_of_ok hx]
    · exact (hf a q hmid).of_ok hq
    · exact (hf a q hmid).ne_conflict hq

theorem read {r : Except ReadError α} : Yields W t (read r) p fun a q => r = .ok a ∧ q = p := by
  cases r with
  | ok a => exact of_run rfl id ⟨rfl, rfl⟩
  | error why => exact of_error rfl (by simp)

theorem get : Yields W t MonadState.get p fun a q => a = p ∧ q = p := of_run rfl id ⟨rfl, rfl⟩

/-! ### Steps that record no range -/

theorem quiet (hrun : x.run p = .ok (a, q)) (hdraft : q.draft = p.draft) (hpaths : q.paths = p.paths) :
    Yields W t x p fun _ q => Quiet p q :=
  of_run hrun (·.of_eq hdraft hpaths) (.of_eq hdraft hpaths)

theorem report (line : Text) : Yields W t (report line) p fun _ q => Quiet p q := quiet rfl rfl rfl

theorem needImports (names : List Text) : Yields W t (needImports names) p fun _ q => Quiet p q := quiet rfl rfl rfl

theorem ask (f : Layout.Session → α × Layout.Session) : Yields W t (ask f) p fun _ q => Quiet p q := quiet rfl rfl rfl

theorem repair (r : Layout.Repair α) : Yields W t (repair r) p fun _ q => Quiet p q := by
  have hrun := run_repair r p
  rcases hr : r p.layouts with ⟨why | a, layouts⟩
  all_goals rw [hr] at hrun
  · exact of_error hrun (by simp)
  · exact quiet hrun rfl rfl

/-! ### Edits -/

theorem replace {start stop : Nat} (hle : start ≤ stop) (hstop : stop ≤ t.length)
    (hkind : start < stop ∨ W ⟨start, stop, text⟩) :
    Yields W t (edit fun d => d.replace start stop text) p fun _ q =>
      q.draft.edits = p.draft.edits ++ [⟨start, stop, text⟩] ∧ q.paths = p.paths := by
  refine .of_sound fun hp => ?_
  have hin : ¬ (stop < start ∨ p.draft.text.length < stop) := by
    rw [hp.text_eq]
    omega
  have hreplace : p.draft.replace start stop text =
      .ok { p.draft with edits := p.draft.edits ++ [⟨start, stop, text⟩] } := if_neg hin
  have hrun : (edit fun d => d.replace start stop text).run p =
      .ok ((), { p with draft := { p.draft with edits := p.draft.edits ++ [⟨start, stop, text⟩] } }) := by
    rw [run_edit, hreplace]
  refine of_run hrun (fun _ => ⟨hp.text_eq, hp.orderly.replace hreplace, fun e he => ?_, hp.dotted⟩) ⟨rfl, rfl⟩
  rcases mem_append.1 he with he | he
  · exact hp.inserted e he
  · rwa [mem_singleton.1 he]

theorem replace_change (content : Text) {c : Change} (hlt : (c.range t).start < (c.range t).stop)
    (hstop : (c.range t).stop ≤ t.length) (htext : (c.edit t content p.paths).text = text)
    (hknown : ∀ s id, c = .use s id → ∃ path, p.paths.get? id = some path)
    (hwritten : ∀ s, c = .content s → content ≠ []) :
    Yields W t (edit fun d => d.replace (c.range t).start (c.range t).stop text) p fun _ q =>
      Records t content p q [c] := by
  refine (replace (Nat.le_of_lt hlt) hstop (.inl hlt)).mono fun _ q ⟨hedits, hpaths⟩ =>
    ⟨?_, by simp [hpaths], fun s id hmem => ?_, fun s hmem => hwritten s (mem_singleton.1 hmem).symm,
      hedits ▸ subset_append_left _ _⟩
  · rw [hedits, filter_append, hpaths, ← htext]
    rfl
  · rw [hpaths]
    exact hknown s id (mem_singleton.1 hmem).symm

theorem insert_mem (hpos : pos ≤ t.length) (hkind : W ⟨pos, pos, text⟩) (htext : text ≠ []) :
    Yields W t (edit fun d => d.insert pos text) p fun _ q =>
      Quiet p q ∧ ⟨pos, pos, text⟩ ∈ q.draft.edits := by
  have hnot : text.isEmpty = false := isEmpty_eq_false_iff.2 htext
  simp only [Draft.insert, hnot]
  refine (replace (Nat.le_refl pos) hpos (.inr hkind)).mono fun _ q ⟨hedits, hpaths⟩ =>
    ⟨⟨?_, by simp [hpaths], hedits ▸ subset_append_left _ _⟩, by simp [hedits]⟩
  rw [hedits]
  simp [isRange]

theorem insert (hpos : pos ≤ t.length) (hkind : W ⟨pos, pos, text⟩) :
    Yields W t (edit fun d => d.insert pos text) p fun _ q => Quiet p q := by
  by_cases htext : text = []
  · have hrun : (edit fun d => d.insert pos text).run p = .ok ((), p) := by
      simp [run_edit, Draft.insert, htext]
    exact quiet hrun rfl rfl
  · exact (insert_mem hpos hkind htext).mono fun _ _ hq => hq.1

theorem remove (content : Text) {s : Span} (hs : s.stop ≤ t.length) :
    Yields W t (edit fun d => d.remove s.start s.stop) p fun _ q =>
      Records t content p q [.removal s] := by
  refine .of_sound fun hp => ?_
  obtain ⟨-, -, hstop, -⟩ := removalSpan_spec (s := s.start) hs
  have hremove : p.draft.remove s.start s.stop =
      p.draft.delete (removed t s).start (removed t s).stop := by
    rw [← hp.text_eq]
    rfl
  by_cases hlt : (removed t s).start < (removed t s).stop
  · refine .congr ?_ (replace_change content (c := .removal s) hlt hstop rfl (by simp) (by simp))
    simp only [run_edit, hremove, Draft.delete, hlt, if_true]
    rfl
  · have hrun : (edit fun d => d.remove s.start s.stop).run p = .ok ((), p) := by
      simp [run_edit, hremove, Draft.delete, hlt]
    refine of_run hrun id ⟨?_, fun _ _ h => h, by simp, by simp, fun _ h => h⟩
    simp [isRange, Change.edit, Change.range, hlt]

/-! ### Loops -/

theorem forM_gather (content : Text) {f : β → Conversion Unit} {g : β → Except ReadError (List Change)} :
    ∀ {l p}, (∀ b ∈ l, ∀ p : Progress, Yields W t (f b) p fun _ q => ∃ cs, g b = .ok cs ∧
      Records t content p q cs) →
    Yields W t (l.forM f) p fun _ q => ∃ cs, gather g l = .ok cs ∧ Records t content p q cs
  | [], p, _ => pure ⟨[], rfl, .of_quiet (.refl p)⟩
  | b :: l, p, h => by
    refine (h b (by simp) p).bind fun _ q ⟨cs, hcs, hrec⟩ => ?_
    refine (forM_gather content (forall_mem_cons.1 h).2).mono fun _ r ⟨ds, hds, hrec'⟩ => ?_
    exact ⟨cs ++ ds, by simp [gather, hcs, hds, Bind.bind, Except.bind, Pure.pure, Except.pure], hrec.trans hrec'⟩

theorem forM_flatMap (content : Text) {f : β → Conversion Unit} {g} :
    ∀ {l : List β} {p},
    (∀ b ∈ l, ∀ p : Progress, Yields W t (f b) p fun _ q => Records t content p q (g b)) →
    Yields W t (l.forM f) p fun _ q => Records t content p q (l.flatMap g)
  | [], p, _ => pure (.of_quiet (.refl p))
  | b :: l, p, h => by
    refine (h b (by simp) p).bind fun _ q hrec => ?_
    refine (forM_flatMap content (forall_mem_cons.1 h).2).mono fun _ r hrec' => ?_
    exact hrec.trans hrec'

theorem forM_remove (content : Text) {l : List β} {span : β → Span}
    (hl : ∀ b ∈ l, (span b).stop ≤ t.length) :
    Yields W t (l.forM fun b => edit fun d => d.remove (span b).start (span b).stop) p fun _ q =>
      Records t content p q (l.map fun b => .removal (span b)) := by
  rw [map_eq_flatMap]
  exact forM_flatMap content fun b hb p => remove content (hl b hb)

/-- A loop that collects results and records nothing; what is known of a result stays known. -/
theorem mapM {f} {R : β → α → Progress → Prop}
    (hkeep : ∀ b a p q, Quiet p q → R b a p → R b a q) : ∀ {l p}, (∀ b ∈ l, ∀ p : Progress, Yields W t (f b) p fun a q => R b a q ∧ Quiet p q) →
    Yields W t (l.mapM f) p fun as q => List.Forall₂ (R · · q) l as ∧ Quiet p q
  | [], p, _ => pure ⟨.nil, .refl p⟩
  | b :: l, p, h => by
    rw [mapM_cons]
    refine (h b (by simp) p).bind ?_
    rintro a q ⟨ha, hrec⟩
    refine (mapM hkeep (forall_mem_cons.1 h).2).bind ?_
    rintro as r ⟨has, hrec'⟩
    exact pure ⟨.cons (hkeep b a q r hrec' ha) has, hrec.trans hrec'⟩

theorem forM {f : β → Conversion Unit} {l : List β}
    (h : ∀ b ∈ l, ∀ p : Progress, Yields W t (f b) p fun _ q => Quiet p q) :
    Yields W t (l.forM f) p fun _ q => Quiet p q := by
  induction l generalizing p with
  | nil => exact pure (.refl p)
  | cons b l ih =>
    refine (h b (by simp) p).bind fun _ q hrec => ?_
    exact (ih (forall_mem_cons.1 h).2).mono fun _ r hrec' => hrec.trans hrec'

end Yields

/-! ## Steps that succeed -/

/-- Where the step succeeds, the condition holds of its result and the state after it. -/
def Ensures {α : Type} (x : Conversion α) (p : Progress) (post : α → Progress → Prop) : Prop :=
  ∀ a q, x.run p = .ok (a, q) → post a q

namespace Ensures

variable {α β : Type} {p : Progress}

theorem mono {x} {post post' : α → Progress → Prop} (h : Ensures x p post)
    (himp : ∀ a q, post a q → post' a q) : Ensures x p post' :=
  fun a q hrun => himp a q (h a q hrun)

theorem of_run {x post} {a : α} (hrun : x.run p = .ok (a, q))
    (h : post a q) : Ensures x p post := by
  intro b r hrun'
  rw [hrun, ok.injEq, Prod.mk.injEq] at hrun'
  obtain ⟨rfl, rfl⟩ := hrun'
  exact h

theorem pure {a} {post : α → Progress → Prop} (h : post a p) : Ensures (pure a) p post := of_run rfl h

theorem bind {x f} {mid : α → Progress → Prop} {post : β → Progress → Prop}
    (h : Ensures x p mid) (hf : ∀ a q, mid a q → Ensures (f a) q post) : Ensures (x >>= f) p post := by
  intro b r hrun
  obtain ⟨⟨a, q⟩, hx, hrest⟩ := bind_eq_ok.1 hrun
  exact hf a q (h a q hx) b r hrest

theorem with_run {x} {post : α → Progress → Prop} (h : Ensures x p post) :
    Ensures x p fun a q => x.run p = .ok (a, q) ∧ post a q :=
  fun a q hrun => ⟨hrun, h a q hrun⟩

theorem forM {r : Progress → Progress → Prop} (hrefl : ∀ p, r p p) (htrans : ∀ {p q s}, r p q → r q s → r p s)
    {f : β → Conversion Unit} : ∀ {l : List β} {p}, (∀ b ∈ l, ∀ p, Ensures (f b) p fun _ q => r p q) →
    Ensures (l.forM f) p fun _ q => r p q
  | [], p, _ => pure (hrefl p)
  | b :: l, p, h => by
    refine (h b (by simp) p).bind fun _ q hq => ?_
    exact (forM hrefl htrans (forall_mem_cons.1 h).2).mono fun _ s hs => htrans hq hs

theorem read {r : Except Java.ReadError α} : Ensures (read r) p fun a q => r = .ok a ∧ q = p := by
  cases r with
  | ok a => exact of_run rfl ⟨rfl, rfl⟩
  | error why =>
    intro a q hrun
    cases hrun

theorem get : Ensures MonadState.get p fun a q => a = p ∧ q = p := of_run rfl ⟨rfl, rfl⟩

theorem edit {f} :
    Ensures (edit f) p fun _ q => ∃ d, f p.draft = .ok d ∧ q = { p with draft := d } := by
  intro a q hrun
  rw [run_edit] at hrun
  cases hf : f p.draft with
  | ok d =>
    rw [hf] at hrun
    cases hrun
    exact ⟨d, rfl, rfl⟩
  | error why =>
    rw [hf] at hrun
    cases hrun

theorem repair {r : Layout.Repair α} :
    Ensures (repair r) p fun _ q => q = { p with layouts := (r p.layouts).2 } := by
  intro a q hrun
  rw [run_repair] at hrun
  rcases hr : r p.layouts with ⟨why | b, layouts⟩
  all_goals
    rw [hr] at hrun
    cases hrun
  rfl

end Ensures

end Conversion

end Rebind
