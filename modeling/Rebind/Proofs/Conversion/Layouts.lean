/-
The layouts that a conversion reads and repairs.

Steps of a conversion touch the layouts only by questions and repairs, so from states that differ in their layouts alone
they go on alike as long as these do (`Agrees`), and a relation between the layouts is kept (`Links`, `RepairLinks`).
-/
import Rebind.Proofs.Conversion.Steps
import Rebind.Proofs.Layout.Files

namespace Rebind.Conversion

open Layout (Session Repair)
open Layout.Session (ReadStable Stable)
open Binding Edit Java List Conversion

/-- From states with related layouts that are otherwise equal the step fails alike, or gives the same result and such
states again. -/
def Agrees {α : Type} (R : Session → Session → Prop) (x : Conversion α) : Prop :=
  ∀ (p : Progress) (t : Session), R p.layouts t →
    (∃ why, x.run p = .error why ∧ x.run { p with layouts := t } = .error why) ∨
      ∃ a q t', x.run p = .ok (a, q) ∧ x.run { p with layouts := t } = .ok (a, { q with layouts := t' }) ∧
        R q.layouts t'

namespace Agrees

variable {α β : Type} {R : Session → Session → Prop}

theorem pure (a : α) : Agrees R (Pure.pure a) := fun p t h => .inr ⟨a, p, t, rfl, rfl, h⟩

theorem bind {x} {f : α → Conversion β} (hx : Agrees R x) (hf : ∀ a, Agrees R (f a)) :
    Agrees R (x >>= f) := by
  intro p t h
  rcases hx p t h with ⟨why, hp, ht⟩ | ⟨a, q, t', hp, ht, h'⟩
  · refine .inl ⟨why, ?_, ?_⟩
    · rw [StateT.run_bind, hp]
      rfl
    · rw [StateT.run_bind, ht]
      rfl
  · rw [run_bind_of_ok hp, run_bind_of_ok ht]
    exact hf a q t' h'

theorem forM {f : β → Conversion Unit} (h : ∀ b, Agrees R (f b)) : ∀ l : List β, Agrees R (l.forM f)
  | [] => pure _
  | b :: l => bind (h b) fun _ => forM h l

theorem mapM {f : β → Conversion α} : ∀ l : List β, (∀ b ∈ l, Agrees R (f b)) → Agrees R (l.mapM f)
  | [], _ => by
    exact pure _
  | b :: l, h => by
    rw [mapM_cons]
    exact bind (h b mem_cons_self) fun _ =>
      bind (mapM l (forall_mem_cons.1 h).2) fun _ => pure _

theorem bind_get {g : Progress → Conversion α}
    (h : ∀ (p : Progress) (t : Session), R p.layouts t → g { p with layouts := t } = g p ∧ Agrees R (g p)) :
    Agrees R (MonadState.get >>= g) := by
  intro p t hpt
  obtain ⟨hsame, hg⟩ := h p t hpt
  have hrun : (MonadState.get >>= g).run { p with layouts := t } = (g p).run { p with layouts := t } := by
    rw [← hsame]
    rfl
  rw [hrun]
  exact hg p t hpt

theorem modifies {f : Progress → Progress} (hf : ∀ p t, f { p with layouts := t } = { f p with layouts := t })
    (hlayouts : ∀ p, (f p).layouts = p.layouts) : Agrees R (MonadState.modifyGet fun p => ((), f p)) := by
  intro p t h
  refine .inr ⟨(), f p, t, rfl, ?_, by rwa [hlayouts]⟩
  rw [← hf]
  rfl

theorem read (r : Except ReadError α) : Agrees R (read r) := by
  cases r with
  | ok a => exact pure a
  | error why => exact fun p t _ => .inl ⟨_, rfl, rfl⟩

theorem bind_read {r} {f : α → Conversion β} (hf : ∀ a, r = .ok a → Agrees R (f a)) :
    Agrees R (Conversion.read r >>= f) := by
  cases r with
  | ok a => exact hf a rfl
  | error why => exact fun p t _ => .inl ⟨_, rfl, rfl⟩

theorem edit (f : Draft → Except EditError Draft) : Agrees R (edit f) := by
  intro p t h
  rw [run_edit, run_edit]
  cases f p.draft with
  | ok draft => exact .inr ⟨(), { p with draft }, t, rfl, rfl, h⟩
  | error why => exact .inl ⟨.conflict why, rfl, rfl⟩

theorem report (line : Text) : Agrees R (report line) := modifies (fun _ _ => rfl) fun _ => rfl

theorem needImports (names : List Text) : Agrees R (needImports names) :=
  modifies (fun _ _ => rfl) fun _ => rfl

/-- A question whose answers are the same, and what is done with an answer that satisfies `Q`. -/
theorem bind_ask {f} {g : α → Conversion β} {Q : α → Prop}
    (hf : ∀ s t, R s t → (f t).1 = (f s).1 ∧ R (f s).2 (f t).2 ∧ Q (f s).1) (hg : ∀ a, Q a → Agrees R (g a)) :
    Agrees R (ask f >>= g) := by
  intro p t h
  obtain ⟨hsame, hR, hQ⟩ := hf p.layouts t h
  have hp : (ask f).run p = .ok ((f p.layouts).1, { p with layouts := (f p.layouts).2 }) := rfl
  have ht : (ask f).run { p with layouts := t } = .ok ((f p.layouts).1, { p with layouts := (f t).2 }) := by
    rw [← hsame]
    rfl
  rw [run_bind_of_ok hp, run_bind_of_ok ht]
  exact hg _ hQ { p with layouts := (f p.layouts).2 } (f t).2 hR

theorem repair {r : Repair α} (hr : ∀ s t, R s t → (r t).1 = (r s).1 ∧ ∀ a, (r s).1 = .ok a → R (r s).2 (r t).2) :
    Agrees R (repair r) := by
  intro p t h
  obtain ⟨hsame, hR⟩ := hr p.layouts t h
  rcases hp : r p.layouts with ⟨result, s'⟩
  rcases ht : r t with ⟨result', t'⟩
  rw [hp, ht] at hsame hR
  obtain rfl : result' = result := hsame
  rw [run_repair, run_repair, hp, ht]
  cases result' with
  | ok a => exact .inr ⟨a, { p with layouts := s' }, t', rfl, rfl, hR a rfl⟩
  | error why => exact .inl ⟨.layout why, rfl, rfl⟩

/-! ## Steps that do not touch the layouts -/

theorem replaceContent (plan : Plan) (content : Statement) (before : List Text) (statement : Text)
    (after : List Text) : Agrees R (plan.replaceContent content before statement after) := by
  unfold Plan.replaceContent
  exact edit _

theorem declareHolder (plan : Plan) : Agrees R (declareHolder plan) := by
  unfold Conversion.declareHolder
  dsimp only
  split
  · exact report _
  · split
    · exact edit _
    · exact edit _

theorem releaseIn (plan : Plan) (release : Text) (m : Method) (b : Block) (ss : List Statement) :
    Agrees R (releaseIn plan release m b ss) := by
  unfold Conversion.releaseIn
  dsimp only
  split
  · exact edit _
  · split
    · exact edit _
    · exact edit _

theorem addTeardown (plan : Plan) (screen : Screen) (init : Method) : Agrees R (addTeardown plan screen init) := by
  unfold Conversion.addTeardown
  dsimp only
  split
  · refine bind (read _) fun ss => ?_
    split
    · exact pure _
    · split
      · exact releaseIn plan _ _ _ ss
      · exact pure _
  · exact edit _

theorem removeDeclaration (plan : Plan) (field : FieldBinding) : Agrees R (removeDeclaration plan field) := by
  unfold Conversion.removeDeclaration
  split
  · exact edit _
  · exact pure _

theorem lookupTarget (plan : Plan) (receiver : Text) (handler : HandlerBinding) (id : Text) :
    Agrees R (lookupTarget plan receiver handler id) := by
  unfold Conversion.lookupTarget
  split
  · exact pure _
  · dsimp only
    split
    · exact pure _
    · exact bind (needImports _) fun _ => pure _

theorem registrations (plan : Plan) {target : HandlerBinding → Text → Conversion Text}
    (htarget : ∀ handler id, Agrees R (target handler id)) : Agrees R (plan.registrations target) := by
  refine mapM _ fun b _ => ?_
  obtain ⟨handler, id⟩ := b
  exact bind (htarget handler id) fun _ => bind (needImports _) fun _ => pure _

theorem convertToLookups (plan : Plan) : Agrees R (convertToLookups plan) := by
  unfold Conversion.convertToLookups
  split
  · split
    · exact report _
    · refine bind (registrations plan fun _ _ => lookupTarget plan _ _ _) fun _ => ?_
      split
      · exact pure _
      · exact replaceContent plan _ _ _ _
  · exact pure _

theorem removeBindCall (plan : Plan) (m : Method) (b : Block) (call : Text.Match Unit) :
    Agrees R (removeBindCall plan m b call) := by
  refine bind (read _) fun _ => ?_
  dsimp only
  split
  · exact edit _
  · exact report _

theorem removeBindCalls (plan : Plan) (m : Method) : Agrees R (removeBindCalls plan m) := by
  unfold Conversion.removeBindCalls
  split
  · exact pure _
  · exact forM (removeBindCall plan m _) _

theorem removeUnbinder (plan : Plan) (f : Field) : Agrees R (removeUnbinder plan f) :=
  bind (edit _) fun _ => forM (fun _ => forM (fun _ => forM (fun _ => edit _) _) _) _

theorem removeBinding (plan : Plan) : Agrees R (removeBinding plan) :=
  bind (forM (removeBindCalls plan) _) fun _ => forM (removeUnbinder plan) _

theorem updateImports (unit : CompilationUnit) (needed : List Text) : Agrees R (updateImports unit needed) := by
  unfold Conversion.updateImports
  refine bind_get fun p t _ => ⟨rfl, bind (forM (fun span => ?_) _) fun _ => ?_⟩
  · unfold removeImports
    exact edit _
  · dsimp only
    split
    · exact edit _
    · exact pure _

end Agrees

/-! ## Steps that ask for layouts or repair them -/

/-- Sessions that are related have files of the known names and give the same answers about the layouts that are used;
asking leaves them related. -/
structure Links (used : Text → Prop) (known : List Text) (R : Session → Session → Prop) : Prop where
  known : ∀ {s t}, R s t → s.files.map (·.1) = known ∧ t.files.map (·.1) = known
  layout? : ∀ {s t name}, R s t → used name →
    t.layout? name = s.layout? name ∧ ∀ l, s.layout? name = some l → used l.name
  load : ∀ {s t name}, R s t → used name → R (s.load name) (t.load name)
  find : ∀ {s t name} (stop), R s t → used name → (t.find stop name).1 = (s.find stop name).1 ∧
    R (s.find stop name).2 (t.find stop name).2 ∧
    ∀ v, (s.find stop name).1 = some v → ∀ next, Layout.includedLayout? v.element = some next → used next

/-- Repairs of the layouts that are used give the same in related sessions and leave them related. -/
structure RepairLinks (used main : Text → Prop) (R : Session → Session → Prop) : Prop where
  rootId : ∀ {s t name}, R s t → used name → (Repair.rootId name t).1 = (Repair.rootId name s).1 ∧
    ∀ a, (Repair.rootId name s).1 = .ok a → R (Repair.rootId name s).2 (Repair.rootId name t).2
  ensureIds : ∀ {s t name} (fields), R s t → main name →
    (Repair.ensureIds fields name t).1 = (Repair.ensureIds fields name s).1 ∧
    ∀ a, (Repair.ensureIds fields name s).1 = .ok a →
      R (Repair.ensureIds fields name s).2 (Repair.ensureIds fields name t).2

/-- The layouts of the classes of a file that have bindings. -/
def BindsLayout (unit : CompilationUnit) (known : List Text) (name : Text) : Prop :=
  ∃ type anchor, type ∈ unit.types ∧ type.kind = .classType ∧ (bindingsOf unit type).isEmpty = false ∧
    Anchor.locate unit type = .ok anchor ∧ layoutOf unit type anchor known = name

namespace Agrees

section Linked

variable {used main : Text → Prop} {known : List Text} {R : Session → Session → Prop} (hR : Links used known R)

include hR

section Planned

variable {plan : Plan} (hrepair : plan.options.repair = true → RepairLinks used main R)

include hrepair

theorem includeRoot (id : Text) {e : Markup.Element}
    (he : ∀ next, Layout.includedLayout? e = some next → used next) : Agrees R (includeRoot plan id e) := by
  refine bind_ask (Q := fun included => ∀ name, included = some name → used name)
    (fun s t h => ?_) fun included hname => ?_
  · cases hnext : Layout.includedLayout? e with
    | none => exact ⟨rfl, h, fun name hname => by cases hname⟩
    | some next =>
      obtain ⟨hsame, hused⟩ := hR.layout? h (he next hnext)
      refine ⟨congrArg (Option.map (·.name)) hsame, hR.load h (he next hnext), fun name hname => ?_⟩
      obtain ⟨l, hl, rfl⟩ := Option.map_eq_some_iff.1 hname
      exact hused l hl
  · cases included with
    | none => exact bind (report _) fun _ => pure _
    | some name =>
      dsimp only
      split
      · exact pure _
      · next hon =>
        have hlinks := hrepair (by simpa using hon)
        refine bind (repair fun s t h => hlinks.rootId h (hname name rfl)) fun found => ?_
        cases found with
        | none | some rootId => exact pure _

variable (hlayout : used plan.layout)

include hlayout

theorem accessPath (id : Text) : Agrees R (accessPath plan id) := by
  have hstore : ∀ path : Text, Agrees R (do
      modify fun p => { p with paths := p.paths.insert id path }
      return path) := fun _ => bind (modifies (fun _ _ => rfl) fun _ => rfl) fun _ => pure _
  unfold Conversion.accessPath
  refine bind_get fun p t _ => ⟨rfl, ?_⟩
  split
  · exact pure _
  · refine bind_ask (Q := fun found => ∀ v, found = some v → ∀ next, Layout.includedLayout? v.element = some next →
      used next) (fun s t h => hR.find _ h hlayout) fun found hfound => ?_
    cases found with
    | none => exact bind (pure _) fun _ => hstore _
    | some v =>
      dsimp only
      split
      · exact bind (includeRoot hR hrepair id (hfound v rfl)) fun _ => bind (pure _) fun _ => hstore _
      · exact bind (pure _) fun _ => hstore _

theorem replaceUses (field : FieldBinding) : Agrees R (replaceUses plan field) :=
  bind (accessPath hR hrepair hlayout field.id) fun _ => bind (read _) fun _ => forM (fun _ => edit _) _

theorem convertToHolder : Agrees R (convertToHolder plan) := by
  have hrest : ∀ screen init, Agrees R (do
      Conversion.addTeardown plan screen init
      plan.bindings.fields.forM (Conversion.replaceUses plan)
      plan.bindings.fields.forM (Conversion.removeDeclaration plan)) := fun screen init =>
    bind (addTeardown plan screen init) fun _ => bind (forM (replaceUses hR hrepair hlayout) _) fun _ =>
      forM (removeDeclaration plan) _
  unfold Conversion.convertToHolder
  split
  · refine bind (read _) fun inflation => ?_
    cases inflation with
    | none => exact report _
    | some inflation =>
      refine bind (declareHolder plan) fun _ =>
        bind (registrations plan fun _ => accessPath hR hrepair hlayout) fun listeners => ?_
      dsimp only
      split
      · exact bind (replaceContent plan _ _ _ _) fun _ => hrest _ _
      · exact bind (replaceContent plan _ _ _ _) fun _ => hrest _ _
  · exact pure _

variable (hmain : main plan.layout)

include hmain

omit hR hlayout in
theorem checkIds : Agrees R (checkIds plan) := by
  unfold Conversion.checkIds
  split
  · next hon =>
    simp only [Bool.and_eq_true] at hon
    refine bind (repair fun s t h => ?_) fun reports => forM (fun _ => report _) reports
    exact (hrepair hon.1).ensureIds _ h hmain
  · exact pure _

theorem convertPlanned : Agrees R (convertPlanned plan) := by
  have hrest : Agrees R (if plan.bindings.unsupported.isEmpty then Conversion.removeBinding plan
      else plan.note (annotationList plan.bindings.unsupported ++ " not converted; ButterKnife.bind kept")) := by
    split
    · exact removeBinding plan
    · exact report _
  refine bind (checkIds hrepair hmain) fun _ => bind (forM (fun _ => edit _) _) fun _ => ?_
  cases plan.options.mode with
  | viewBinding => exact bind (convertToHolder hR hrepair hlayout) fun _ => hrest
  | findViewById => exact bind (convertToLookups plan) fun _ => hrest

end Planned

variable {options : Options} (hrepair : options.repair = true → RepairLinks used main R)

include hrepair

theorem convertClass {unit} {type : TypeDecl}
    (hlayout : ∀ anchor, (bindingsOf unit type).isEmpty = false → Anchor.locate unit type = .ok anchor →
      used (layoutOf unit type anchor known) ∧ main (layoutOf unit type anchor known)) :
    Agrees R (convertClass options unit type) := by
  unfold Conversion.convertClass
  dsimp only
  split
  · exact pure _
  · next hbindings =>
    refine bind (modifies (fun _ _ => rfl) fun _ => rfl) fun _ => bind (forM (fun _ => report _) _) fun _ => ?_
    refine bind_read fun anchor hanchor => bind_get fun p t hpt => ?_
    obtain ⟨hp, ht⟩ := hR.known hpt
    obtain ⟨hused, hmain⟩ := hlayout anchor (by simpa using hbindings) hanchor
    refine ⟨by rw [ht, hp], ?_⟩
    rw [hp]
    have hrest : ∀ plan : Plan, plan.options = options → used plan.layout → main plan.layout → Agrees R (do
        Conversion.ask fun s => ((), s.load plan.layout)
        plan.note ("layout " ++ plan.layout ++ " (" ++ plan.bindingClass ++ ")")
        Conversion.convertPlanned plan
        return (⟨type.name, true, (← MonadState.get).imports⟩ : ClassOutcome)) := by
      intro plan hplan hused hmain
      subst hplan
      refine bind_ask (Q := fun _ => True) (fun s t h => ⟨rfl, hR.load h hused, trivial⟩) fun _ _ => ?_
      refine bind (report _) fun _ => bind (convertPlanned hR hrepair hused hmain) fun _ => ?_
      exact bind_get fun p t _ => ⟨rfl, pure _⟩
    cases anchor.complaint? with
    | none => exact hrest _ rfl hused hmain
    | some message => exact bind (report _) fun _ => hrest _ rfl hused hmain

theorem convertUnit {unit : CompilationUnit} (hused : ∀ name, BindsLayout unit known name → used name ∧ main name) :
    Agrees R (convertUnit options unit) := by
  refine bind (mapM _ fun type htype => ?_) fun classes => ?_
  · obtain ⟨hmem, hkind⟩ := mem_filter.1 htype
    refine convertClass hR hrepair fun anchor hbindings hanchor => hused _ ?_
    exact ⟨type, anchor, hmem, by simpa using hkind, hbindings, hanchor, rfl⟩
  · split
    · exact bind (updateImports unit _) fun _ => pure _
    · exact pure _

end Linked

end Agrees

/-! ## Conditions on the layouts -/

/-- The sessions are one that satisfies the condition and has the files. -/
def Kept (I : Session → Prop) (files : Keyed Text Bytes) (s t : Session) : Prop := t = s ∧ I s ∧ s.files = files

variable {I : Session → Prop} {files : Keyed Text Bytes}

theorem links_kept (hI : ReadStable I) (files : Keyed Text Bytes) :
    Links (fun _ => True) (files.map (·.1)) (Kept I files) where
  known h := by
    obtain ⟨rfl, -, rfl⟩ := h
    exact ⟨rfl, rfl⟩
  layout? h _ := by
    obtain ⟨rfl, -, -⟩ := h
    exact ⟨rfl, fun _ _ => trivial⟩
  load h _ := by
    obtain ⟨rfl, hs, hfiles⟩ := h
    exact ⟨rfl, hI.load _ hs, (Stable.files files).load _ hfiles⟩
  find stop h _ := by
    obtain ⟨rfl, hs, hfiles⟩ := h
    exact ⟨rfl, ⟨rfl, hI.find stop _ hs, (Stable.files files).find stop _ hfiles⟩, fun _ _ _ _ => trivial⟩

theorem repairLinks_kept (hI : Stable I) (files : Keyed Text Bytes) :
    RepairLinks (fun _ => True) (fun _ => True) (Kept I files) where
  rootId h _ := by
    obtain ⟨rfl, hs, hfiles⟩ := h
    exact ⟨rfl, fun _ _ => ⟨rfl, Repair.Keeps.rootId hI _ _ hs, Repair.Keeps.rootId (.files files) _ _ hfiles⟩⟩
  ensureIds fields h _ := by
    obtain ⟨rfl, hs, hfiles⟩ := h
    exact ⟨rfl, fun _ _ =>
      ⟨rfl, Repair.Keeps.ensureIds hI fields _ _ hs, Repair.Keeps.ensureIds (.files files) fields _ _ hfiles⟩⟩

/-- A condition on the layouts is a relation between equal ones, so a conversion keeps it. -/
theorem keeps_of_convertUnit (hI : ReadStable I) {options} (hrepair : options.repair = true → Stable I)
    {unit p q classes} (hp : I p.layouts)
    (hrun : (convertUnit options unit).run p = .ok (classes, q)) : I q.layouts := by
  have hagrees : Agrees (Kept I p.layouts.files) (convertUnit options unit) :=
    Agrees.convertUnit (links_kept hI _) (fun hon => repairLinks_kept (hrepair hon) _) fun _ _ => ⟨trivial, trivial⟩
  rcases hagrees p p.layouts ⟨rfl, hp, rfl⟩ with ⟨why, herror, -⟩ | ⟨classes', q', t, hok, -, -, hI, -⟩
  · rw [hrun] at herror
    cases herror
  · rw [hrun] at hok
    cases hok
    exact hI

theorem named_changed {s : Session} (h : s.Named files) :
    (∀ l ∈ s.changed, files.has l.name = true) ∧ (s.changed.map (·.name)).Nodup := by
  unfold Session.changed
  have hread : ∀ l ∈ s.read.filterMap (·.2), ∃ name, (name, some l) ∈ s.read := by
    intro l hl
    obtain ⟨⟨name, layout⟩, hmem, hlayout⟩ := mem_filterMap.1 hl
    exact ⟨name, by rwa [← hlayout]⟩
  refine ⟨fun l hl => ?_, ?_⟩
  · obtain ⟨name, hmem⟩ := hread l (mem_filter.1 hl).1
    obtain ⟨rfl, hhas⟩ := h.named name l hmem
    exact hhas
  · -- the names are keys of what was read, in order
    have hsub : ((s.read.filterMap (·.2)).map (·.name)).Sublist (s.read.map (·.1)) := by
      have hnamed := h.named
      generalize s.read = read at hnamed
      induction read with
      | nil => exact .slnil
      | cons p read ih =>
        obtain ⟨name, layout⟩ := p
        have hrest := ih fun n l hl => hnamed n l (by simp [hl])
        cases layout with
        | none => exact hrest.cons _
        | some l =>
          obtain ⟨hname, -⟩ := hnamed name l (by simp)
          simp only [filterMap_cons, map_cons, hname]
          exact hrest.cons_cons _
    exact (((filter_sublist).map _).trans hsub).nodup h.nodup

theorem named_of_convert {options text o} (h : convert options files text = .ok o) :
    (∀ l ∈ o.layouts, files.has l.name = true) ∧ (o.layouts.map (·.name)).Nodup := by
  unfold convert at h
  dsimp only at h
  split at h
  · next unit _ =>
    rw [pure_bind] at h
    obtain ⟨⟨classes, p⟩, hrun, h⟩ := bind_eq_ok.1 h
    have hp : p.layouts.Named files :=
      keeps_of_convertUnit (Stable.named files).toReadStable (fun _ => .named files) ⟨rfl, by simp, by simp⟩ hrun
    split at h
    · rw [pure_eq_ok] at h
      subst h
      exact ⟨by simp, by simp⟩
    · split at h
      · rw [pure_eq_ok] at h
        subst h
        exact named_changed hp
      · cases h
  · cases h

end Rebind.Conversion
