/-
The ids that fields are bound to.

`Ensured` says once what can happen to a field: its id is the framework's, is known, goes to a free view, or is asked
for by a comment. For ids that were asked for no view can get free any more, so a second run does nothing
(`ensureIds_repeated`).
-/
import Rebind.Proofs.Layout.Naming

namespace Rebind.Layout

open Rebind.Markup List
open Binding (FieldBinding)

variable {b : FieldBinding} {r : IdReport} {fields : List FieldBinding} {missed : Text → Prop}
    {reports : Keyed Text IdReport}

/-! ## One field -/

/-- A comment at the root of the layout asks for the id of the field. -/
def Session.Marked (s : Session) (name : Text) (b : FieldBinding) : Prop :=
  ∃ l, s.layout? name = some l ∧ hasComment l.document.root (marker b) = true

theorem Session.Extended.marked {s s' : Session} {name} (h : s.Extended s')
    (hmarked : s.Marked name b) : s'.Marked name b := by
  obtain ⟨l, hl, hcomment⟩ := hmarked
  have hrel := h name
  rw [hl] at hrel
  unfold Marked
  generalize s'.layout? name = o at hrel ⊢
  cases hrel with
  | @some _ l' hextended =>
    refine ⟨l', rfl, ?_⟩
    have hkept := hextended.viewKept []
    cases hkept with
    | some hkept =>
      obtain ⟨texts, hcomments, -⟩ := hkept.comments
      simp only [hasComment, contains_eq_mem, decide_eq_true_eq] at hcomment ⊢
      rw [hcomments]
      exact mem_append_right _ hcomment

/-- What can happen to a field, with the status reported for it and the session afterwards. -/
inductive Ensured (name : Text) (known : List Text) (b : FieldBinding) (s : Session) : IdStatus → Session → Prop where
  | framework (framework : b.isFramework = true) : Ensured name known b s .framework s
  | known (own : b.isFramework = false) (mem : b.id ∈ known) : Ensured name known b s .found s
  | placed {v : Visit} {t : Session} (own : b.isFramework = false) (new : b.id ∉ known)
      (visited : v ∈ s.visits true name)
      (gives : s.Gives v.layout v.place b.id t) : Ensured name known b s (.created (simpleTag v.element) v.layout) t
  | asked {t : Session} (own : b.isFramework = false) (new : b.id ∉ known) (none : (s.findFree b.type name).1 = none)
      (quiet : s.Quiet t) (marked : t.Marked name b) : Ensured name known b s .missing t

namespace Repair

variable {s s' : Session} {name : Text} {known : List Text} {b : FieldBinding}

theorem mark_eq_ok (hrun : s.change name (fun l => if hasComment l.document.root (marker b) then .ok l else
    l.addComment [] (marker b)) = .ok s') : s.Quiet s' ∧ s'.Marked name b := by
  refine ⟨.of_change hrun fun l l' hl => ?_, ?_⟩
  · split at hl
    · cases hl
      exact ⟨.refl l, fun _ => rfl⟩
    · exact ⟨(Addition.toRoot hl).extended, fun p => map_androidAttribute?_congr (LayoutFile.tag_of_addComment hl p) _⟩
  · obtain ⟨l, l', -, hl, hlayout⟩ := Session.change_eq_ok hrun
    refine ⟨l', by rw [hlayout, if_pos rfl], ?_⟩
    split at hl
    · next hcomment =>
      cases hl
      exact hcomment
    · rw [LayoutFile.addComment_root_eq_ok hl, hasComment, Content.comments_insertComment]
      simp

theorem mem_visits_of_findFree {type v} (h : (s.findFree type name).1 = some v) :
    v ∈ s.visits true name := by
  simp only [Session.findFree] at h
  split at h
  · cases h
  · exact mem_of_find?_eq_some h

theorem ensured_of_ensureId (hrun : ensureId name known b s = (.ok r, s')) : Ensured name known b s r.status s' := by
  unfold ensureId at hrun
  by_cases hframework : b.isFramework = true
  · rw [if_pos hframework] at hrun
    cases hrun
    exact .framework hframework
  · rw [if_neg hframework] at hrun
    have hown : b.isFramework = false := by simpa using hframework
    by_cases hknown : known.contains b.id = true
    · rw [if_pos hknown] at hrun
      cases hrun
      exact .known hown (by simpa using hknown)
    · rw [if_neg hknown] at hrun
      obtain ⟨status, t, hstatus, hpure⟩ := bind_eq_ok.1 hrun
      cases hpure
      have hnew : b.id ∉ known := by simpa using hknown
      obtain ⟨found, t, hfound, hstatus⟩ := bind_eq_ok.1 hstatus
      cases hfound
      have hload := s.layout?_findFree b.type name
      cases hfound : (s.findFree b.type name).1 with
      | some v =>
        simp only [hfound] at hstatus
        obtain ⟨_, t', hchange, hpure⟩ := bind_eq_ok.1 hstatus
        cases hpure
        obtain ⟨a, ha, he, hid⟩ := s.findFree_eq_some hfound
        have hview : (s.findFree b.type name).2.view? v.layout v.place = some v.element := by
          rw [Session.view?, Session.root?, hload, ha]
          exact he
        have hgives := Session.Gives.of_change hview hid (change_eq_ok.1 hchange)
        exact .placed hown hnew (mem_visits_of_findFree hfound) (hgives.congr hload)
      | none =>
        simp only [hfound] at hstatus
        obtain ⟨_, t', hchange, hpure⟩ := bind_eq_ok.1 hstatus
        cases hpure
        obtain ⟨hquiet, hmarked⟩ := mark_eq_ok (change_eq_ok.1 hchange)
        exact .asked hown hnew hfound (.trans (.of_layout?_eq hload) hquiet) hmarked

def knownAfter (known : List Text) (b : FieldBinding) : List Text := if b.isFramework then known else b.id :: known

variable {fields : List FieldBinding} {reports reports' : Keyed Text IdReport} {t : Session}

theorem ensureIdsFrom_cons :
    ensureIdsFrom name known reports (b :: fields) s = (.ok reports', s') ↔ ∃ r t,
      ensureId name known b s = (.ok r, t) ∧
      ensureIdsFrom name (knownAfter known b) (reports.insert b.id r) fields t = (.ok reports', s') := bind_eq_ok

theorem ensureIds_eq {layout} (h : s.layout? name = some layout) (hname : layout.name = name) :
    ∃ t, t.layout? = s.layout? ∧ ∀ fields, ensureIds fields name s = ensureIdsFrom name (s.ids name) [] fields t := by
  subst hname
  refine ⟨((s.load layout.name).collectIds layout.name).2,
    (Session.layout?_collectIds _ _).trans (s.layout?_load layout.name), fun fields => ?_⟩
  unfold ensureIds layout?
  rw [bind_ask, h, ← Session.ids_congr (s.layout?_load layout.name)]
  rfl

/-! ## A second run -/

/-- Every field whose id is not known when its turn comes has it in the layout, or it is asked for and no view is free
for it. -/
def Answered (s : Session) (name : Text) : List Text → List FieldBinding → Prop
  | _, [] => True
  | known, b :: fields =>
    (b.isFramework = false → b.id ∉ known →
      b.id ∈ s.ids name ∨ (s.findFree b.type name).1 = none ∧ s.Marked name b) ∧
    Answered s name (knownAfter known b) fields

theorem Answered.mono {known' : List Text} (h : Answered s name known fields) (hsub : ∀ id ∈ known, id ∈ known') :
    Answered s name known' fields := by
  induction fields generalizing known known' with
  | nil => trivial
  | cons b fields ih =>
    refine ⟨fun hown hnew => h.1 hown fun hmem => hnew (hsub _ hmem), ih h.2 fun id hid => ?_⟩
    unfold knownAfter at hid ⊢
    split at hid
    · next hframework => rw [if_pos hframework]; exact hsub id hid
    · next hframework =>
      rw [if_neg hframework]
      exact (mem_cons.1 hid).elim (fun heq => heq ▸ mem_cons_self) fun hid =>
        mem_cons_of_mem _ (hsub id hid)

theorem Answered.covers (h : Answered s name known fields)
    (hb : b ∈ fields) (hown : b.isFramework = false) : b.id ∈ known ∨ b.id ∈ s.ids name ∨
      ∃ c ∈ fields, c.isFramework = false ∧ c.id = b.id ∧ s.Marked name c := by
  induction fields generalizing known with
  | nil => cases hb
  | cons c fields ih =>
    have here : c.isFramework = false → c.id = b.id → b.id ∈ known ∨ b.id ∈ s.ids name ∨
        ∃ d ∈ c :: fields, d.isFramework = false ∧ d.id = b.id ∧ s.Marked name d := by
      intro hc heq
      by_cases hmem : c.id ∈ known
      · exact .inl (heq ▸ hmem)
      · exact .inr ((h.1 hc hmem).imp (heq ▸ ·) fun hmarked => ⟨c, mem_cons_self, hc, heq, hmarked.2⟩)
    rcases mem_cons.1 hb with rfl | hb
    · exact here hown rfl
    · rcases ih h.2 hb with hmem | hids | ⟨c', hc', hrest⟩
      · unfold knownAfter at hmem
        split at hmem
        · exact .inl hmem
        · next hc =>
          rcases mem_cons.1 hmem with heq | hmem
          · exact here (by simpa using hc) heq.symm
          · exact .inl hmem
      · exact .inr (.inl hids)
      · exact .inr (.inr ⟨c', mem_cons_of_mem _ hc', hrest⟩)

theorem answered_of_run (hids : ∀ b ∈ fields, b.isFramework = false → b.id ≠ [])
    (hrun : ensureIdsFrom name known reports fields s = (.ok reports', s')) : Answered s' name known fields := by
  induction fields generalizing s known reports with
  | nil => trivial
  | cons b fields ih =>
    obtain ⟨r, t, hstep, hrest⟩ := ensureIdsFrom_cons.1 hrun
    refine ⟨fun hown hnew => ?_, ih (forall_mem_cons.1 hids).2 hrest⟩
    have hlater : t.Extended s' := by
      have := ensureIdsFrom_extends t name (knownAfter known b) (reports.insert b.id r) fields
      rwa [Extends, hrest] at this
    have hensured := ensured_of_ensureId hstep
    generalize r.status = status at hensured
    cases hensured with
    | framework hframework =>
      rw [hown] at hframework
      cases hframework
    | known _ hknown => exact absurd hknown hnew
    | placed _ _ hv hgives =>
      exact .inl (hlater.mem_ids (hgives.mem_ids.2 (.inr ⟨rfl, hids b mem_cons_self hown, _, hv, rfl, rfl⟩)))
    | asked _ _ hnone hquiet hmarked =>
      exact .inr ⟨(hquiet.extended.trans hlater).findFree_eq_none hnone, hlater.marked hmarked⟩

theorem exists_ensureId (ht : t.layout? = s.layout?)
    (h : b.isFramework = false → b.id ∉ known → (s.findFree b.type name).1 = none ∧ s.Marked name b) :
    ∃ r t', ensureId name known b t = (.ok r, t') ∧ t'.layout? = s.layout? := by
  unfold ensureId
  by_cases hframework : b.isFramework = true
  · rw [if_pos hframework]
    exact ⟨_, t, rfl, ht⟩
  · rw [if_neg hframework]
    by_cases hknown : known.contains b.id = true
    · rw [if_pos hknown]
      exact ⟨_, t, bind_eq_ok.2 ⟨_, t, rfl, rfl⟩, ht⟩
    · rw [if_neg hknown]
      obtain ⟨hnone, l, hl, hcomment⟩ := h (by simpa using hframework) (by simpa using hknown)
      have hload := (t.layout?_findFree b.type name).trans ht
      rw [← Session.findFree_congr ht] at hnone
      rw [← hload] at hl
      obtain ⟨t', ht'⟩ := Session.exists_change (f := fun l => if hasComment l.document.root (marker b) then .ok l else
        l.addComment [] (marker b)) (b := l) hl (by rw [if_pos hcomment])
      obtain ⟨l₁, l₂, hl₁, hl₂, hlayout⟩ := Session.change_eq_ok ht'
      obtain rfl := Option.some.inj (hl.symm.trans hl₁)
      rw [if_pos hcomment] at hl₂
      cases hl₂
      refine ⟨_, t', bind_eq_ok.2 ⟨.missing, t', bind_eq_ok.2 ⟨none, _, by rw [← hnone]; rfl,
        bind_eq_ok.2 ⟨(), t', change_eq_ok.2 ht', rfl⟩⟩, rfl⟩, ?_⟩
      rw [← hload]
      funext n
      rw [hlayout]
      split
      · next hn => rw [hn, hl]
      · rfl

theorem exists_rerun (h : Answered s name known fields) (hknown : ∀ id ∈ s.ids name, id ∈ known)
    (reports : Keyed Text IdReport) (ht : t.layout? = s.layout?) :
    ∃ reports' t', ensureIdsFrom name known reports fields t = (.ok reports', t') ∧ t'.layout? = s.layout? := by
  induction fields generalizing known reports t with
  | nil => exact ⟨reports, t, rfl, ht⟩
  | cons b fields ih =>
    obtain ⟨r, t₁, hstep, ht₁⟩ := exists_ensureId ht fun hown hnew =>
      (h.1 hown hnew).resolve_left fun hmem => hnew (hknown _ hmem)
    have hknown' : ∀ id ∈ s.ids name, id ∈ knownAfter known b := by
      intro id hid
      unfold knownAfter
      split
      · exact hknown id hid
      · exact mem_cons_of_mem _ (hknown id hid)
    obtain ⟨reports', t', hrest, ht'⟩ := ih h.2 hknown' (reports.insert b.id r) ht₁
    exact ⟨reports', t', ensureIdsFrom_cons.2 ⟨r, t₁, hstep, hrest⟩, ht'⟩

/-- After a run every id of a field, none of them empty, is in the layout or asked for at its root, and a second run
changes no layout. -/
theorem ensureIds_repeated {layout : LayoutFile} {fields : List FieldBinding} {reports : Keyed Text IdReport}
    (hlayout : s.layout? name = some layout) (hname : layout.name = name)
    (hids : ∀ b ∈ fields, b.isFramework = false → b.id ≠ []) (hrun : ensureIds fields name s = (.ok reports, s')) :
    (∀ b ∈ fields, b.isFramework = false → b.id ∈ (s'.collectIds name).1 ∨
      ∃ c ∈ fields, c.isFramework = false ∧ c.id = b.id ∧ s'.Marked name c) ∧
    ∃ reports' s'', ensureIds fields name s' = (.ok reports', s'') ∧ s''.layout? = s'.layout? := by
  have hextended : s.Extended s' := by
    have := ensureIds_extends s fields name
    rwa [Extends, hrun] at this
  obtain ⟨t, ht, heq⟩ := ensureIds_eq hlayout hname
  have hanswered := answered_of_run hids ((heq fields).symm.trans hrun)
  refine ⟨fun b hb hown => ?_, ?_⟩
  · rcases hanswered.covers hb hown with hmem | hrest
    · exact .inl (hextended.mem_ids hmem)
    · exact hrest
  · have hrel := hextended name
    rw [hlayout] at hrel
    cases hlayout' : s'.layout? name with
    | none =>
      rw [hlayout'] at hrel
      cases hrel
    | some layout' =>
      have hname' : layout'.name = name := by
        rw [hlayout'] at hrel
        cases hrel with
        | some hrel => rw [hrel.rest, hname]
      obtain ⟨t', ht', heq'⟩ := ensureIds_eq hlayout' hname'
      rw [heq']
      exact exists_rerun (hanswered.mono fun id => hextended.mem_ids) (fun _ hid => hid) [] ht'

/-- A layout with two views, none of which has an id. -/
def untagged : Session where
  files := [("main", Text.utf8 "<a><Button/><Button/></a>")]

def bound (type id : Text) : FieldBinding := ⟨"view", type, id, "R.id." ++ id⟩

theorem exists_run_untagged (fields : List FieldBinding) (h : (ensureIds fields "main" untagged).1.toBool = true) :
    ∃ layout reports s', untagged.layout? "main" = some layout ∧ layout.name = "main" ∧
      ensureIds fields "main" untagged = (.ok reports, s') := by
  have hread : (untagged.layout? "main").any (fun l => l.name == "main".toList) = true := by decide +kernel
  obtain ⟨layout, hlayout, hname⟩ := (Option.any_eq_true _ _).1 hread
  rcases hrun : ensureIds fields "main" untagged with ⟨e | reports, s'⟩
  · rw [hrun] at h
    cases h
  · exact ⟨layout, reports, s', hlayout, by simpa using hname, rfl⟩

theorem ensureIds_repeated_untagged : ∃ reports s',
    ensureIds [bound "Button" "send", bound "TextView" "title"] "main" untagged = (.ok reports, s') ∧
    (∀ b ∈ [bound "Button" "send", bound "TextView" "title"], b.isFramework = false →
      b.id ∈ (s'.collectIds "main").1 ∨ ∃ c ∈ [bound "Button" "send", bound "TextView" "title"],
        c.isFramework = false ∧ c.id = b.id ∧ s'.Marked "main" c) ∧
    ∃ reports' s'', ensureIds [bound "Button" "send", bound "TextView" "title"] "main" s' = (.ok reports', s'') ∧
      s''.layout? = s'.layout? := by
  obtain ⟨layout, reports, s', hlayout, hname, hrun⟩ :=
    exists_run_untagged [bound "Button" "send", bound "TextView" "title"] (by decide +kernel)
  exact ⟨reports, s', hrun, ensureIds_repeated hlayout hname (by decide) hrun⟩

/-- An empty id goes to a view and is in no list of ids, so that a second run gives it to the next view. -/
theorem ensureIds_empty_id :
    let s := (ensureIds [bound "Button" ""] "main" untagged).2
    (ensureIds [bound "Button" ""] "main" untagged).1.toBool = true ∧ ([] : Text) ∉ (s.collectIds "main").1 ∧
      (s.layout? "main").any (fun l => hasComment l.document.root (marker (bound "Button" ""))) = false ∧
      (ensureIds [bound "Button" ""] "main" s).2.layout? "main" ≠ s.layout? "main" := by
  decide +kernel

/-! ## The reports -/

/-- Some of the fields, from the first on, were enough for a report that the id is missing. -/
def MissedFrom (name : Text) (known : List Text) (reports : Keyed Text IdReport) (fields : List FieldBinding)
    (s : Session) (id : Text) : Prop :=
  ∃ before after reports' s', fields = before ++ after ∧
    ensureIdsFrom name known reports before s = (.ok reports', s') ∧
    (reports'.get? id).map (·.status) = some .missing

/-- What is known is in the layout or was missed, and the reports go by that. -/
structure Sound (name : Text) (missed : Text → Prop) (known : List Text) (reports : Keyed Text IdReport) (s : Session) :
    Prop where
  known_iff : ∀ id ≠ [], id ∈ known ↔ id ∈ s.ids name ∨ missed id
  of_missed : ∀ id, missed id → id ∈ known ∧ id ∉ s.ids name
  created : ∀ id ≠ [], ∀ tag l, (reports.get? id).map (·.status) = some (.created tag l) → id ∈ s.ids name
  missing : ∀ id, (reports.get? id).map (·.status) = some .missing → missed id
  found : ∀ id, (reports.get? id).map (·.status) = some .found → id ∈ known

theorem get?_insert_status (reports : Keyed Text IdReport) (k id : Text) (r : IdReport) :
    ((reports.insert k r).get? id).map (·.status) = if id = k then some r.status
      else (reports.get? id).map (·.status) := by
  rw [Keyed.get?_insert]
  split <;> rfl

theorem Sound.step (h : Sound name missed known reports s) (hstep : Ensured name known b s r.status s') :
    Sound name (fun id => missed id ∨ id = b.id ∧ r.status = .missing) (knownAfter known b)
      (reports.insert b.id r) s' := by
  have hids : ∀ id ∈ s.ids name, id ∈ known := fun id hid =>
    (h.known_iff id (Session.mem_ids.1 hid).choose_spec.2.1).2 (.inl hid)
  obtain ⟨hknown, hmissed, hcreated, hmissing, hfound⟩ := h
  generalize hstatus : r.status = status at hstep
  simp only [knownAfter]
  cases hstep with
  | framework hframework =>
    constructor <;> grind [get?_insert_status]
  | known hown hmem =>
    rw [hown]
    constructor <;> grind [get?_insert_status]
  | placed hown hnew hv hgives =>
    have hmem : ∀ x, x ∈ s'.ids name ↔ x ∈ s.ids name ∨ x = b.id ∧ b.id ≠ [] := fun x => by
      rw [hgives.mem_ids]
      exact or_congr_right (and_congr_right fun _ => ⟨fun hx => hx.1, fun hx => ⟨hx, _, hv, rfl, rfl⟩⟩)
    rw [hown]
    constructor <;> grind [get?_insert_status]
  | asked hown hnew hnone hquiet hmarked =>
    have hmem : ∀ x, x ∈ s'.ids name ↔ x ∈ s.ids name := fun x => hquiet.mem_ids
    constructor <;> grind [get?_insert_status]

theorem Sound.run {reports'}
    (h : Sound name missed known reports s) (hrun : ensureIdsFrom name known reports fields s = (.ok reports', s')) :
    ∃ known', Sound name (fun id => missed id ∨ MissedFrom name known reports fields s id) known' reports' s' := by
  induction fields generalizing s known reports missed with
  | nil =>
    obtain ⟨rfl, rfl⟩ : reports = reports' ∧ s = s' := by
      cases hrun
      exact ⟨rfl, rfl⟩
    have hsame : (fun id => missed id ∨ MissedFrom name known reports [] s id) = missed := by
      funext id
      refine propext (or_iff_left_of_imp ?_)
      rintro ⟨before, after, reports', s', hsplit, hbefore, hstatus⟩
      obtain rfl := (append_eq_nil_iff.1 hsplit.symm).1
      cases hbefore
      exact h.missing id hstatus
    rw [hsame]
    exact ⟨known, h⟩
  | cons b fields ih =>
    obtain ⟨r, t, hstep, hrest⟩ := ensureIdsFrom_cons.1 hrun
    obtain ⟨known', hsound⟩ := ih (h.step (ensured_of_ensureId hstep)) hrest
    refine ⟨known', ?_⟩
    convert hsound using 2 with id
    rw [or_assoc]
    refine or_congr_right' fun hnot => ⟨?_, ?_⟩
    · rintro ⟨before, after, reports'', s'', hsplit, hbefore, hstatus⟩
      cases before with
      | nil =>
        cases hbefore
        exact absurd (h.missing id hstatus) hnot
      | cons c before =>
        obtain ⟨rfl, rfl⟩ := List.cons.inj hsplit
        obtain ⟨r', t', hstep', hbefore⟩ := ensureIdsFrom_cons.1 hbefore
        cases hstep.symm.trans hstep'
        exact .inr ⟨before, after, reports'', s'', rfl, hbefore, hstatus⟩
    · rintro (⟨rfl, hstatus⟩ | ⟨before, after, reports'', s'', rfl, hbefore, hstatus⟩)
      · refine ⟨[b], fields, reports.insert b.id r, t, rfl, ensureIdsFrom_cons.2 ⟨r, t, hstep, rfl⟩, ?_⟩
        rw [get?_insert_status, if_pos rfl, hstatus]
      · exact ⟨b :: before, after, reports'', s'', rfl, ensureIdsFrom_cons.2 ⟨r, t, hstep, hbefore⟩, hstatus⟩

theorem startsWith_message (r : IdReport) : (r.message.startsWith "ID exists" = true ↔ r.status = .found) ∧
    (r.message.startsWith "ID created" = true ↔ ∃ tag l, r.status = .created tag l) ∧
    (r.message.startsWith "ID missing" = true ↔ r.status = .missing) := by
  have hfive : ∀ p : Text, 5 ≤ p.length → r.message.startsWith p = true → r.message.take 5 = p.take 5 := by
    intro p hp h
    obtain ⟨rest, hrest⟩ := Option.isSome_iff_exists.1 h
    rw [Text.after?_eq_some.1 hrest, take_append_of_le_length hp]
  have hthere : ∀ (p rest : Text), r.message = p ++ rest → r.message.startsWith p = true := fun p rest h =>
    Option.isSome_iff_exists.2 ⟨rest, Text.after?_eq_some.2 h⟩
  have hexists := hfive "ID exists" (by decide)
  have hcreated := hfive "ID created" (by decide)
  have hmissing := hfive "ID missing" (by decide)
  obtain ⟨status, suggestion⟩ := r
  refine ⟨⟨fun h => ?_, fun h => ?_⟩, ⟨fun h => ?_, fun h => ?_⟩, ⟨fun h => ?_, fun h => ?_⟩⟩
  · have := hexists h
    cases status <;> first | rfl | cases this
  · cases h
    exact hthere _ _ rfl
  · have := hcreated h
    cases status <;> first | exact ⟨_, _, rfl⟩ | cases this
  · obtain ⟨tag, l, rfl⟩ := h
    exact hthere "ID created" (" on " ++ tag ++ " in " ++ l ++ _) rfl
  · have := hmissing h
    cases status <;> first | rfl | cases this
  · cases h
    exact hthere "ID missing" (" - marker comment added" ++ _) rfl

/-- An id reported as created is in the layout, and one reported as missing is not. One reported as existing is there
unless it was reported as missing for an earlier field. -/
theorem ensureIds_truthful {layout : LayoutFile} {fields : List FieldBinding} {reports : Keyed Text IdReport}
    (hlayout : s.layout? name = some layout) (hname : layout.name = name)
    (hrun : ensureIds fields name s = (.ok reports, s')) {id : Text} (hid : id ≠ []) {report : IdReport}
    (hreport : reports.get? id = some report) :
    (report.message.startsWith "ID missing" = true → id ∉ (s'.collectIds name).1) ∧
    (report.message.startsWith "ID created" = true → id ∈ (s'.collectIds name).1) ∧
    (report.message.startsWith "ID exists" = true → (id ∈ (s'.collectIds name).1 ↔
      ∀ before after reports₁ s₁, fields = before ++ after → ensureIds before name s = (.ok reports₁, s₁) →
        (reports₁.get? id).map (·.status) ≠ some .missing)) := by
  obtain ⟨t, ht, heq⟩ := ensureIds_eq hlayout hname
  have hstart : Sound name (fun _ => False) (s.ids name) [] t := by
    constructor <;> simp [Session.ids_congr ht, Keyed.get?]
  obtain ⟨known, hsound⟩ := hstart.run ((heq fields).symm.trans hrun)
  have hmissed : (False ∨ MissedFrom name (s.ids name) [] fields t id) ↔ ¬∀ before after reports₁ s₁,
      fields = before ++ after → ensureIds before name s = (.ok reports₁, s₁) →
        (reports₁.get? id).map (·.status) ≠ some .missing := by
    simp only [false_or, MissedFrom, heq]
    push Not
    rfl
  have hstatus : ∀ status, report.status = status → (reports.get? id).map (·.status) = some status := by
    rintro status rfl
    rw [hreport]
    rfl
  obtain ⟨hexists, hcreated, hmissing⟩ := startsWith_message report
  refine ⟨fun h => ?_, fun h => ?_, fun h => ?_⟩
  · exact (hsound.of_missed id (hsound.missing id (hstatus _ (hmissing.1 h)))).2
  · obtain ⟨tag, l, h⟩ := hcreated.1 h
    exact hsound.created id hid tag l (hstatus _ h)
  · rcases (hsound.known_iff id hid).1 (hsound.found id (hstatus _ (hexists.1 h))) with hmem | hmiss
    · exact iff_of_true hmem (not_not.1 fun hnot => (hsound.of_missed id (hmissed.2 hnot)).2 hmem)
    · exact iff_of_false (hsound.of_missed id hmiss).2 (hmissed.1 hmiss)

theorem ensureIds_truthful_untagged : ∃ reports s' report,
    ensureIds [bound "Button" "send"] "main" untagged = (.ok reports, s') ∧ reports.get? "send" = some report ∧
    (report.message.startsWith "ID missing" = true → "send".toList ∉ (s'.collectIds "main").1) ∧
    (report.message.startsWith "ID created" = true → "send".toList ∈ (s'.collectIds "main").1) ∧
    (report.message.startsWith "ID exists" = true → ("send".toList ∈ (s'.collectIds "main").1 ↔
      ∀ before after reports₁ s₁, [bound "Button" "send"] = before ++ after →
        ensureIds before "main" untagged = (.ok reports₁, s₁) →
        (reports₁.get? "send").map (·.status) ≠ some .missing)) := by
  obtain ⟨layout, reports, s', hlayout, hname, hrun⟩ :=
    exists_run_untagged [bound "Button" "send"] (by decide +kernel)
  have hreport :
      ((ensureIds [bound "Button" "send"] "main" untagged).1.toOption.bind (·.get? "send")).isSome = true := by
    decide +kernel
  rw [hrun] at hreport
  obtain ⟨report, hreport⟩ := Option.isSome_iff_exists.1 hreport
  exact ⟨reports, s', report, hrun, hreport, ensureIds_truthful hlayout hname hrun (by decide) hreport⟩

/-- Two fields of one id for which there is no view: the report of the second one says that the id exists. -/
theorem ensureIds_found_missing :
    let run := ensureIds [bound "TextView" "title", bound "TextView" "title"] "main" untagged
    (run.1.toOption.bind (·.get? "title")).map (·.message) = some "ID exists".toList ∧
      "title".toList ∉ (run.2.collectIds "main").1 := by
  decide +kernel

end Repair

end Rebind.Layout
