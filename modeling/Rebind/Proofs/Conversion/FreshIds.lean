/-
The ids that a conversion adds to layouts.

Ids of fields are compared with all ids that the main layout of the class shows, ids that are made up for an included
layout only with those that this one shows (`Session.Step`). A conversion adds no other ids (`steps_of_convertClass`).
-/
import Rebind.Proofs.Conversion.Agreement
import Rebind.Proofs.Conversion.Untouched
import Rebind.Proofs.Layout.FieldIds

namespace Rebind

open List

open Markup (Place)
open Relation (ReflTransGen)

namespace Layout

variable {fields : List Binding.FieldBinding} {reports : Keyed Text IdReport}

/-- One addition to the layouts for a class whose layout is `main`. An id for a field goes to an element that the main
layout shows, and the main layout shows that id nowhere. An id that is made up goes to an element of a layout that is
reached from the main one, and this layout shows that id nowhere. -/
inductive Session.Step (main : Text) (reached : Text → Prop) (s s' : Session) : Prop where
  | quiet (quiet : s.Quiet s')
  | field {v : Visit} {id : Text} (visited : v ∈ s.visits true main) (fresh : id ∉ s.ids main)
      (gives : s.Gives v.layout v.place id s')
  | madeUp {name id : Text} {place : Place} (reached : reached name) (fresh : id ∉ s.ids name)
      (gives : s.Gives name place id s')

section Steps

variable {main name : Text} {reached : Text → Prop} {s s' : Session}

theorem Session.Given.steps {used ids places} (h : Given name used s places ids s')
    (hname : reached name) (hused : ∀ id ∈ s.ids name, id ∈ used) : ReflTransGen (Step main reached) s s' := by
  induction h with
  | done => exact .refl
  | quiet step _ ih => exact .head (.quiet step) (ih fun id hid => hused id (step.mem_ids.1 hid))
  | give fresh step _ ih =>
    refine .head (.madeUp hname (fun hmem => fresh (hused _ hmem)) step) (ih fun x hx => ?_)
    rcases step.mem_ids.1 hx with hx | ⟨rfl, -⟩
    · exact mem_append_left _ (hused x hx)
    · exact mem_append_right _ (mem_singleton_self x)

theorem Repair.steps_of_rootId {r} (hname : reached name) (hrun : rootId name s = (.ok r, s')) :
    ReflTransGen (Session.Step main reached) s s' := by
  rcases (rootAnswer?_of_rootId hrun).2 with ⟨-, hsame⟩ | ⟨-, id, ids, places, -, -, -, hgiven⟩
  · exact .single (.quiet (.of_layout?_eq hsame))
  · exact hgiven.steps hname fun _ hid => hid

theorem Repair.steps_of_ensureIdsFrom {known reports'} (hknown : ∀ id ∈ s.ids main, id ∈ known)
    (hrun : ensureIdsFrom main known reports fields s = (.ok reports', s')) :
    ReflTransGen (Session.Step main reached) s s' := by
  induction fields generalizing s known reports with
  | nil =>
    cases hrun
    exact .refl
  | cons b fields ih =>
    obtain ⟨r, t, hstep, hrest⟩ := ensureIdsFrom_cons.1 hrun
    have hensured := ensured_of_ensureId hstep
    generalize r.status = status at hensured
    unfold knownAfter at hrest
    cases hensured with
    | framework hframework =>
      rw [if_pos hframework] at hrest
      exact ih hknown hrest
    | known hown _ =>
      rw [hown] at hrest
      exact ih (fun id hid => mem_cons_of_mem _ (hknown id hid)) hrest
    | placed hown hnew hv hgives =>
      rw [hown] at hrest
      refine .head (.field hv (fun hmem => hnew (hknown _ hmem)) hgives) (ih (fun x hx => ?_) hrest)
      rcases hgives.mem_ids.1 hx with hx | ⟨rfl, -⟩
      · exact mem_cons_of_mem _ (hknown x hx)
      · exact mem_cons_self
    | asked hown _ _ hquiet _ =>
      rw [hown] at hrest
      exact .head (.quiet hquiet) (ih (fun x hx => mem_cons_of_mem _ (hknown x (hquiet.mem_ids.1 hx))) hrest)

theorem Repair.steps_of_ensureIds
    (hnamed : ∀ l, s.layout? main = some l → l.name = main) (hrun : ensureIds fields main s = (.ok reports, s')) :
    ReflTransGen (Session.Step main reached) s s' := by
  cases hlayout : s.layout? main with
  | none =>
    unfold ensureIds Repair.layout? at hrun
    rw [bind_ask, hlayout] at hrun
    cases hrun
    exact .single (.quiet (.of_layout?_eq (s.layout?_load main)))
  | some layout =>
    obtain ⟨t, ht, heq⟩ := ensureIds_eq hlayout (hnamed layout hlayout)
    refine .head (.quiet (.of_layout?_eq ht)) (steps_of_ensureIdsFrom (fun id hid => ?_) ((heq fields).symm.trans hrun))
    rwa [Session.ids_congr ht] at hid

end Steps

end Layout

namespace Conversion

open Layout (Session Repair Mentions)

/-- The ids that the conversion of a class adds are new to what the main layout shows if they are those of fields, and
new to what the layout shows that they are made up for otherwise. -/
theorem steps_of_convertClass {options : Options} {unit : Java.CompilationUnit} {type : Java.TypeDecl} {p q : Progress}
    {outcome : ClassOutcome} {anchor : Anchor} (hnamed : ∀ n l, p.layouts.layout? n = some l → l.name = n)
    (hanchor : Anchor.locate unit type = .ok anchor)
    (hrun : (convertClass options unit type).run p = .ok (outcome, q)) :
    ReflTransGen (Session.Step (layoutOf unit type anchor (p.layouts.files.map (·.1)))
      (ReflTransGen (Mentions p.layouts.root?) (layoutOf unit type anchor (p.layouts.files.map (·.1)))))
      p.layouts q.layouts := by
  generalize hknown : p.layouts.files.map (·.1) = known
  generalize hmain : layoutOf unit type anchor known = main
  let reached := ReflTransGen (Mentions p.layouts.root?) main
  let R (s t : Session) := Session.Agree reached known s t ∧ ReflTransGen (Session.Step main reached) p.layouts s
  have hlinks : Links reached known R := {
    known := fun h => (links_agree _ _).known h.1
    layout? := fun h hname => (links_agree _ _).layout? h.1 hname
    load := fun h hname => ⟨h.1.load hname, h.2.tail (.quiet (.of_layout?_eq (Session.layout?_load _ _)))⟩
    find := fun stop h hname => by
      obtain ⟨hsame, hagree, hnext⟩ := (links_agree _ _).find stop h.1 hname
      exact ⟨hsame, ⟨hagree, h.2.tail (.quiet (.of_layout?_eq (Session.layout?_find _ _ _)))⟩, hnext⟩ }
  have hrepair : RepairLinks reached (· = main) R := {
    rootId := fun {s t name} h hname => by
      obtain ⟨hsame, hagree⟩ := (repairLinks_agree _ _).rootId h.1 hname
      exact ⟨hsame, fun a ha => ⟨hagree a ha, h.2.trans (Repair.steps_of_rootId hname (Prod.ext ha rfl))⟩⟩
    ensureIds := fun {s t name} fields h hname => by
      subst hname
      obtain ⟨hsame, hagree⟩ := (repairLinks_agree _ _).ensureIds fields h.1 ReflTransGen.refl
      exact ⟨hsame, fun a ha => ⟨hagree a ha, h.2.trans (Repair.steps_of_ensureIds (h.1.named _) (Prod.ext ha rfl))⟩⟩ }
  have hstart : R p.layouts p.layouts :=
    ⟨⟨rfl, hknown, hknown, fun _ _ => rfl, fun _ _ ha hab => ReflTransGen.tail ha hab, hnamed⟩, .refl⟩
  have hagrees : Agrees R (convertClass options unit type) := by
    refine Agrees.convertClass hlinks (fun _ => hrepair) fun anchor' _ hanchor' => ?_
    obtain rfl := Except.ok.inj (hanchor.symm.trans hanchor')
    exact ⟨hmain ▸ .refl, hmain⟩
  rcases hagrees p p.layouts hstart with ⟨why, herror, -⟩ | ⟨outcome', q', t, hok, -, -, hsteps⟩
  · rw [hrun] at herror
    cases herror
  · rw [hrun] at hok
    cases hok
    exact hsteps

/-- A layout with an id that is also the one made up for the root of the layout that it includes. -/
def clashingLayouts : Keyed Text Bytes :=
  [("m", Text.utf8 ("<L xmlns:android=\"http://schemas.android.com/apk/res/android\">" ++
      "<include android:id=\"@+id/h\" layout=\"@layout/n\"/><V android:id=\"@+id/nRoot\"/></L>")),
    ("n", Text.utf8 "<V/>")]

theorem exists_run_clashingLayouts : ∃ unit type anchor outcome q, Anchor.locate unit type = .ok anchor ∧
    (convertClass toBinding unit type).run (start clashingLayouts boundInclude) = .ok (outcome, q) ∧
    q.layouts.ids "m" = ["h".toList, "nRoot".toList, "nRoot".toList] := by
  have hrun : ∃ unit ∈ (Java.readUnit boundInclude).toOption, ∃ type ∈ unit.types.head?,
      ∃ anchor ∈ (Anchor.locate unit type).toOption,
      ∃ r ∈ ((convertClass toBinding unit type).run (start clashingLayouts boundInclude)).toOption,
        r.2.layouts.ids "m" = ["h", "nRoot", "nRoot"] := by
    unfold clashingLayouts boundInclude
    repeat rewrite [String.toList_ofList]
    decide +kernel
  obtain ⟨unit, -, type, -, anchor, hanchor, ⟨outcome, q⟩, hok, hids⟩ := hrun
  exact ⟨unit, type, anchor, outcome, q, toOption_eq_some.1 hanchor, toOption_eq_some.1 hok, hids⟩

theorem steps_of_convertClass_clashingLayouts : ∃ unit type anchor outcome q,
    (convertClass toBinding unit type).run (start clashingLayouts boundInclude) = .ok (outcome, q) ∧
    ReflTransGen (Session.Step (layoutOf unit type anchor (clashingLayouts.map (·.1)))
      (ReflTransGen (Mentions ({ files := clashingLayouts } : Session).root?)
        (layoutOf unit type anchor (clashingLayouts.map (·.1)))))
      { files := clashingLayouts } q.layouts := by
  obtain ⟨unit, type, anchor, outcome, q, hanchor, hrun, -⟩ := exists_run_clashingLayouts
  have hnamed : ({ files := clashingLayouts } : Session).Named clashingLayouts := ⟨rfl, by simp, by simp⟩
  exact ⟨unit, type, anchor, outcome, q, hrun, steps_of_convertClass (fun n l hl => (hnamed.layout? hl).1) hanchor hrun⟩

/-- The id made up for the root of the included layout is one that the main layout has already. -/
theorem convertClass_duplicates_id : ({ files := clashingLayouts } : Session).ids "m" = ["h".toList, "nRoot".toList] ∧
    ∃ unit type outcome q,
      (convertClass toBinding unit type).run (start clashingLayouts boundInclude) = .ok (outcome, q) ∧
      q.layouts.ids "m" = ["h".toList, "nRoot".toList, "nRoot".toList] := by
  obtain ⟨unit, type, anchor, outcome, q, -, hrun, hids⟩ := exists_run_clashingLayouts
  have hbefore : ({ files := clashingLayouts } : Session).ids "m" = ["h".toList, "nRoot".toList] := by
    unfold clashingLayouts
    repeat rewrite [String.toList_ofList]
    decide +kernel
  exact ⟨hbefore, unit, type, outcome, q, hrun, hids⟩

end Conversion

end Rebind
