/-
Where an id is found.

What is found for an id is the first element with that id, reached through the include elements on a way that comes to
no layout twice (`Walks.exists_way`). `locate_iff_mem_collectIds` puts both together.
-/
import Mathlib.Data.List.Nodup
import Rebind.Proofs.Layout.Reach

namespace Rebind.Layout

open Rebind.Markup List Option

/-! ## One list of visits -/

section Unique

variable {family : Family} {opened chain : List Text} {name : Text} {place : Place} {e : Element}

/-- A walk with its includes expanded is one list. -/
theorem Walks.unique {vs ws} (h : Walks family opened chain name place e vs)
    (h' : Walks family opened chain name place e ws) : vs = ws := by
  induction h generalizing ws with
  | @plain opened _ _ _ e inner hplain _ ih =>
    cases h' with
    | @plain _ _ _ _ _ inner' _ hchildren' =>
      have hinner : ∀ p ∈ e.inner.elements.zipIdx, inner p = inner' p := by
        rintro ⟨c, i⟩ hc
        exact ih c i hc (hchildren' c i hc)
      rw [flatMap_congr hinner]
    | nowhere hinclude _ =>
      rw [hinclude] at hplain
      cases hplain
    | missing hleads _ | followed hleads _ _ =>
      rw [isInclude_of_leadsTo? hleads] at hplain
      cases hplain
  | nowhere hinclude hleads =>
    cases h' with
    | plain hplain _ =>
      rw [hinclude] at hplain
      cases hplain
    | nowhere _ _ | missing _ _ => rfl
    | followed hleads' _ _ =>
      rw [hleads] at hleads'
      cases hleads'
  | missing hleads hmissing =>
    cases h' with
    | plain hplain _ =>
      rw [isInclude_of_leadsTo? hleads] at hplain
      cases hplain
    | nowhere _ _ | missing _ _ => rfl
    | followed hleads' hfound _ =>
      obtain rfl := some.inj (hleads.symm.trans hleads')
      rw [hmissing] at hfound
      cases hfound
  | followed hleads hfound _ ih =>
    cases h' with
    | plain hplain _ =>
      rw [isInclude_of_leadsTo? hleads] at hplain
      cases hplain
    | nowhere _ hleads' =>
      rw [hleads] at hleads'
      cases hleads'
    | missing hleads' hmissing =>
      obtain rfl := some.inj (hleads.symm.trans hleads')
      rw [hmissing] at hfound
      cases hfound
    | followed hleads' hfound' hwalk' =>
      obtain rfl := some.inj (hleads.symm.trans hleads')
      obtain rfl := some.inj (hfound.symm.trans hfound')
      rw [ih hwalk']

end Unique

/-! ## Ways through includes -/

/-- The include element is visible in the first layout and names the second one, and there is one of that name. -/
def IncludesBy (family : Family) (a : Text) (inc : Element) (b : Text) : Prop :=
  (family b).isSome = true ∧
    ∃ root place, family a = some root ∧ VisibleAt root place inc ∧ includedLayout? inc = some b

/-- Include elements by which one layout leads to another, each with the layout that it leads into. -/
inductive Way (family : Family) : Text → List (Element × Text) → Text → Prop where
  | here (a : Text) : Way family a [] a
  | through {a b c : Text} {inc : Element} {way : List (Element × Text)} (step : IncludesBy family a inc b)
      (rest : Way family b way c) : Way family a ((inc, b) :: way) c

/-- The layouts that a way from `a` comes to, `a` first. -/
def layoutsOn (a : Text) (way : List (Element × Text)) : List Text := a :: way.map Prod.snd

/-- The ids of the include elements on a way that have one, the outermost first. -/
def idsOn (way : List (Element × Text)) : List Text :=
  way.filterMap fun step => (viewId? step.1).filter fun id => !id.isEmpty

theorem chainBehind_append_idsOn (chain : List Text) (inc : Element) (next : Text) (way : List (Element × Text)) :
    chainBehind chain inc ++ idsOn way = chain ++ idsOn ((inc, next) :: way) := by
  unfold chainBehind idsOn
  rw [filterMap_cons]
  cases viewId? inc with
  | none => rfl
  | some id =>
    cases hid : id.isEmpty with
    | true | false => simp [Option.filter, hid]

section Walks

variable {family : Family} {opened chain : List Text} {name : Text} {place : Place} {e : Element} {vs : List Visit}

/-- Every element that a walk comes to is reached by a way through layouts that were not open before, none of them
twice, and its ids are those of the include elements on the way. -/
theorem Walks.exists_way (h : Walks family opened chain name place e vs) {root}
    (hroot : family name = some root) (he : VisibleAt root place e) (hname : name ∈ opened) {v} (hv : v ∈ vs) :
    ∃ way, Way family name way v.layout ∧ (layoutsOn name way).Nodup ∧ (∀ step ∈ way, step.2 ∉ opened) ∧
      v.chain = chain ++ idsOn way := by
  have here : ∀ {chain place e} {opened : List Text} {name : Text}, ∃ way,
      Way family name way (visitOf true opened chain name place e).layout ∧ (layoutsOn name way).Nodup ∧
        (∀ step ∈ way, step.2 ∉ opened) ∧ (visitOf true opened chain name place e).chain = chain ++ idsOn way :=
    ⟨[], .here _, nodup_singleton _, by simp, (append_nil _).symm⟩
  induction h generalizing root with
  | plain hplain _ ih =>
    rcases mem_cons.1 hv with rfl | hv
    · exact here
    · obtain ⟨⟨c, i⟩, hc, hv⟩ := mem_flatMap.1 hv
      exact ih c i hc hroot (he.child hplain (mem_zipIdx_iff_getElem?.1 hc)) hname hv
  | nowhere _ _ | missing _ _ =>
    obtain rfl := mem_singleton.1 hv
    exact here
  | @followed opened chain name next place e root' _ hleads hroot' _ ih =>
    rcases mem_cons.1 hv with rfl | hv
    · exact here
    · obtain ⟨hincluded, -, -, hnext⟩ := leadsTo?_eq_some.1 hleads
      obtain ⟨way, hway, hnodup, hfresh, hchain⟩ := ih hroot' (visibleAt_nil.2 rfl) mem_cons_self hv
      have hstep : IncludesBy family name e next := ⟨by rw [hroot']; rfl, root, place, hroot, he, hincluded⟩
      have hfresh' : ∀ step ∈ (e, next) :: way, step.2 ∉ opened := by
        intro step hmem
        rcases mem_cons.1 hmem with rfl | hmem
        · exact hnext
        · exact fun hopen => hfresh step hmem (mem_cons_of_mem _ hopen)
      refine ⟨(e, next) :: way, .through hstep hway, ?_, hfresh', ?_⟩
      · -- the layout of the walk is open, so the way does not come back to it
        refine nodup_cons.2 ⟨fun hmem => ?_, hnodup⟩
        obtain ⟨step, hon, heq⟩ := mem_map.1 hmem
        exact hfresh' step hon (heq ▸ hname)
      · rw [hchain, chainBehind_append_idsOn chain e next way]

end Walks

namespace Session

theorem locate_eq_find? (s : Session) (id name : Text) :
    (s.locate id name).1 = (s.visits true name).find? fun v => viewId? v.element == some id := rfl

/-- An id is found exactly if it is among those that are collected. What is found carries the id, comes first among
such elements in a walk of the layout, and is visible in its own layout, to which a way leads that comes to no layout
twice; the ids of the identified include elements on this way are those it is reached through. -/
theorem locate_iff_mem_collectIds {s : Session} {name id : Text} {layout : LayoutFile}
    (h : s.layout? name = some layout) (hid : id ≠ []) :
    ((s.locate id name).1.isSome = true ↔ id ∈ (s.collectIds name).1) ∧
    ∀ v, (s.locate id name).1 = some v →
      viewId? v.element = some id ∧
      (∃ before after, (∀ vs, Walks s.root? [name] [] name [] layout.document.root vs ↔ vs = before ++ v :: after) ∧
        ∀ w ∈ before, viewId? w.element ≠ some id) ∧
      ∃ way root, Way s.root? name way v.layout ∧ (layoutsOn name way).Nodup ∧ v.chain = idsOn way ∧
        s.root? v.layout = some root ∧ VisibleAt root v.place v.element := by
  have hroot : s.root? name = some layout.document.root := by rw [root?, h]; rfl
  have hwalk := walks hroot
  rw [locate_eq_find?]
  refine ⟨?_, fun v hv => ?_⟩
  · rw [collectIds, mem_ids, find?_isSome]
    constructor
    · rintro ⟨v, hv, heq⟩
      exact ⟨v, hv, hid, beq_iff_eq.1 heq⟩
    · rintro ⟨v, hv, -, heq⟩
      exact ⟨v, hv, beq_iff_eq.2 heq⟩
  · obtain ⟨heq, before, after, hsplit, hbefore⟩ := find?_eq_some_iff_append.1 hv
    have hmem : v ∈ s.visits true name := mem_of_find?_eq_some hv
    obtain ⟨way, hway, hnodup, -, hchain⟩ :=
      hwalk.exists_way hroot (visibleAt_nil.2 rfl) (mem_singleton.2 rfl) hmem
    obtain ⟨-, root, hr, hvisible⟩ := hwalk.reaches hroot (visibleAt_nil.2 rfl) hmem
    refine ⟨beq_iff_eq.1 heq, ⟨before, after, fun vs => ⟨fun hvs => ?_, ?_⟩, fun w hw heq => ?_⟩, way, root, hway,
      hnodup, hchain, hr, hvisible⟩
    · exact (hvs.unique hwalk).trans hsplit
    · rintro rfl
      exact hsplit ▸ hwalk
    · have hnot := hbefore w hw
      simp [heq] at hnot

/-- A layout that includes a second one under an id, which includes a third one without an id, which includes the
first one again. -/
def nested : Session where
  files := [
    ("main", Text.utf8 ("<a><include xmlns:android=\"http://schemas.android.com/apk/res/android\" " ++
      "android:id=\"@+id/bar\" layout=\"@layout/bar\"/></a>")),
    ("bar", Text.utf8 "<b><include layout=\"@layout/part\"/></b>"),
    ("part", Text.utf8 ("<c><include layout=\"@layout/main\"/><d xmlns:android=" ++
      "\"http://schemas.android.com/apk/res/android\" android:id=\"@id/title\"/></c>"))]

theorem locate_nested :
    ∃ layout v, nested.layout? "main" = some layout ∧ (nested.locate "title" "main").1 = some v ∧
      v.layout = "part" ∧ v.chain = ["bar".toList] ∧ "title".toList ∈ (nested.collectIds "main").1 ∧
      ∃ way, Way nested.root? "main" way "part" ∧ (layoutsOn "main" way).Nodup ∧ v.chain = idsOn way := by
  have hread : (nested.layout? "main").isSome = true := by
    unfold nested
    repeat rewrite [String.toList_ofList]
    decide +kernel
  have hfound : (nested.locate "title" "main").1.any (fun v => v.layout == "part".toList && v.chain == ["bar".toList]) =
      true := by
    unfold nested
    repeat rewrite [String.toList_ofList]
    decide +kernel
  obtain ⟨layout, h⟩ := isSome_iff_exists.1 hread
  obtain ⟨v, hv, hat⟩ := (any_eq_true _ _).1 hfound
  simp only [Bool.and_eq_true, beq_iff_eq] at hat
  have hlocate := locate_iff_mem_collectIds h (by decide : "title".toList ≠ [])
  obtain ⟨-, -, way, -, hway, hnodup, hchain, -⟩ := hlocate.2 v hv
  refine ⟨layout, v, h, hv, hat.1, hat.2, hlocate.1.1 (by rw [hv]; rfl), way, hat.1 ▸ hway, hnodup, hchain⟩

end Session

end Rebind.Layout
