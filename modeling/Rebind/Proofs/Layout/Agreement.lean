/-
Sessions that cannot be told apart by what they are asked.

Additions to a layout bring no mention (`KeepsMentions`). So two sessions that agree on layouts which mention only one
another answer all questions about these alike, and repair them alike (`Repair.Agrees`).
-/
import Rebind.Proofs.Layout.Location
import Rebind.Proofs.Layout.Repair

namespace Rebind.Layout

open Binding Rebind.Markup List Option Except
open Relation (ReflTransGen)

variable {family : Family} {a b name : Text} {root e e' : Element} {v : Visit}
    {f : LayoutFile → Except ChangeError LayoutFile}

/-! ## Mentions -/

/-- A visible include element below the root names the layout. -/
def MentionedIn (root : Element) (b : Text) : Prop := ∃ place e, VisibleAt root place e ∧ includedLayout? e = some b

/-- A visible include element of the first layout names the second one. -/
def Mentions (family : Family) (a b : Text) : Prop := ∃ root, family a = some root ∧ MentionedIn root b

theorem Mentions.of_includes (h : Includes family a b) : Mentions family a b := by
  obtain ⟨-, root, place, e, hroot, he, hincluded⟩ := h
  exact ⟨root, hroot, place, e, he, hincluded⟩

def Closed (used : Text → Prop) (family : Family) : Prop := ∀ a b, used a → Mentions family a b → used b

theorem Closed.of_includes {used} (h : Closed used family) (ha : used a)
    (hreach : ReflTransGen (Includes family) a b) : used b := by
  induction hreach with
  | refl => exact ha
  | @tail b c _ hstep ih => exact h b c ih (.of_includes hstep)

/-! ## Walks -/

section Walks

variable {family family' : Family} {used : Text → Prop} {opened chain : List Text} {name : Text} {place : Place}
  {e : Element} {vs : List Visit}

/-- A walk looks at the layouts that are mentioned on its way and at no others. -/
theorem Walks.congr (hsame : ∀ n, used n → family' n = family n) (hclosed : Closed used family)
    (h : Walks family opened chain name place e vs) (hroot : family name = some root)
    (he : VisibleAt root place e) (hname : used name) : Walks family' opened chain name place e vs := by
  induction h generalizing root with
  | plain hplain _ ih =>
    exact .plain hplain fun c i hc => ih c i hc hroot (he.child hplain (mem_zipIdx_iff_getElem?.1 hc)) hname
  | nowhere hinclude hleads => exact .nowhere hinclude hleads
  | @missing _ _ name next place e hleads hmissing =>
    have hnext : used next := hclosed name next hname ⟨root, hroot, place, e, he, (leadsTo?_eq_some.1 hleads).1⟩
    exact .missing hleads ((hsame next hnext).trans hmissing)
  | @followed _ _ name next place e root' _ hleads hfound _ ih =>
    have hnext : used next := hclosed name next hname ⟨root, hroot, place, e, he, (leadsTo?_eq_some.1 hleads).1⟩
    exact .followed hleads ((hsame next hnext).trans hfound) (ih hfound (visibleAt_nil.2 rfl) hnext)

theorem Walks.opens (h : Walks family opened chain name place e vs) (hv : v ∈ vs) {next}
    (hopens : v.opens = some next) : includedLayout? v.element = some next := by
  have here : ∀ {opened chain : List Text} {name : Text} {place : Place} {e : Element},
      (visitOf true opened chain name place e).opens = some next → includedLayout? e = some next := by
    intro opened chain name place e h
    exact (leadsTo?_eq_some.1 h).1
  induction h with
  | plain _ _ ih =>
    rcases mem_cons.1 hv with rfl | hv
    · exact here hopens
    · obtain ⟨⟨c, i⟩, hc, hv⟩ := mem_flatMap.1 hv
      exact ih c i hc hv
  | nowhere _ _ | missing _ _ =>
    obtain rfl := mem_singleton.1 hv
    exact here hopens
  | followed _ _ _ ih =>
    rcases mem_cons.1 hv with rfl | hv
    · exact here hopens
    · exact ih hv

end Walks

/-! ## Changes that bring no mention -/

theorem isInclude_of_tag (h : e'.tag.name = e.tag.name) : isInclude e' = isInclude e := by
  unfold isInclude tagName
  rw [h]

theorem find?_putAttribute (tag : Tag) (a : Attribute) (p : Attribute → Bool)
    (hp : ∀ b : Attribute, b.expanded = a.expanded → p b = false) :
    (tag.putAttribute a).attributes.find? p = tag.attributes.find? p := by
  unfold Tag.putAttribute
  dsimp only
  have hsplit := takeWhile_append_dropWhile (p := fun b => !decide (b.expanded = a.expanded)) (l := tag.attributes)
  split
  · rw [find?_append, find?_cons_of_neg (by simp [hp a rfl])]
    exact or_none
  · next b rest hdrop =>
    have hb : b.expanded = a.expanded := by
      have hhead := head?_dropWhile_not (fun b => !decide (b.expanded = a.expanded)) tag.attributes
      rw [hdrop] at hhead
      simpa using hhead
    rw [hdrop] at hsplit
    conv_rhs => rw [← hsplit]
    rw [find?_append, find?_append, find?_cons_of_neg (by simp [hp a rfl]), find?_cons_of_neg (by simp [hp b hb])]

theorem includedLayout?_of_setAttribute {tag around handedOut handedOut' uri value}
    (h : e.tag.setAttribute around handedOut uri name value = .ok (tag, handedOut')) :
    tag.name = e.tag.name ∧ includedLayout? { e with tag } = includedLayout? e := by
  have hlayout : ∀ {q : Option Text} (b : Attribute), b.expanded = (⟨⟨q, name⟩, some uri, value⟩ : Attribute).expanded →
      (b.space.isNone && b.name.base == layoutAttribute) = false := by
    intro q b hb
    have hspace : b.space = some uri := congrArg Prod.fst hb
    rw [hspace]
    rfl
  have hname : ∀ (tag : Tag) (a : Attribute), (tag.putAttribute a).name = tag.name := by
    intro tag a
    unfold Tag.putAttribute
    dsimp only
    split
    · rfl
    · rfl
  unfold Tag.setAttribute at h
  split at h
  · cases h
  · split at h
    · cases h
    · split at h
      · cases h
        refine ⟨hname _ _, ?_⟩
        unfold includedLayout?
        rw [isInclude_of_tag (hname _ _), find?_putAttribute _ _ _ hlayout]
      · cases h
        refine ⟨hname _ _, ?_⟩
        unfold includedLayout?
        rw [isInclude_of_tag (e := e) (hname _ _), find?_putAttribute _ _ _ hlayout]

theorem MentionedIn.of_modify? {root' place}
    (h : root.modify? (fun _ => some e') place = some root') (he : elementAt? root place = some e)
    (hinclude : isInclude e' = isInclude e) (hincluded : includedLayout? e' = includedLayout? e)
    (helements : e'.inner.elements = e.inner.elements) (hb : MentionedIn root' b) : MentionedIn root b := by
  induction place generalizing root root' with
  | nil =>
    obtain rfl := some.inj h
    obtain rfl := some.inj he
    obtain ⟨place, x, hx, hxb⟩ := hb
    cases place with
    | nil =>
      obtain rfl := visibleAt_nil.1 hx
      exact ⟨[], root, visibleAt_nil.2 rfl, hincluded ▸ hxb⟩
    | cons i place =>
      rw [visibleAt_cons, hinclude, helements] at hx
      exact ⟨i :: place, x, visibleAt_cons.2 hx, hxb⟩
  | cons i place ih =>
    obtain ⟨inner, hinner, rfl⟩ := map_eq_some_iff.1 h
    obtain ⟨c, c', hc, hc', hset, -⟩ := Content.modify?_spec hinner
    rw [elementAt?_cons, hc] at he
    obtain ⟨below, x, hx, hxb⟩ := hb
    cases below with
    | nil =>
      obtain rfl := visibleAt_nil.1 hx
      exact ⟨[], root, visibleAt_nil.2 rfl, hxb⟩
    | cons j below =>
      obtain ⟨hroot, d, hd, hx⟩ := visibleAt_cons.1 hx
      rw [hset, getElem?_set] at hd
      by_cases hij : i = j
      · subst hij
        rw [if_pos rfl, if_pos (List.getElem?_eq_some_iff.1 hc).1] at hd
        obtain rfl := some.inj hd
        obtain ⟨below', x', hx', hxb'⟩ := ih hc' he ⟨below, x, hx, hxb⟩
        exact ⟨i :: below', x', visibleAt_cons.2 ⟨hroot, c, hc, hx'⟩, hxb'⟩
      · rw [if_neg hij] at hd
        exact ⟨j :: below, x, visibleAt_cons.2 ⟨hroot, d, hd, hx⟩, hxb⟩

/-- The change keeps the name of a layout and brings no mention. -/
structure KeepsMentions (f : LayoutFile → Except ChangeError LayoutFile) : Prop where
  name : KeepsName f
  mentions : ∀ a b, f a = .ok b → ∀ n, MentionedIn b.document.root n → MentionedIn a.document.root n

namespace KeepsMentions

theorem ite (c : LayoutFile → Bool) (h : KeepsMentions f) : KeepsMentions fun l => if c l then .ok l else f l := by
  refine ⟨fun a b hab => ?_, fun a b hab n hn => ?_⟩
  · split at hab
    · cases hab
      rfl
    · exact h.name a b hab
  · split at hab
    · cases hab
      exact hn
    · exact h.mentions a b hab n hn

theorem setAttribute (place : Place) (key value : Text) : KeepsMentions fun l => l.setAttribute place key value := by
  refine ⟨LayoutFile.keepsName_setAttribute place key value, fun a b hab n hn => ?_⟩
  obtain ⟨around, e, tag, handedOut, he, hset, hput⟩ := LayoutFile.setAttribute_eq_ok hab
  obtain ⟨root, hroot, rfl⟩ := LayoutFile.put_eq_ok hput
  obtain ⟨hname, hincluded⟩ := includedLayout?_of_setAttribute hset
  exact .of_modify? hroot he (isInclude_of_tag hname) hincluded rfl hn

theorem assignId (place : Place) (id : Text) : KeepsMentions fun l => l.assignId place id := setAttribute _ _ _

theorem addComment (text : Text) : KeepsMentions fun l => l.addComment [] text := by
  refine ⟨LayoutFile.keepsName_addComment text, fun a b hab n hn => ?_⟩
  rw [LayoutFile.addComment_root_eq_ok hab] at hn
  have hroot : a.document.root.modify? (fun _ => some ⟨a.document.root.tag,
      a.document.root.inner.insertComment text a.document.root.inner.leading⟩) [] = some _ := rfl
  exact .of_modify? hroot rfl rfl rfl (Content.elements_insertComment _ _ _) hn

end KeepsMentions

/-! ## Sessions -/

/-- The sessions have read the same layouts, have files of the same names, and agree on the files of the layouts that
are used. -/
structure Session.Agree (used : Text → Prop) (known : List Text) (s t : Session) : Prop where
  read : t.read = s.read
  left : s.files.map (·.1) = known
  right : t.files.map (·.1) = known
  files : ∀ n, used n → t.files.get? n = s.files.get? n
  closed : Closed used s.root?
  named : ∀ n l, s.layout? n = some l → l.name = n

namespace Session.Agree

variable {used : Text → Prop} {known : List Text} {s t : Session} (h : Agree used known s t) {name : Text}

include h

theorem layout? (hname : used name) : t.layout? name = s.layout? name := by
  unfold Session.layout? file?
  rw [h.read, h.files name hname]

theorem root? (hname : used name) : t.root? name = s.root? name := by
  unfold Session.root?
  rw [h.layout? hname]

theorem load (hname : used name) : Agree used known (s.load name) (t.load name) := by
  have hlayout := layout?_load s name
  have hclosed : Closed used (s.load name).root? := by
    unfold Session.root?
    rw [hlayout]
    exact h.closed
  have hnamed : ∀ n l, (s.load name).layout? n = some l → l.name = n := by
    rw [hlayout]
    exact h.named
  revert hclosed hnamed
  unfold Session.load
  rw [h.read, h.layout? hname]
  split
  · intro _ _
    exact h
  · intro hclosed hnamed
    exact ⟨rfl, h.left, h.right, h.files, hclosed, hnamed⟩

theorem loadAll {names} (hnames : ∀ n ∈ names, used n) :
    Agree used known (s.loadAll names) (t.loadAll names) := by
  induction names generalizing s t with
  | nil => exact h
  | cons n names ih =>
    exact ih (h.load (hnames n mem_cons_self)) fun n' hn' => hnames n' (mem_cons_of_mem _ hn')

theorem visits (hname : used name) (descend : Bool) : t.visits descend name = s.visits descend name := by
  cases hroot : s.root? name with
  | none =>
    unfold Session.visits
    rw [h.root? hname, hroot]
  | some root =>
    have hroot' := (h.root? hname).trans hroot
    cases descend with
    | true =>
      have hwalk := (walks hroot).congr (fun n => h.root?) h.closed hroot (visibleAt_nil.2 rfl) hname
      exact (walks hroot').unique hwalk
    | false => rw [visits_false hroot, visits_false hroot']

theorem of_mem_visits (hname : used name) (hv : v ∈ s.visits true name) : used v.layout ∧
    (∀ next, includedLayout? v.element = some next → used next) ∧ ∀ next, v.opens = some next → used next := by
  cases hroot : s.root? name with
  | none => simp [Session.visits, hroot] at hv
  | some root =>
    have hwalk := walks hroot
    obtain ⟨hreach, r, hr, hvisible⟩ := hwalk.reaches hroot (visibleAt_nil.2 rfl) hv
    have hlayout : used v.layout := h.closed.of_includes hname hreach
    have hincluded : ∀ next, includedLayout? v.element = some next → used next := fun next hnext =>
      h.closed v.layout next hlayout ⟨r, hr, v.place, v.element, hvisible, hnext⟩
    exact ⟨hlayout, hincluded, fun next hopens => hincluded next (hwalk.opens hv hopens)⟩

theorem find (hname : used name) (stop : Visit → Bool) : (t.find stop name).1 = (s.find stop name).1 ∧
    Agree used known (s.find stop name).2 (t.find stop name).2 := by
  unfold Session.find walk
  rw [h.visits hname]
  refine ⟨rfl, h.loadAll fun n hn => ?_⟩
  obtain ⟨v, hv, hopens⟩ := mem_filterMap.1 hn
  exact (h.of_mem_visits hname ((takeWhile_sublist _).subset hv)).2.2 n hopens

theorem collectIds (hname : used name) : (t.collectIds name).1 = (s.collectIds name).1 ∧
    Agree used known (s.collectIds name).2 (t.collectIds name).2 := by
  refine ⟨?_, (h.find hname _).2⟩
  unfold Session.collectIds ids
  rw [h.visits hname]

theorem findFree (hname : used name) (type : Text) : (t.findFree type name).1 = (s.findFree type name).1 ∧
    Agree used known (s.findFree type name).2 (t.findFree type name).2 ∧
    ∀ v, (s.findFree type name).1 = some v → used v.layout := by
  simp only [Session.findFree]
  split
  · exact ⟨rfl, h, fun v hv => by cases hv⟩
  · obtain ⟨hsame, hagree⟩ := h.find hname _
    exact ⟨hsame, hagree, fun v hv => (h.of_mem_visits hname (mem_of_find?_eq_some hv)).1⟩

theorem nameless (hname : used name) : t.nameless name = s.nameless name := by
  unfold Session.nameless
  rw [h.visits hname]

omit h in
theorem layout_of_mem_nameless (hv : v ∈ s.nameless name) : v.layout = name := by
  obtain ⟨root, e, -, -, -, -, -, hv⟩ := mem_nameless.1 hv
  rw [hv]
  rfl

theorem change (hf : KeepsMentions f) (hname : used name) :
    (∃ why, s.change name f = .error why ∧ t.change name f = .error why) ∨
      ∃ s' t', s.change name f = .ok s' ∧ t.change name f = .ok t' ∧ Agree used known s' t' := by
  have hlayout := h.layout? hname
  cases hs : s.layout? name with
  | none =>
    rw [hs] at hlayout
    refine .inl ⟨.noElement, ?_, ?_⟩
    · simp only [Session.change, hs]
    · simp only [Session.change, hlayout]
  | some a =>
    rw [hs] at hlayout
    cases hb : f a with
    | error why =>
      refine .inl ⟨why, ?_, ?_⟩
      · simp only [Session.change, hs, hb]
        rfl
      · simp only [Session.change, hlayout, hb]
        rfl
    | ok b =>
      have hs' : s.change name f = .ok { s with read := s.read.insert name (some b) } := by
        simp only [Session.change, hs, hb]
        rfl
      have ht' : t.change name f = .ok { t with read := s.read.insert name (some b) } := by
        simp only [Session.change, hlayout, hb, h.read]
        rfl
      obtain ⟨a', b', ha', hb', hrest⟩ := change_eq_ok hs'
      obtain rfl := some.inj (hs.symm.trans ha')
      obtain rfl := ok.inj (hb.symm.trans hb')
      refine .inr ⟨_, _, hs', ht', rfl, h.left, h.right, h.files, fun c n hc hmentions => ?_, fun n l hl => ?_⟩
      · obtain ⟨root, hroot, hmentioned⟩ := hmentions
        unfold Session.root? at hroot
        rw [hrest c] at hroot
        by_cases hcn : c = name
        · subst hcn
          rw [if_pos rfl] at hroot
          obtain rfl := some.inj hroot
          have hroot : s.root? c = some a.document.root := by rw [Session.root?, hs]; rfl
          exact h.closed c n hc ⟨_, hroot, hf.mentions a b hb n hmentioned⟩
        · rw [if_neg hcn] at hroot
          exact h.closed c n hc ⟨root, hroot, hmentioned⟩
      · rw [hrest n] at hl
        by_cases hn : n = name
        · subst hn
          rw [if_pos rfl] at hl
          obtain rfl := some.inj hl
          exact (hf.name a b hb).trans (h.named n a hs)
        · rw [if_neg hn] at hl
          exact h.named n l hl

end Session.Agree

/-! ## Repairs -/

namespace Repair

/-- From sessions that agree the activity gives the same result, with `Q`, and sessions that agree. -/
def Agrees {α : Type} (used : Text → Prop) (known : List Text) (Q : α → Prop) (x : Repair α) : Prop :=
  ∀ s t, Session.Agree used known s t →
    (x t).1 = (x s).1 ∧ Session.Agree used known (x s).2 (x t).2 ∧ ∀ a, (x s).1 = .ok a → Q a

namespace Agrees

variable {α β : Type} {used : Text → Prop} {known : List Text} {Q : α → Prop} {Q' : β → Prop}

theorem pure {a} (ha : Q a) : Agrees used known Q (Pure.pure a) := by
  intro s t h
  refine ⟨rfl, h, fun b hb => ?_⟩
  obtain rfl := ok.inj hb
  exact ha

theorem bind {x f} (hx : Agrees used known Q x)
    (hf : ∀ a, Q a → Agrees used known Q' (f a)) : Agrees used known Q' (x >>= f) := by
  intro s t h
  obtain ⟨hsame, hagree, hQ⟩ := hx s t h
  rw [run_bind, run_bind, hsame]
  cases ha : (x s).1 with
  | error e => exact ⟨rfl, hagree, fun b hb => by cases hb⟩
  | ok a => exact hf a (hQ a ha) _ _ hagree

theorem ask {f} (h : ∀ s t, Session.Agree used known s t → (f t).1 = (f s).1 ∧
    Session.Agree used known (f s).2 (f t).2 ∧ Q (f s).1) : Agrees used known Q (Repair.ask f) := by
  intro s t hst
  obtain ⟨hsame, hagree, hQ⟩ := h s t hst
  refine ⟨congrArg ok hsame, hagree, fun a ha => ?_⟩
  obtain rfl := ok.inj ha
  exact hQ

theorem forM {f} (h : ∀ b, Agrees used known (fun _ => True) (f b)) (l : List β) :
    Agrees used known (fun _ => True) (l.forM f) := by
  induction l with
  | nil => exact .pure trivial
  | cons b l ih => exact .bind (h b) fun _ _ => ih

theorem change (hf : KeepsMentions f)
    (hname : used name) : Agrees used known (fun _ => True) (Repair.change name f) := by
  intro s t h
  unfold Repair.change
  rcases h.change hf hname with ⟨why, hs, ht⟩ | ⟨s', t', hs, ht, hagree⟩
  · rw [hs, ht]
    exact ⟨rfl, h, fun _ _ => trivial⟩
  · rw [hs, ht]
    exact ⟨rfl, hagree, fun _ _ => trivial⟩

theorem nameAll (base : Text) (seen : List Text) {vs} (hvs : ∀ v ∈ vs, used v.layout) :
    Agrees used known (fun _ => True) (nameAll base seen vs) := by
  induction vs generalizing seen with
  | nil => exact .pure trivial
  | cons v vs ih =>
    refine .bind (.change (.assignId _ _) (hvs v mem_cons_self)) fun _ _ => ?_
    exact .bind (ih _ (forall_mem_cons.1 hvs).2) fun _ _ => .pure trivial

variable {name : Text} (hname : used name)

include hname

theorem collectIds : Agrees used known (fun _ => True) (Repair.ask fun s => s.collectIds name) := by
  refine .ask fun s t h => ?_
  obtain ⟨hsame, hagree⟩ := h.collectIds hname
  exact ⟨hsame, hagree, trivial⟩

theorem layout? : Agrees used known (fun found : Option LayoutFile => ∀ l, found = some l → l.name = name)
    (Repair.layout? name) :=
  .ask fun _ _ h => ⟨h.layout? hname, h.load hname, h.named name⟩

theorem nameChildren : Agrees used known (fun _ => True) (nameChildren name) := by
  have hnameless : Agrees used known (fun vs : List Visit => ∀ v ∈ vs, used v.layout)
      (Repair.ask fun s => (s.nameless name, s)) :=
    .ask fun s t h => ⟨h.nameless hname, h, fun v hv => (Session.Agree.layout_of_mem_nameless hv).symm ▸ hname⟩
  exact .bind (collectIds hname) fun _ _ => .bind hnameless fun _ hvs => nameAll _ _ hvs

theorem ensureOnRoot (key : Text) : Agrees used known (fun _ => True) (ensureOnRoot name key) :=
  .change (.ite _ (.setAttribute _ _ _)) hname

theorem rootId : Agrees used known (fun _ => True) (rootId name) := by
  refine .bind (layout? hname) fun layout _ => ?_
  split
  · exact .pure trivial
  · split
    · exact .pure trivial
    · split
      · exact .pure trivial
      · refine .bind (collectIds hname) fun _ _ => ?_
        refine .bind (.change (.assignId _ _) hname) fun _ _ => ?_
        refine .bind (.forM (ensureOnRoot hname) _) fun _ _ => ?_
        exact .bind (.bind (nameChildren hname) fun _ _ => .pure trivial) fun _ (_ : True) => .pure trivial

theorem place (b : FieldBinding) : Agrees used known (fun _ => True) (place name b) := by
  have hfree : Agrees used known (fun found : Option Visit => ∀ v, found = some v → used v.layout)
      (Repair.ask fun s => s.findFree b.type name) := .ask fun s t h => h.findFree hname b.type
  refine .bind hfree fun found hfound => ?_
  cases found with
  | none => exact .bind (.change (.ite _ (.addComment _)) hname) fun _ _ => .pure trivial
  | some v => exact .bind (.change (.assignId _ _) (hfound v rfl)) fun _ _ => .pure trivial

theorem ensureId (seen : List Text) (b : FieldBinding) : Agrees used known (fun _ => True) (ensureId name seen b) := by
  unfold Repair.ensureId
  by_cases hframework : b.isFramework = true
  · rw [if_pos hframework]
    exact .pure trivial
  · rw [if_neg hframework]
    by_cases hknown : seen.contains b.id = true
    · rw [if_pos hknown]
      exact .bind (Q := fun _ => True) (.pure trivial) fun _ _ => .pure trivial
    · rw [if_neg hknown]
      exact .bind (place hname b) fun _ _ => .pure trivial

theorem ensureIdsFrom (seen : List Text) (reports : Keyed Text IdReport) (fields : List FieldBinding) :
    Agrees used known (fun _ => True) (ensureIdsFrom name seen reports fields) := by
  induction fields generalizing seen reports with
  | nil => exact .pure trivial
  | cons b fields ih => exact .bind (ensureId hname seen b) fun _ _ => ih _ _

theorem ensureIds (fields : List FieldBinding) : Agrees used known (fun _ => True) (ensureIds fields name) := by
  refine .bind (layout? hname) fun layout hlayout => ?_
  cases layout with
  | none => exact .pure trivial
  | some layout =>
    obtain rfl := hlayout layout rfl
    exact .bind (collectIds hname) fun _ _ => ensureIdsFrom hname _ _ _

end Agrees

end Repair

end Rebind.Layout
