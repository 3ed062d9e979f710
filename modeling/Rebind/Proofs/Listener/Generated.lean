/-
Generated code is closed.

The calls of handlers, the registrations of listeners and the method that releases a binding are put together from
names and closed code, and are closed themselves: `closed_callOf`, `closed_registration`, `closed_teardownMethod`.
-/
import Rebind.Proofs.Java.Closed
import Rebind.Proofs.Listener.Forwarding

namespace Rebind

namespace Java

open Java Text

theorem isPlain_of_isNamePart {c} (h : isNamePart c = true) : isPlain c = true :=
  isPlain_of_class (by decide +kernel) h

theorem isPlain_of_isWord {c} (h : isWord c = true) : isPlain c = true :=
  isPlain_of_isNamePart (by simp [isNamePart, h])

theorem closed_parens {u} (hu : Closed u) : Closed ("(" ++ u ++ ")") :=
  ((Bears.text "(" [] [')'] rfl fun _ => rfl).append (hu.frame _)).append (.text ")" [')'] [] rfl fun _ => rfl)

/-- Lines that open and close brackets one after the other. -/
inductive BearsAll : List Char → List Text → List Char → Prop where
  | nil (a : List Char) : BearsAll a [] a
  | cons {a b c : List Char} {l : Text} {ls : List Text} (hl : Bears a l b) (hls : BearsAll b ls c) :
      BearsAll a (l :: ls) c

namespace BearsAll

variable {a b c : List Char} {ls ms : List Text}

theorem append (hls : BearsAll a ls b) (hms : BearsAll b ms c) : BearsAll a (ls ++ ms) c := by
  induction hls with
  | nil => exact hms
  | cons hl _ ih => exact .cons hl (ih hms)

theorem frame (h : BearsAll a ls b) (c : List Char) : BearsAll (a ++ c) ls (b ++ c) := by
  induction h with
  | nil a => exact .nil _
  | cons hl _ ih => exact .cons (hl.under c) ih

theorem join {sep} (hsep : Closed sep) (h : BearsAll a ls b) : Bears a (Text.join sep ls) b := by
  induction h with
  | nil a => exact closed_nil.frame a
  | @cons a b c l ls hl hls ih =>
    cases ls with
    | nil =>
      cases hls
      simpa [Text.join] using hl
    | cons m ls =>
      exact hl.append ((hsep.frame b).append ih)

theorem intercalate {groups} (h : ∀ g ∈ groups, BearsAll a g a) :
    BearsAll a (List.intercalate [[]] groups) a := by
  induction groups with
  | nil => exact .nil a
  | cons g groups ih =>
    have hg := h g (by simp)
    have hrest := ih fun g' hg' => h g' (by simp [hg'])
    cases groups with
    | nil => simpa [List.intercalate] using hg
    | cons g' groups =>
      exact hg.append (.cons (closed_nil.frame a) hrest)

end BearsAll

end Java

namespace Listener

open Java

/-! ## What listeners are made of -/

def Callback.isPlain (c : Callback) : Bool :=
  c.name.all Java.isPlain && c.params.all fun p => p.1.all Java.isPlain && p.2.all Java.isPlain

def Shape.isPlain (s : Shape) : Bool :=
  s.setter.all Java.isPlain && s.default.isPlain && s.callbacks.all Callback.isPlain &&
    s.anonymousType.all (·.all Java.isPlain) && s.imports.all (·.all Java.isPlain)

theorem isPlain_shape (kind : Kind) : kind.shape.isPlain = true := by cases kind <;> decide +kernel

theorem isPlain_callback {kind : Kind} {c} (hc : c ∈ kind.shape.callbacks) : c.isPlain = true := by
  have h := isPlain_shape kind
  simp only [Shape.isPlain, Bool.and_eq_true] at h
  exact List.all_eq_true.1 h.1.1.2 c hc

theorem Callback.closed_params {c : Callback} (h : c.isPlain = true) : ∀ p ∈ c.params, Closed p.1 ∧ Closed p.2 := by
  intro p hp
  simp only [Callback.isPlain, Bool.and_eq_true] at h
  have := List.all_eq_true.1 h.2 p hp
  simp only [Bool.and_eq_true] at this
  exact ⟨closed_of_plain this.1, closed_of_plain this.2⟩

theorem Callback.closed_signature {c : Callback} (h : c.isPlain = true) : Closed c.signature := by
  have hparams := Callback.closed_params h
  simp only [Callback.isPlain, Bool.and_eq_true] at h
  have hlist : Closed (Text.join ", " (c.params.map fun p => p.1 ++ " " ++ p.2)) := by
    refine closed_join (closed_text ", " rfl) fun u hu => ?_
    obtain ⟨p, hp, rfl⟩ := List.mem_map.1 hu
    exact ((hparams p hp).1.append (closed_text " " rfl)).append (hparams p hp).2
  have hresult : Closed (if c.returnsBoolean then "boolean" else "void").toList := by
    cases c.returnsBoolean with
    | true => exact closed_text "boolean" rfl
    | false => exact closed_text "void" rfl
  have hhead := ((closed_text "public " rfl).append hresult).append (closed_text " " rfl)
  have hopen := (hhead.append (closed_of_plain h.1)).append (.text "(" [] [')'] rfl fun _ => rfl)
  exact (hopen.append (hlist.frame _)).append (.text ")" [')'] [] rfl fun _ => rfl)

/-! ## Registrations -/

section Registration

variable {target call unit : Text} (htarget : Closed target) (hcall : Closed call) (hunit : Closed unit)

include htarget hcall hunit

theorem closed_lambdaRegistration {setter} (hsetter : Closed setter) {c} (hc : c.isPlain = true)
    (wrap : Bool) : Closed (lambdaRegistration target setter c call wrap unit) := by
  have hnames : ∀ u ∈ c.params.map (·.2), Closed u := by
    intro u hu
    obtain ⟨p, hp, rfl⟩ := List.mem_map.1 hu
    exact (Callback.closed_params hc p hp).2
  have hparams : Closed (lambdaParams (c.params.map (·.2))) := by
    unfold lambdaParams
    split
    · next name heq => exact hnames name (by simp [heq])
    · exact closed_parens (closed_join (closed_text ", " rfl) hnames)
  have hsetting := (htarget.append (closed_text "." rfl)).append hsetter
  have hopen := hsetting.append (.text "(" [] [')'] rfl fun _ => rfl)
  have hhead := (hopen.append (hparams.frame _)).append ((closed_text " -> " rfl).frame _)
  have hline := (hunit.append hcall).append (closed_text ";" rfl)
  have hreturn := hunit.append (closed_text "return true;" rfl)
  unfold lambdaRegistration
  cases wrap with
  | true =>
    have hbrace := hhead.append (.text "\x7b" [')'] ['}', ')'] rfl fun _ => rfl)
    exact BearsAll.join (closed_text "\n" rfl) (.cons hbrace (.cons (hline.frame _) (.cons (hreturn.frame _)
      (.cons (.text "\x7d);" ['}', ')'] [] rfl fun _ => rfl) (.nil _)))))
  | false => exact (hhead.append (hcall.frame _)).append (.text ");" [')'] [] rfl fun _ => rfl)

omit htarget

theorem bears_callbackMethod {c : Callback} (hc : c.isPlain = true) (a : List Char) :
    BearsAll a (callbackMethod c call unit) a := by
  have hover := hunit.append (closed_text "@Override" rfl)
  have hopen := (hunit.append (Callback.closed_signature hc)).append (.text " \x7b" [] ['}'] rfl fun _ => rfl)
  have hclose := (hunit.frame ['}']).append (.text "\x7d" ['}'] [] rfl fun _ => rfl)
  have hline := ((hunit.append hunit).append hcall).append (closed_text ";" rfl)
  have hbody : BearsAll ['}'] (if call.isEmpty then [] else [unit ++ unit ++ call ++ ";"]) ['}'] := by
    split
    · exact .nil _
    · exact .cons (hline.frame _) (.nil _)
  have hall : BearsAll [] (callbackMethod c call unit) [] :=
    .cons hover (.cons hopen (hbody.append (.cons hclose (.nil _))))
  exact hall.frame a

include htarget

theorem closed_anonymousRegistration {setter type : Text} (hsetter : Closed setter) (htype : Closed type)
    {callbacks} (hcallbacks : ∀ c ∈ callbacks, c.isPlain = true) (chosen : Callback) :
    Closed (anonymousRegistration target setter type callbacks chosen call unit) := by
  have hsetting := (htarget.append (closed_text "." rfl)).append hsetter
  have hnew := hsetting.append (.text "(new " [] [')'] rfl fun _ => rfl)
  have hhead := (hnew.append (htype.frame _)).append (.text "() \x7b" [')'] ['}', ')'] rfl fun _ => rfl)
  refine BearsAll.join (closed_text "\n" rfl) (.cons hhead ((BearsAll.intercalate fun g hg => ?_).append
    (.cons (.text "\x7d);" ['}', ')'] [] rfl fun _ => rfl) (.nil _))))
  obtain ⟨c, hc, rfl⟩ := List.mem_map.1 hg
  refine bears_callbackMethod ?_ hunit (hcallbacks c hc) _
  split
  · exact hcall
  · exact closed_nil

theorem closed_registration (kind : Kind) (callback : Option Text) (returnsBoolean : Bool) :
    Closed (registration kind target call callback returnsBoolean unit) := by
  have hplain := isPlain_shape kind
  have hchosen := isPlain_callback (callback_mem kind callback)
  simp only [Shape.isPlain, Bool.and_eq_true] at hplain
  obtain ⟨⟨⟨⟨hsetter, -⟩, hcallbacks⟩, htype⟩, -⟩ := hplain
  refine closed_stripBreaks ?_
  split
  · next type heq =>
    rw [heq] at htype
    exact closed_anonymousRegistration htarget hcall hunit (closed_of_plain hsetter)
      (closed_of_plain (by simpa using htype)) (List.all_eq_true.1 hcallbacks) _
  · exact closed_lambdaRegistration htarget hcall hunit (closed_of_plain hsetter) hchosen _

end Registration

theorem closed_teardownMethod {visibility method field unit} (hvisibility : Closed visibility)
    (hmethod : Closed method) (hfield : Closed field) (hunit : Closed unit) :
    Closed (teardownMethod visibility method field unit) := by
  have hopen := ((hvisibility.append (closed_text " void " rfl)).append hmethod).append
    (.text "() \x7b" [] ['}'] rfl fun _ => rfl)
  have hsuper := ((hunit.append (closed_text "super." rfl)).append hmethod).append (.text "();" [] [] rfl fun _ => rfl)
  have hrelease := (hunit.append hfield).append (closed_text " = null;" rfl)
  refine closed_stripBreaks (BearsAll.join (closed_text "\n" rfl) (.cons (closed_text "@Override" rfl) (.cons hopen
    (.cons (hsuper.frame _) (.cons (hrelease.frame _) (.cons ?_ (.nil _)))))))
  exact .text "\x7d" ['}'] [] rfl fun _ => rfl

/-! ## Calls of handlers -/

theorem closed_argumentFor {free} (hfree : ∀ p ∈ free, Closed p.2) {param}
    (htype : Closed param.type) : Closed (argumentFor free param).text := by
  have hdefaults : ∀ p ∈ primitiveDefaults, Closed p.2 := by
    intro p hp
    simp only [primitiveDefaults, List.mem_cons, List.not_mem_nil, or_false] at hp
    rcases hp with rfl | rfl | rfl | rfl | rfl | rfl | rfl | rfl
    · exact closed_text "0" rfl
    · exact closed_text "0L" rfl
    · exact closed_text "false" rfl
    · exact closed_text "0f" rfl
    · exact closed_text "0d" rfl
    · exact .text "(short) 0" [] [] rfl fun _ => rfl
    · exact .text "(byte) 0" [] [] rfl fun _ => rfl
    · exact closed_null
  have hfits := fits_argumentFor free param
  generalize argumentFor free param = a at hfits
  cases hfits with
  | exact unused | editable _ unused => exact hfree _ unused
  | cast _ unused =>
    have hopen := (Bears.text "(" [] [')'] rfl fun _ => rfl).append (htype.frame _)
    exact (hopen.append (.text ") " [')'] [] rfl fun _ => rfl)).append (hfree _ unused)
  | literal _ primitive => exact hdefaults _ primitive
  | null => exact closed_text "null" rfl

theorem closed_argumentsFor : ∀ {params free},
    (∀ p ∈ free, Closed p.2) → (∀ p ∈ params, Closed p.type) → ∀ a ∈ argumentsFor free params, Closed a.text
  | [], _, _, _, a, ha => by simp [argumentsFor] at ha
  | p :: params, free, hfree, hparams, a, ha => by
    simp only [argumentsFor, List.mem_cons] at ha
    rcases ha with rfl | ha
    · exact closed_argumentFor hfree (hparams p (by simp))
    · exact closed_argumentsFor (fun q hq => hfree q (List.mem_filter.1 hq).1) (List.forall_mem_cons.1 hparams).2 a ha

theorem closed_callOf {c} (hc : c.isPlain = true) {handler} (hhandler : Closed handler)
    {params} (hparams : ∀ p ∈ params, Closed p.type) : Closed (callOf c handler params) := by
  have hargs : Closed (Text.join ", " ((argumentsFor c.params params).map Argument.text)) := by
    refine closed_join (closed_text ", " rfl) fun u hu => ?_
    obtain ⟨a, ha, rfl⟩ := List.mem_map.1 hu
    exact closed_argumentsFor (fun p hp => (Callback.closed_params hc p hp).2) hparams a ha
  have hopen := hhandler.append (.text "(" [] [')'] rfl fun _ => rfl)
  exact (hopen.append (hargs.frame _)).append (.text ")" [')'] [] rfl fun _ => rfl)

end Listener

end Rebind
