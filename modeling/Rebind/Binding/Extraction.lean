/-
The bindings that a class declares with annotations: views bound to fields and handlers bound to
listeners.

A field or handler annotation that cannot be converted is listed as unsupported and stays.
-/
import Rebind.Binding.Argument
import Rebind.Java.Reader
import Rebind.Listener.Forwarding

namespace Rebind.Binding

open Text

def annotationPackage : Text := "butterknife"

def bindView : Text := "BindView"

/-- A field bound to a view. -/
structure FieldBinding where
  name : Text
  type : Text
  id : Text
  ref : Text
  deriving DecidableEq

def FieldBinding.isFramework (b : FieldBinding) : Bool := b.ref.startsWith "android.R."

/-- A handler bound to listeners of one kind on some views. -/
structure HandlerBinding where
  kind : Listener.Kind
  method : Text
  hasParams : Bool
  targets : List IdRef
  call : Text
  callback : Text
  returnsBoolean : Bool
  deriving DecidableEq

namespace HandlerBinding

def ids (b : HandlerBinding) : List Text := b.targets.map (·.id)

def refOf (b : HandlerBinding) (id : Text) : Text :=
  ((b.targets.find? (·.id == id)).map (·.ref)).getD ("R.id." ++ id)

end HandlerBinding

/-- What a class binds, in the order of its source. -/
structure BindingSet where
  fields : List FieldBinding := []
  handlers : List HandlerBinding := []
  duplicateIds : List Text := []
  unsupported : List Text := []
  annotations : List Java.Annotation := []
  declarations : Keyed Text Java.Field := []

namespace BindingSet

def isEmpty (s : BindingSet) : Bool := s.fields.isEmpty && s.handlers.isEmpty

def fieldsById (s : BindingSet) : Keyed Text FieldBinding :=
  Keyed.ofList (s.fields.map fun b => (b.id, b))

def handlersById (s : BindingSet) : Keyed Listener.Kind (Keyed Text HandlerBinding) :=
  s.handlers.foldl (fun m b =>
    m.insert b.kind (b.ids.foldl (fun m id => m.insert id b) ((m.get? b.kind).getD []))) []

def registrationsOf : List HandlerBinding → List (HandlerBinding × Text)
  | [] => []
  | b :: later =>
    ((b.ids.filter fun id => !later.any fun l => l.kind == b.kind && l.ids.contains id).map
      (b, ·)) ++ registrationsOf later

def registrations (s : BindingSet) : List (HandlerBinding × Text) := registrationsOf s.handlers

/-- Notes a field annotation. A field is bound if its annotation refers to exactly one id. -/
def addField (s : BindingSet) (f : Java.Field) (a : Java.Annotation) : BindingSet :=
  match idRefs (((attributes (a.args.getD [])).get? "value".toList).getD []) with
  | [target] => {
      s with
      fields := s.fields ++ [⟨f.name, f.type, target.id, target.ref⟩]
      duplicateIds :=
        if s.fieldsById.has target.id then s.duplicateIds ++ [target.id] else s.duplicateIds
      annotations := s.annotations ++ [a]
      declarations := s.declarations.insert f.name f }
  | _ => { s with unsupported := s.unsupported ++ [bindView] }

/-- Notes a handler annotation. -/
def addHandler (s : BindingSet) (m : Java.Method) (a : Java.Annotation) (kind : Listener.Kind) :
    BindingSet :=
  let attributes := attributes (a.args.getD [])
  match idRefs ((attributes.get? "value".toList).getD []) with
  | [] => { s with unsupported := s.unsupported ++ [kind.annotationName] }
  | targets =>
    let constant := (attributes.get? "callback".toList).bind fun value =>
      if value.isEmpty then none else some (afterLast '.' (strip value))
    let callback := Listener.callbackFor kind m.params constant
    { s with
      handlers := s.handlers ++ [{
        kind := kind
        method := m.name
        hasParams := !m.params.isEmpty
        targets := targets
        call := Listener.callOf callback m.name m.params
        callback := callback.name
        returnsBoolean := m.returnType == some "boolean".toList }]
      annotations := s.annotations ++ [a] }

def addUnsupported (s : BindingSet) (a : Java.Annotation) : BindingSet :=
  { s with unsupported := s.unsupported ++ [a.simpleName] }

end BindingSet

def recognises (imports : List Java.Import) (a : Java.Annotation) : Bool :=
  if a.name.contains '.' then beforeLast '.' a.name == annotationPackage
  else
    imports.any fun i =>
      !i.isStatic && (i.name == annotationPackage ++ ".*" ||
        i.name == annotationPackage ++ "." ++ a.name)

def addFieldAnnotations (imports : List Java.Import) (s : BindingSet) (f : Java.Field) :
    BindingSet :=
  (f.annotations.filter (recognises imports)).foldl (fun s a =>
    if a.simpleName == bindView then s.addField f a else s.addUnsupported a) s

def addMethodAnnotations (imports : List Java.Import) (s : BindingSet) (m : Java.Method) :
    BindingSet :=
  (m.annotations.filter (recognises imports)).foldl (fun s a =>
    match Listener.Kind.ofAnnotationName? a.simpleName with
    | some kind => s.addHandler m a kind
    | none => s.addUnsupported a) s

/-- The bindings that a class declares: those of its fields and then those of its methods. -/
def bindingsOf (unit : Java.CompilationUnit) (type : Java.TypeDecl) : BindingSet :=
  type.methods.foldl (addMethodAnnotations unit.imports)
    (type.fields.foldl (addFieldAnnotations unit.imports) {})

end Rebind.Binding
