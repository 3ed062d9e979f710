/-
The parts of a source file that a conversion looks at: imports, types, and the fields, methods and
nested types they declare, each with the span of the text it takes.
-/
import Rebind.Java.Lexeme

namespace Rebind.Java

structure Span where
  start : Nat
  stop : Nat
  deriving DecidableEq

def Span.covers (s : Span) (pos : Nat) : Bool := decide (s.start ≤ pos) && decide (pos < s.stop)

/-- A pair of matching braces. -/
structure Block where
  opening : Nat
  closing : Nat
  deriving DecidableEq

/-- An annotation: its name as written, and the text between its parentheses if it has them. -/
structure Annotation where
  name : Text
  args : Option Text
  span : Span
  deriving DecidableEq

def Annotation.simpleName (a : Annotation) : Text := Text.afterLast '.' a.name

/-- A parameter of a method. -/
structure Parameter where
  type : Text
  name : Text
  deriving DecidableEq

/-- A field declaration, which may declare several names of one type. Its span runs from the first
annotation or modifier to just past the semicolon. -/
structure Field where
  type : Text
  name : Text
  moreNames : List Text
  modifiers : List Text
  annotations : List Annotation
  span : Span
  deriving DecidableEq

def Field.names (f : Field) : List Text := f.name :: f.moreNames

/-- A method or constructor; a constructor has no return type. -/
structure Method where
  name : Text
  params : List Parameter
  returnType : Option Text
  modifiers : List Text
  annotations : List Annotation
  span : Span
  body : Option Block
  deriving DecidableEq

/-- A member of a class. Nested types and initialiser blocks are not looked into, and neither is a
declaration that lacks its type or name. -/
inductive Member where
  | field (f : Field)
  | method (m : Method)
  | nestedType (span : Span)
  | initializer (span : Span)
  | unreadable (span : Span)
  deriving DecidableEq

/-- The span that a member takes. -/
def Member.span : Member → Span
  | field f => f.span
  | method m => m.span
  | nestedType span => span
  | initializer span => span
  | unreadable span => span

inductive TypeKind where
  | classType
  | interfaceType
  | enumType
  | recordType
  deriving DecidableEq

def TypeKind.keyword : TypeKind → Text
  | classType => "class"
  | interfaceType => "interface"
  | enumType => "enum"
  | recordType => "record"

def TypeKind.all : List TypeKind := [.classType, .interfaceType, .enumType, .recordType]

structure TypeDecl where
  kind : TypeKind
  name : Text
  superclass : Option Text
  start : Nat
  body : Block
  memberIndent : Text
  members : List Member
  deriving DecidableEq

namespace TypeDecl

/-- The fields in order. -/
def fields (t : TypeDecl) : List Field :=
  t.members.filterMap fun | .field f => some f | _ => none

def methods (t : TypeDecl) : List Method :=
  t.members.filterMap fun | .method m => some m | _ => none

def nestedTypes (t : TypeDecl) : List Span :=
  t.members.filterMap fun | .nestedType span => some span | _ => none

def firstMember (t : TypeDecl) : Option Nat := t.members.head?.map (·.span.start)

def methodsNamed (t : TypeDecl) (name : Text) (arity : Nat) : List Method :=
  t.methods.filter fun m => m.name == name && m.body.isSome && m.params.length == arity

end TypeDecl

structure Import where
  name : Text
  isStatic : Bool
  span : Span
  deriving DecidableEq

def Import.package (i : Import) : Text := Text.beforeLast '.' i.name

structure CompilationUnit where
  text : Text
  masked : Text
  package : Option Text
  imports : List Import
  importsEnd : Nat
  types : List TypeDecl

def CompilationUnit.hasImport (u : CompilationUnit) (name : Text) : Bool :=
  u.imports.any fun i =>
    !i.isStatic && (i.name == name || i.name == Text.beforeLast '.' name ++ ".*")

end Rebind.Java
