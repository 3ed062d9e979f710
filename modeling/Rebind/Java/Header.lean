/-
The heads of files and types: package and import lines, type declarations, annotations.
-/
import Rebind.Java.Bracket
import Rebind.Java.Declaration
import Rebind.Text.Search

namespace Rebind.Java

open Text

def isInlineBlank (c : Char) : Bool := c == ' ' || c == '\t'

def headEnd? (t : Text) : Option Text := do
  let rest ← spaced? ";" t
  match rest.dropWhile isInlineBlank with
  | '\n' :: rest => some rest
  | rest => some rest

/-- The name of an import and its semicolon: word characters and dots, or, when an asterisk
follows a dot that is not the first character, those and the asterisk. -/
def importName? : Recogniser Text := fun t => do
  let (name, rest) ← run? isDotted t
  match rest with
  | '*' :: rest =>
    if name.length ≥ 2 && name.endsWith "." then
      (headEnd? rest).map (name ++ "*", ·)
    else none
  | rest => (headEnd? rest).map (name, ·)

/-- An import line, static or not. A word `static` that nothing follows is the imported name. -/
def import? : Recogniser (Bool × Text) := fun t => do
  let rest ← someBlanks? (← after? "import" (t.dropWhile isInlineBlank))
  match (do importName? (← someBlanks? (← after? "static" rest))) with
  | some (name, rest) => some ((true, name), rest)
  | none => (importName? rest).map fun (name, rest) => ((false, name), rest)

/-- A package line. -/
def package? : Recogniser Text := fun t => do
  let rest ← someBlanks? (← after? "package" (t.dropWhile isInlineBlank))
  let (name, rest) ← run? isDotted rest
  (headEnd? rest).map (name, ·)

def imports (masked : Text) : List Import :=
  (allMatches masked 0 masked.length Before.lineStart import?).map fun m =>
    ⟨m.value.2, m.value.1, ⟨m.start, m.stop⟩⟩

def typeHead? : Recogniser (TypeKind × Text) := fun t =>
  TypeKind.all.findSome? fun kind => do
    let (name, rest) ← run? isWord (← someBlanks? (← after? kind.keyword t))
    some ((kind, name), rest)

def superclass? (head : Text) : Option Text :=
  (search head 0 head.length Before.wordStart fun t => do
    run? isDotted (← someBlanks? (← after? "extends" t))).map fun m => afterLast '.' m.value

/-- The at sign and name of an annotation. -/
def annotationName? : Recogniser Text := fun t => do
  match dropBlanks (← after? "@" t) with
  | c :: rest =>
    if isAsciiLetter c || c == '_' then
      some (c :: rest.takeWhile isDotted, rest.dropWhile isDotted)
    else none
  | [] => none

def startsAnnotationType (t : Text) : Bool :=
  match (do after? "interface" (dropBlanks (← after? "@" t))) with
  | some rest => wordEnds rest
  | none => false

/-- The annotation whose at sign stands at offset `i`. -/
def annotationAt (text masked : Text) (i : Nat) : Except ReadError Annotation :=
  match annotationName? (masked.drop i) with
  | none => .error (.annotationWithoutName i)
  | some (name, rest) =>
    let nameEnd := masked.length - rest.length
    let j := skipBlanks masked nameEnd masked.length
    if masked[j]? == some '(' then do
      let close ← partner masked j
      return ⟨name, some (slice text (j + 1) close), ⟨i, close + 1⟩⟩
    else .ok ⟨name, none, ⟨i, nameEnd⟩⟩

/-- The annotations from offset `i` on, and the offset of what follows them. -/
def annotationsFrom (text masked : Text) (stop i : Nat) :
    Except ReadError (List Annotation × Nat) :=
  let j := skipBlanks masked i stop
  if _h : j < stop then
    if masked[j]? == some '@' && !startsAnnotationType (masked.drop j) then do
      let a ← annotationAt text masked j
      if _ha : j < a.span.stop then
        let (more, k) ← annotationsFrom text masked stop a.span.stop
        return (a :: more, k)
      else return ([a], a.span.stop)
    else .ok ([], j)
  else .ok ([], j)
termination_by stop - i
decreasing_by
  have : i ≤ skipBlanks masked i stop := Nat.le_add_right _ _
  omega

end Rebind.Java
