/-
The members of a class body: fields, methods and nested types.
-/
import Rebind.Java.Header
import Rebind.Java.TypeText

namespace Rebind.Java

open Text

def annotationOfParameter? : Recogniser Unit := fun t => do
  let (_, rest) ← run? isDotted (dropBlanks (← after? "@" t))
  match dropBlanks rest with
  | '(' :: inner =>
    match inner.dropWhile (· != ')') with
    | _ :: rest => some ((), rest)
    | [] => some ((), rest)
  | _ => some ((), rest)

/-- The word `final`. -/
def finalWord? : Recogniser Unit := fun t => do
  let rest ← after? "final" t
  if wordEnds rest then some ((), rest) else none

def parameter? (piece : Text) : Option Parameter :=
  let plain := replaceAll piece Before.anywhere annotationOfParameter? " "
  (lastWord? (strip (replaceAll plain Before.wordStart finalWord? " "))).map
    fun (front, name, arrays) => ⟨normalType (front ++ arrayBrackets arrays), name⟩

def parameters (list : Text) : List Parameter :=
  if isAllBlank list then [] else (splitDeclarators list).filterMap parameter?

/-- The head of a nested type: a word that declares a type, or an at sign and `interface`, then
blanks and a word. -/
def nestedHead? : Recogniser Unit := fun t => do
  let rest ←
    match (do after? "interface" (dropBlanks (← after? "@" t))) with
    | some rest => some rest
    | none => TypeKind.all.findSome? fun kind => after? kind.keyword t
  let (_, rest) ← run? isWord (← someBlanks? rest)
  some ((), rest)

def declaresNestedType (head : Text) : Bool :=
  (search head 0 head.length (fun c => c.all fun d => isBlank d || d == '>') nestedHead?).isSome

/-- The field that a declaration up to its semicolon declares. -/
def fieldOf? (declaration : Text) (annotations : List Annotation) (span : Span) :
    Option Field := do
  let parts := (splitDeclarators declaration).map (·.takeWhile (· != '='))
  let first := parts.headD []
  let words := namesIn first
  let modifiers := leadingModifiers words
  let (front, name, _) ← lastWord? (strip first)
  if words.length ≤ modifiers.length then none
  else
    some {
      type := normalType (dropModifiers (strip front))
      name := name
      moreNames := parts.tail.filterMap fun part => (run? isWord (dropBlanks part)).map (·.1)
      modifiers := modifiers
      annotations := annotations
      span := span }

/-- The method whose head stands in `[i, paren)` and whose parameter list opens at `paren`. -/
def methodAt (masked className : Text) (stop start i paren : Nat)
    (annotations : List Annotation) : Except ReadError Method := do
  let close ← partner masked paren
  match lastWord? (slice masked i paren) with
  | some (front, name, 0) =>
    let type := normalType (dropTypeParameters (dropModifiers (dropBlanks front)))
    let method (stop : Nat) (body : Option Block) : Method := {
      name := name
      params := parameters (slice masked (paren + 1) close)
      returnType := if type.isEmpty then none else some type
      modifiers := leadingModifiers (namesIn front)
      annotations := annotations
      span := ⟨start, stop⟩
      body := body }
    match firstWithin? masked (close + 1) stop fun c => c == ';' || c == '{' with
    | none => .error (.methodWithoutEnd name)
    | some k =>
      if masked[k]? == some '{' then
        let closing ← partner masked k
        return method (closing + 1) (some ⟨k, closing⟩)
      else return method (k + 1) none
  | _ => .error (.unnamedMethod className)

/-- What a member is, is told by the first of `;`, `{`, `=` and `(` after its annotations. -/
def memberAt (text masked className : Text) (stop start : Nat) : Except ReadError Member := do
  let (annotations, i) ← annotationsFrom text masked stop start
  match firstWithin? masked i stop fun c => c == ';' || c == '{' || c == '=' || c == '(' with
  | none => .error (.unterminatedMember className)
  | some k =>
    let isNested := declaresNestedType (slice masked i k)
    if isNested || masked[k]? == some '{' then
      match firstWithin? masked k stop (· == '{') with
      | none => .error (.nestedTypeWithoutBody className)
      | some brace =>
        let span := ⟨start, (← partner masked brace) + 1⟩
        return if isNested then .nestedType span else .initializer span
    else if masked[k]? == some '(' then
      return .method (← methodAt masked className stop start i k annotations)
    else
      let last ← declarationEnd masked i stop
      let span := ⟨start, last⟩
      match fieldOf? (slice masked i (last - 1)) annotations span with
      | some f => return .field f
      | none => return .unreadable span

/-- Reads one member after the other to the end of the body. -/
def membersFrom (text masked className : Text) (stop i : Nat) :
    Except ReadError (List Member) :=
  let j := skipBlanks masked i stop
  if _h : j < stop then
    if masked[j]? == some ';' then membersFrom text masked className stop (j + 1)
    else do
      let m ← memberAt text masked className stop j
      if _hm : j < m.span.stop then
        return m :: (← membersFrom text masked className stop m.span.stop)
      else return [m]
  else .ok []
termination_by stop - i
decreasing_by
  all_goals
    have : i ≤ skipBlanks masked i stop := Nat.le_add_right _ _
    omega

end Rebind.Java
