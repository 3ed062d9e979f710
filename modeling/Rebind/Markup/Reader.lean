/-
From bytes to documents.

The encoding is UTF-8 if the mark of that encoding stands in front, else the one that the document
declares at its start, and UTF-8 when it declares none. The tokens of the text are then put together:
comments and processing instructions, the root, and again comments and processing instructions, with
nothing but blanks between them. What is remarked on the way decides at the end. A document in UTF-16
or with a document type declaration is refused.
-/
import Rebind.Markup.Namespace
import Rebind.Markup.Token

namespace Rebind.Markup

def maxOpen : Nat := 256

/-- An element that is not closed yet: its tag and what it holds so far, the last item first. -/
structure Frame where
  tag : Tag
  held : Content

/-- The element that is open in `current` inside the elements of `outer`, put together from tokens,
with the notes on it added to `notes`, and the tokens after it. -/
def element? : (outer : List Frame) → (current : Frame) → (notes : Notes) → List Token →
    Option (Element × Notes × List Token)
  | _, _, _, [] => none
  | outer, current, notes, .chars text _ :: rest =>
    element? outer { current with held := .chars text current.held } notes rest
  | outer, current, notes, .cdata text :: rest =>
    element? outer { current with held := .cdata text current.held } notes rest
  | outer, current, notes, .comment text :: rest =>
    element? outer { current with held := .comment text current.held } notes rest
  | outer, current, notes, .instruction target data :: rest =>
    element? outer { current with held := .instruction target data current.held }
      (notes.add (targetRemarks target)) rest
  | outer, current, notes, .start name attributes empty :: rest =>
    if outer.length + 1 > maxOpen then none
    else
      match Tag.of? (current.tag :: outer.map Frame.tag) name attributes with
      | none => none
      | some (tag, remarks) =>
        if empty then
          element? outer { current with held := .element tag .done current.held }
            (notes.addTag tag remarks) rest
        else element? (current :: outer) ⟨tag, .done⟩ (notes.addTag tag remarks) rest
  | outer, current, notes, .stop name :: rest =>
    if name ≠ current.tag.name.text then none
    else
      match outer with
      | [] => some (⟨current.tag, current.held.reverse⟩, notes, rest)
      | parent :: outer =>
        element? outer
          { parent with held := .element current.tag current.held.reverse parent.held } notes rest

/-- What stands outside the root: the comments and processing instructions, and the tokens from the
first on that is neither one of them nor blank. -/
def asides : List Token → List Aside × List Token
  | .comment text :: rest => ((asides rest).1.cons (.comment text), (asides rest).2)
  | .instruction target data :: rest =>
    ((asides rest).1.cons (.instruction target data), (asides rest).2)
  | .chars text plain :: rest =>
    if plain && text.all isSpace then asides rest else ([], .chars text plain :: rest)
  | rest => ([], rest)

def Aside.remarks : Aside → List Remark
  | comment _ => []
  | instruction target _ => targetRemarks target

def root? (notes : Notes) : List Token → Option (Element × Notes × List Token)
  | .start name attributes empty :: rest => do
    let (tag, remarks) ← Tag.of? [] name attributes
    if empty then some (⟨tag, .done⟩, notes.addTag tag remarks, rest)
    else element? [] ⟨tag, .done⟩ (notes.addTag tag remarks) rest
  | _ => none

/-- The document of tokens. -/
def ofTokens? (encoding : Encoding) (tokens : List Token) : Option Document := do
  let (before, tokens) := asides tokens
  let (root, notes, tokens) ← root? (Notes.add { } (before.flatMap Aside.remarks)) tokens
  match asides tokens with
  | (after, []) =>
    if (notes.add (after.flatMap Aside.remarks)).areAcceptable then
      some { encoding, before, root, after }
    else none
  | _ => none

def declarationPart? (name : Text) (t : Text) : Option (Text × Text) := do
  quoted? (← afterEquals? (← Text.after? name t))

def isVersion (t : Text) : Bool :=
  match t with
  | '1' :: '.' :: digits => digits.all Char.isDigit
  | _ => false

/-- The name of an encoding: a letter, then letters, digits, dots, underscores and hyphens. -/
def isEncodingName : (t : Text) → Bool
  | [] => false
  | c :: t => c.isAlpha && t.all fun d => d.isAlphanum || d == '.' || d == '_' || d == '-'

def declarationEnd? (t : Text) : Option Text :=
  match declarationPart? "standalone" (t.dropWhile isSpace) with
  | some (value, rest) =>
    if (value == "yes" || value == "no") && t.head?.any isSpace then
      Text.after? "?>" (rest.dropWhile isSpace)
    else none
  | none => Text.after? "?>" (t.dropWhile isSpace)

/-- The declaration of a document: the name of its encoding, if it has one, and what follows. A text
that does not start with one is left as it is. -/
def xmlDeclaration? (t : Text) : Option (Option Text × Text) :=
  match Text.after? "<?xml" t with
  | none => some (none, t)
  | some rest =>
    if !rest.head?.any isSpace then some (none, t)
    else do
      let (version, rest) ← declarationPart? "version" (rest.dropWhile isSpace)
      if !isVersion version then none
      else
        match declarationPart? "encoding" (rest.dropWhile isSpace) with
        | some (name, tail) =>
          if isEncodingName name && rest.head?.any isSpace then
            (declarationEnd? tail).map (some name, ·)
          else none
        | none => (declarationEnd? rest).map (none, ·)

def afterMark? : Bytes → Option Bytes
  | 0xef :: 0xbb :: 0xbf :: rest => some rest
  | _ => none

def encodingOf? (bytes : Bytes) : Option Encoding := do
  match ← xmlDeclaration? (bytes.map fun b => Char.ofNat b.toNat) with
  | (some name, _) => Encoding.ofName? name
  | (none, _) => some .utf8

def Document.ofEncoded? (encoding : Encoding) (bytes : Bytes) : Option Document := do
  let (_, body) ← xmlDeclaration? (unixLines (← encoding.decode? bytes))
  ofTokens? encoding (← tokens? body)

def Document.ofBytes? (bytes : Bytes) : Option Document := do
  match afterMark? bytes with
  | some rest => ofEncoded? .utf8 rest
  | none => ofEncoded? (← encodingOf? bytes) bytes

end Rebind.Markup
