/-
Layout files.
-/
import Rebind.Layout.View
import Rebind.Markup.Reader
import Rebind.Markup.Update
import Rebind.Markup.Writer

namespace Rebind.Layout

open Rebind.Markup

/-- A document with the bytes around it that reading drops: the declaration at the start of a file is kept as it was
written, and so is the line break at its end. `changed` says that something was added since the file was read. -/
structure LayoutFile where
  name : Text
  document : Document
  declaration : Bytes
  endsLine : Bool
  changed : Bool := false
deriving DecidableEq, Repr

inductive ChangeError where
  | noElement
  | refused (why : UpdateError)
deriving DecidableEq, Repr

def isBlankByte (b : UInt8) : Bool := b == 0x20 || (0x09 ≤ b && b ≤ 0x0d)

def throughInstruction : Bytes → Bytes
  | 0x3f :: 0x3e :: rest => 0x3f :: 0x3e :: rest.takeWhile fun b => b == 0x0d || b == 0x0a
  | b :: rest => b :: throughInstruction rest
  | [] => []

/-- The declaration that a file starts with after any blanks, and the line breaks behind it. -/
def declarationOf (bytes : Bytes) : Bytes :=
  let rest := bytes.dropWhile isBlankByte
  if (Text.utf8 "<?xml").isPrefixOf rest then throughInstruction rest else []

namespace LayoutFile

def ofBytes? (name : Text) (bytes : Bytes) : Option LayoutFile :=
  (Document.ofBytes? bytes).map fun document =>
    { name, document, declaration := declarationOf bytes, endsLine := bytes.getLast? == some 0x0a }

def toBytes (l : LayoutFile) : Bytes :=
  l.declaration ++ l.document.toBytes ++ if l.endsLine then [0x0a] else []

def element? (l : LayoutFile) (place : Place) : Option Element :=
  (l.document.root.at? [] place).map (·.2)

def put (l : LayoutFile) (place : Place) (e : Element) (handedOut : Nat) :
    Except ChangeError LayoutFile :=
  match l.document.root.modify? (fun _ => some e) place with
  | some root => .ok { l with document := { l.document with root, handedOut }, changed := true }
  | none => .error .noElement

/-- The layout with an attribute of a view set. -/
def setAttribute (l : LayoutFile) (place : Place) (name value : Text) : Except ChangeError LayoutFile :=
  match l.document.root.at? [] place with
  | none => .error .noElement
  | some (around, e) =>
    match e.tag.setAttribute around l.document.handedOut androidSpace name value with
    | .ok (tag, handedOut) => l.put place { e with tag } handedOut
    | .error why => .error (.refused why)

def assignId (l : LayoutFile) (place : Place) (id : Text) : Except ChangeError LayoutFile :=
  l.setAttribute place idAttribute (newIdMark ++ id)

def addComment (l : LayoutFile) (place : Place) (text : Text) : Except ChangeError LayoutFile :=
  match l.document.root.at? [] place with
  | none => .error .noElement
  | some (_, e) =>
    match e.inner.addComment text with
    | .ok inner => l.put place { e with inner } l.document.handedOut
    | .error why => .error (.refused why)

end LayoutFile

end Rebind.Layout
