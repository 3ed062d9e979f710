/-
From documents to bytes. An element that holds nothing is closed by its start tag.
-/
import Rebind.Markup.Tree

namespace Rebind.Markup

/-- In characters, ampersands and angle brackets are written as references. -/
def escapeChar : Char → Text
  | '&' => "&amp;"
  | '<' => "&lt;"
  | '>' => "&gt;"
  | '\r' => "&#13;"
  | c => [c]

/-- In values, the quotation mark around them and blanks other than the space are as well, because reading would take
those for spaces. -/
def escapeValueChar : Char → Text
  | '"' => "&quot;"
  | '\t' => "&#9;"
  | '\n' => "&#10;"
  | c => escapeChar c

def escape (t : Text) : Text := t.flatMap escapeChar

def writeValue (name value : Text) : Text :=
  ' ' :: name ++ "=\"" ++ value.flatMap escapeValueChar ++ "\""

def writeDeclaration (d : Option Text × Text) : Text :=
  match d.1 with
  | none => writeValue "xmlns" d.2
  | some q => writeValue ("xmlns:" ++ q) d.2

namespace Tag

def write (tag : Tag) : Text :=
  '<' :: tag.name.text ++ tag.declarations.flatMap writeDeclaration ++
    tag.attributes.flatMap fun a => writeValue a.name.text a.value

end Tag

/-- A comment. -/
def writeComment (text : Text) : Text := "<!--" ++ text ++ "-->"

def writeInstruction (target : Text) (data : Option Text) : Text :=
  "<?" ++ target ++ (match data with | some d => ' ' :: d | none => []) ++ "?>"

namespace Content

/-- What stands between two tags. -/
def write : Content → Text
  | done => []
  | chars text rest => escape text ++ write rest
  | cdata text rest => "<![CDATA[" ++ text ++ "]]>" ++ write rest
  | comment text rest => writeComment text ++ write rest
  | instruction target data rest => writeInstruction target data ++ write rest
  | element tag done rest => tag.write ++ "/>" ++ write rest
  | element tag inner rest => tag.write ++ ">" ++ write inner ++ "</" ++ tag.name.text ++ ">" ++ write rest

end Content

namespace Aside

def write : Aside → Text
  | comment text => writeComment text
  | instruction target data => writeInstruction target data

end Aside

namespace Document

def write (d : Document) : Text :=
  d.before.flatMap Aside.write ++ Content.write (.element d.root.tag d.root.inner .done) ++
    d.after.flatMap Aside.write

def toBytes (d : Document) : Bytes := d.encoding.encode d.write

end Document

end Rebind.Markup
