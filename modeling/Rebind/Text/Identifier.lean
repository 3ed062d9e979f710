/-
Identifiers in the sense of the Unicode recommendation: a letter or underscore, then letters,
numerals, marks and connecting punctuation.
-/
import Rebind.Text.Basic
import Rebind.Text.IdentifierTable

namespace Rebind.Text

def isIdentifierStart (c : Char) : Bool :=
  if c.toNat < 0x80 then c.isAlpha || c == '_' else identifierStartTable.holds c.toNat

def isIdentifierPart (c : Char) : Bool :=
  if c.toNat < 0x80 then c.isAlphanum || c == '_' else identifierPartTable.holds c.toNat

def isIdentifier : (t : Text) → Bool
  | [] => false
  | c :: t => isIdentifierStart c && t.all isIdentifierPart

end Rebind.Text
