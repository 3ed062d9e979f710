/-
Characters that words are made of.
-/
import Rebind.Text.Basic
import Rebind.Text.WordTable

namespace Rebind.Text

def isAsciiLetter (c : Char) : Bool := c.isAlpha

def isAlnum (c : Char) : Bool :=
  if c.toNat < 0x80 then c.isAlphanum else wordTable.holds c.toNat

/-- A word character is a letter or numeral of any script or the underscore. -/
def isWord (c : Char) : Bool := isAlnum c || c == '_'

/-- The names of the language the library works on may hold a dollar sign as well. -/
def isNamePart (c : Char) : Bool := isWord c || c == '$'

/-- The letters its tools look for at the start of a name are ASCII ones. -/
def isNameStart (c : Char) : Bool := isAsciiLetter c || c == '_' || c == '$'

def isDotted (c : Char) : Bool := isWord c || c == '.'

end Rebind.Text
