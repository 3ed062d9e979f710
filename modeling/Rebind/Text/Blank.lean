/-
Blank characters and blank edges of texts.
-/
import Rebind.Text.Basic
import Rebind.Text.Table

namespace Rebind.Text

def blankTable : Table :=
  [(0x9, 0xd), (0x1c, 0x20), (0x85, 0x85), (0xa0, 0xa0), (0x1680, 0x1680), (0x2000, 0x200a),
   (0x2028, 0x2029), (0x202f, 0x202f), (0x205f, 0x205f), (0x3000, 0x3000)]

/-- Holds of every space and line separator and of the control characters that act as one. -/
def isBlank (c : Char) : Bool := blankTable.holds c.toNat

def dropBlanks (t : Text) : Text := t.dropWhile isBlank

def dropBlanksEnd (t : Text) : Text := (t.reverse.dropWhile isBlank).reverse

def strip (t : Text) : Text := dropBlanksEnd (dropBlanks t)

def isAllBlank (t : Text) : Bool := t.all isBlank

def withoutBlanks (t : Text) : Text := t.filter fun c => !isBlank c

def someBlanks? : (t : Text) → Option Text
  | [] => none
  | c :: t => if isBlank c then some (dropBlanks t) else none

def skipBlanks (t : Text) (i e : Nat) : Nat := i + ((slice t i e).takeWhile isBlank).length

end Rebind.Text
