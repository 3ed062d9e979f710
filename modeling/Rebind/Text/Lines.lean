/-
Lines of a text and their indentation.
-/
import Rebind.Text.Blank

namespace Rebind.Text

def isLineBreak (c : Char) : Bool :=
  let n := c.toNat
  (0xa ≤ n && n ≤ 0xd) || (0x1c ≤ n && n ≤ 0x1e) || n == 0x85 || n == 0x2028 || n == 0x2029

/-- The lines of `t`, the first of them already begun with the characters of `line`, last first. -/
def linesFrom (line : Text) : (t : Text) → List Text
  | [] => if line.isEmpty then [] else [line.reverse]
  | '\r' :: '\n' :: t => line.reverse :: linesFrom [] t
  | c :: t => if isLineBreak c then line.reverse :: linesFrom [] t else linesFrom (c :: line) t

/-- The lines of a text without their line breaks; a break at the very end starts no line. -/
def lines (t : Text) : List Text := linesFrom [] t

def indent (pad code : Text) : Text :=
  join ['\n'] ((lines code).map fun line => if isAllBlank line then line else pad ++ line)

def lineIndent (t : Text) (pos : Nat) : Text :=
  (t.drop (lineStart t pos)).takeWhile fun c => c == ' ' || c == '\t'

end Rebind.Text
