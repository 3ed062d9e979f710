/-
Texts between quotation marks, with everything that cannot be printed written by its number.
-/
import Rebind.Text.PrintableTable
import Rebind.Text.Utf8

namespace Rebind.Text

def isPrintable (c : Char) : Bool :=
  if c.toNat < 0x80 then 0x20 ≤ c.toNat && c.toNat != 0x7f else !unprintableTable.holds c.toNat

def hexadecimal (width n : Nat) : Text :=
  let digits := Nat.toDigits 16 n
  List.replicate (width - digits.length) '0' ++ digits

def numbered (c : Char) : Text :=
  if c.toNat < 0x100 then "\\x" ++ hexadecimal 2 c.toNat
  else if c.toNat < 0x10000 then "\\u" ++ hexadecimal 4 c.toNat
  else "\\U" ++ hexadecimal 8 c.toNat

def quotedChar (q : Char) (c : Char) : Text :=
  if c == q || c == '\\' then ['\\', c]
  else if c == '\n' then "\\n"
  else if c == '\r' then "\\r"
  else if c == '\t' then "\\t"
  else if isPrintable c then [c]
  else numbered c

/-- A text between quotation marks: single ones, unless it holds those and no double ones. -/
def quoted (t : Text) : Text :=
  let q := if t.contains '\'' && !t.contains '"' then '"' else '\''
  q :: t.flatMap (quotedChar q) ++ [q]

end Rebind.Text
