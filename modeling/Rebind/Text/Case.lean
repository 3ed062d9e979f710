/-
Upper and lower case. The case of a text is changed character by character, with two exceptions that a table cannot
hold.
-/
import Rebind.Text.CaseTable

namespace Rebind.Text

/-- An upper case character: one with a lower case form, apart from title case letters, or a capital
letter without. -/
def isUpper (c : Char) : Bool :=
  if c.toNat < 0x80 then c.isUpper
  else
    (toLowerTable.image? c.toNat).isSome && !titleTable.holds c.toNat || capitalTable.holds c.toNat

def caseImage (long : List (Nat × List Nat)) (short : ShiftTable) (c : Char) : Text :=
  match long.find? (·.1 == c.toNat) with
  | some (_, image) => image.map Char.ofNat
  | none => [(short.image? c.toNat).elim c Char.ofNat]

def upperChar (c : Char) : Text :=
  if c.toNat < 0x80 then [c.toUpper] else caseImage toUpperLongTable toUpperTable c

def lowerChar (c : Char) : Text :=
  if c.toNat < 0x80 then [c.toLower] else caseImage toLowerLongTable toLowerTable c

/-- A character may become several. -/
def toUpper (t : Text) : Text := t.flatMap upperChar

def nextIsCased (t : Text) : Bool :=
  match t.dropWhile (fun c => caseIgnorableTable.holds c.toNat) with
  | [] => false
  | c :: _ => casedTable.holds c.toNat

/-- `t` in lower case, where `before` holds the characters that precede it, nearest first. -/
def lowerAfter (before : Text) : (t : Text) → Text
  | [] => []
  | c :: t =>
    (if c == 'Σ' then [if nextIsCased before && !nextIsCased t then 'ς' else 'σ']
      else lowerChar c) ++ lowerAfter (c :: before) t

/-- A capital sigma at the end of a word becomes the final form of the small one. -/
def toLower (t : Text) : Text := lowerAfter [] t

end Rebind.Text
