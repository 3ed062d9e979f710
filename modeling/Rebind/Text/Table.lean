/-
Classes of characters given as tables of code points.
-/
namespace Rebind.Text

/-- Closed ranges. -/
abbrev Table := List (Nat × Nat)

/-- Maps the code points of a range to those of another, where only every so many of them may belong to it, the usual
shape of upper and lower case letters that alternate. -/
abbrev ShiftTable := List (Nat × Nat × Nat × Nat)

/-- The table of code points from `next` on that are given by how many of them are left out and how
many belong to the class, by turns. -/
def Table.ofRuns : (next : Nat) → (runs : List Nat) → Table
  | next, skipped :: run :: rest =>
    (next + skipped, next + skipped + run - 1) :: ofRuns (next + skipped + run) rest
  | _, _ => []

/-- The numbers that signs stand for. The signs from `0` on count by one and end a number, small letters before them
count by forty-four. -/
def numbersAfter : (before : Nat) → (signs : List Char) → List Nat
  | _, [] => []
  | before, c :: signs =>
    if c.toNat < 96 then (before * 44 + (c.toNat - 48)) :: numbersAfter 0 signs
    else numbersAfter (before * 26 + (c.toNat - 96)) signs

def numbersOf (lines : List String) : List Nat := numbersAfter 0 (lines.flatMap String.toList)

def Table.spelled (lines : List String) : Table := ofRuns 0 (numbersOf lines)

def ShiftTable.ofNumbers : (numbers : List Nat) → ShiftTable
  | lo :: hi :: step :: image :: rest => (lo, hi, step, image) :: ofNumbers rest
  | _ => []

def ShiftTable.ofPairs : (chars : List Char) → ShiftTable
  | c :: image :: rest => (c.toNat, c.toNat, 1, image.toNat) :: ofPairs rest
  | _ => []

def ShiftTable.inverse (table : ShiftTable) : ShiftTable :=
  table.map fun (lo, hi, step, image) => (image, image + (hi - lo), step, lo)

def Table.holds (table : Table) (n : Nat) : Bool :=
  table.any fun (lo, hi) => decide (lo ≤ n) && decide (n ≤ hi)

/-- The code point that the first range holding `n` sends it to, as far from the image of the
range's first code point as `n` is from the first one. -/
def ShiftTable.image? (table : ShiftTable) (n : Nat) : Option Nat :=
  (table.find? fun (lo, hi, step, _) =>
    decide (lo ≤ n) && decide (n ≤ hi) && (n - lo) % step == 0).map
      fun (lo, _, _, image) => image + (n - lo)

end Rebind.Text
