/-
Characters in rows and cells, as encodings of two bytes a character have them.
-/
import Rebind.Text.Utf8

namespace Rebind.Markup

/-- One byte tells the row, the next one the cell in it. -/
structure Grid where
  introducer : Option UInt8 := none
  firstRow : UInt8
  cells : List (UInt8 × UInt8)
  chars : Array Char
deriving DecidableEq, Repr

namespace Grid

def absent : Char := '.'

/-- The signs that stand for the digits of a number, the first one for zero. -/
def signs : Text :=
  "0123456789ABCDEFGHIJKLMNOPQRSTUVWXYZabcdefghijklmnopqrstuvwxyz!#$%&()*+,:;<=>?@[]^_|~./ "

/-- What is left to read of the characters that a number spells. Each is given by the way to it from the one before; of
the ways, those taken more often of late behind a way of the same kind take up less of the number. -/
structure Spelling where
  number : Nat
  weights : List (List Nat) := List.replicate 5 (List.replicate 115 1)
  kind : Nat := 0
  place : Nat := 0
  seen : Array Bool := Array.replicate 0x10000 false

namespace Spelling

/-- The weight that `rest` falls into: which one it is, the weight, and how far in. -/
def fall : (weights : List Nat) → (rest : Nat) → Nat × Nat × Nat
  | [], rest => (0, 1, rest)
  | w :: weights, rest =>
    if rest < w then (0, w, rest)
    else let (i, found) := fall weights (rest - w); (i + 1, found)

def way (s : Spelling) : Nat × Spelling :=
  let weights := s.weights.getD s.kind []
  let total := weights.foldl (· + ·) 0
  let (i, w, rest) := fall weights (s.number % total)
  let weights := weights.modify i (· + 8)
  (i, { s with
    number := s.number / total * w + rest
    weights := s.weights.set s.kind (if total ≤ 3992 then weights else weights.map fun w => (w + 1) / 2) })

def go (s : Spelling) (kind place : Nat) : Char × Spelling :=
  (Char.ofNat place, { s with kind, place, seen := s.seen.setIfInBounds place true })

def unseen (s : Spelling) (first : Nat) : List Nat :=
  (List.range' first 300).filter fun i => !s.seen.getD i false

def near (steps : Nat) : Nat := if steps < 6 then 2 else 3

/-- Way 0 leads to no character. The 40 ways from 1 on lead forward past so many unseen characters, the next 40 back. The
ways behind them lead so many places forward or back as the power of two and the rest of the number say. -/
def char (s : Spelling) : Char × Spelling :=
  let (i, s) := s.way
  if i == 0 then (absent, { s with kind := 0 })
  else if i ≤ 40 then
    s.go (if i == 1 then 1 else near (i - 1)) ((s.unseen (s.place + 1)).getD (i - 1) 0)
  else if i ≤ 80 then s.go (near (i - 41)) ((s.unseen (s.place - 300)).reverse.getD (i - 41) 0)
  else
    let power := Nat.pow 2 ((i - 81) % 17)
    let distance := power + s.number % power
    { s with number := s.number / power }.go 4 (if i < 98 then s.place + distance else s.place - distance)

def read : (count : Nat) → (s : Spelling) → Text
  | 0, _ => []
  | n + 1, s => let (c, s) := s.char; c :: read n s

end Spelling

def spelled (count : Nat) (lines : List String) : Text :=
  Spelling.read count
    { number := (lines.flatMap String.toList).foldl (fun n c => n * signs.length + signs.idxOf c) 0 }

def rows (width count : Nat) (t : Text) : List Text :=
  (List.range count).map fun i => (t.drop (i * width)).take width

def ofLines (lines : List Text) : Array Char := lines.flatten.toArray

def consecutive (first count : Nat) : Array Char :=
  ((List.range' first count).map Char.ofNat).toArray

def widthOf (cells : List (UInt8 × UInt8)) : Nat :=
  cells.foldr (fun r n => r.2.toNat + 1 - r.1.toNat + n) 0

def cellOf? : List (UInt8 × UInt8) → UInt8 → Option Nat
  | [], _ => none
  | r :: rest, b =>
    if r.1 ≤ b && b ≤ r.2 then some (b.toNat - r.1.toNat)
    else (cellOf? rest b).map (· + widthOf [r])

def byteOf? : List (UInt8 × UInt8) → Nat → Option UInt8
  | [], _ => none
  | r :: rest, i =>
    if i < widthOf [r] then some (r.1.toNat + i).toUInt8 else byteOf? rest (i - widthOf [r])

def char? (g : Grid) (row cell : UInt8) : Option Char := do
  guard (g.firstRow ≤ row)
  let i ← cellOf? g.cells cell
  (g.chars[(row.toNat - g.firstRow.toNat) * widthOf g.cells + i]?).filter (· != absent)

/-- Takes a character from bytes. -/
def read? (g : Grid) (bytes : Bytes) : Option (Char × Bytes) :=
  match g.introducer, bytes with
  | none, row :: cell :: rest => (g.char? row cell).map (·, rest)
  | some i, b :: row :: cell :: rest => if b == i then (g.char? row cell).map (·, rest) else none
  | _, _ => none

def code? (g : Grid) (i : Nat) : Option Bytes :=
  (byteOf? g.cells (i % widthOf g.cells)).map fun cell =>
    g.introducer.toList ++ [(g.firstRow.toNat + i / widthOf g.cells).toUInt8, cell]

def codes (g : Grid) (c : Char) : List Bytes :=
  ((List.range g.chars.size).filter fun i => g.chars[i]? == some c && c != absent).filterMap g.code?

/-- The bytes of a character. -/
def bytes? (g : Grid) (c : Char) : Option Bytes := (g.codes c).find? (g.read? · == some (c, []))

end Grid

end Rebind.Markup
