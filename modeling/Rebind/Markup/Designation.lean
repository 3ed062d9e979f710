/-
Text in bytes below 0x80, in which sequences that start with an escape designate the set of characters
that the bytes behind them stand for.
-/
import Rebind.Markup.Grid.Japanese

namespace Rebind.Markup

inductive Designation where
  | ascii
  | roman
  | kanji
deriving DecidableEq, Repr

namespace Designation

/-- The bytes that designate a set. -/
def sequence : Designation → Bytes
  | ascii => [0x1b, 0x28, 0x42]
  | roman => [0x1b, 0x28, 0x4a]
  | kanji => [0x1b, 0x24, 0x42]

def kanjiGrid : Grid where
  firstRow := 0x21
  cells := [(0x21, 0x7e)]
  chars := Grid.ofLines Grid.japanese

def single? (d : Designation) (b : UInt8) : Option Char :=
  if 0x80 ≤ b then none
  else
    match d, b with
    | roman, 0x5c => some '¥'
    | roman, 0x7e => some '‾'
    | _, b => some (Char.ofNat b.toNat)

/-- The text of bytes that start in a set. An earlier edition of the set of Japanese counts as the
set. -/
def decode? : Designation → Bytes → Option Text
  | _, [] => some []
  | _, 0x1b :: 0x28 :: 0x42 :: rest => decode? ascii rest
  | _, 0x1b :: 0x28 :: 0x4a :: rest => decode? roman rest
  | _, 0x1b :: 0x24 :: 0x40 :: rest => decode? kanji rest
  | _, 0x1b :: 0x24 :: 0x42 :: rest => decode? kanji rest
  | kanji, row :: cell :: rest => do
    let c ← kanjiGrid.char? row cell
    return c :: (← decode? kanji rest)
  | kanji, [_] => none
  | d, b :: rest => do
    guard (b != 0x1b)
    let c ← d.single? b
    return c :: (← decode? d rest)

/-- The set of a character and its bytes there. -/
def code? (c : Char) : Option (Designation × Bytes) :=
  if c.toNat < 0x80 then some (ascii, [c.toNat.toUInt8])
  else
    match c with
    | '¥' => some (roman, [0x5c])
    | '‾' => some (roman, [0x7e])
    | c => (kanjiGrid.bytes? c).map (kanji, ·)

def encode : Designation → Text → Bytes
  | d, [] => if d = ascii then [] else ascii.sequence
  | d, c :: rest =>
    match code? c with
    | none => encode d rest
    | some (e, bytes) => (if d = e then [] else e.sequence) ++ bytes ++ encode e rest

end Designation

end Rebind.Markup
