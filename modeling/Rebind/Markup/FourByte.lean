/-
Characters of four bytes: the digits of a number, in which the second and the fourth digit count to ten,
the third one to 126. The numbers go through the characters that two bytes do not reach, in the order of
their code points.
-/
import Rebind.Text.Table
import Rebind.Text.Utf8

namespace Rebind.Markup.FourByte

/-- The numbers from which on the code points run without a gap, each with its code point, given by
how many code points run on and how many are left out, by turns. -/
def runsFrom (number point : Nat) : List Nat → List (Nat × Nat)
  | run :: skipped :: rest =>
    (number, point) :: runsFrom (number + run) (point + run + skipped) rest
  | _ => [(number, point)]

def runs : List (Nat × Nat) :=
  runsFrom 0 0x80 <| Text.numbersOf
    ["T1227251O18263124231121141A171?1H13141M1b:111111111111111L1a[1?1b=113=1d7A177A17a;1>aD11feB12412227291121151bH1aZ11131<1:1aB<4:F424bF16111314124211115215451:13151=22462U131;1I1aV1gI::Xb<aP4T=?33:2@282823122B4O221a:111auZ1213122:1?12131412231>1fM<441C5229D12aW742aZ536UeJ:71bI1e>2<321R1912221bI1[1fR1bG1;1qA1aY1b82>1c?1dZ1fG1bI1t51f01jO1bL141[1eL1hE1D1dA151aV1@1j11a61214212D131F2o[1W5bG7c@1aUrg2loVckP1b31N=Q13517142428171@2>1csK1aP1K1aU191J4111231631223wB21B4:141>14cAb6bY6"]

def planeEnd : Nat := 39420

def beyond : Nat := 189000

/-- The character of a number. -/
def ofNumber? (n : Nat) : Option Char :=
  if n < planeEnd then
    ((runs.takeWhile (·.1 ≤ n)).getLast?).map fun r => Char.ofNat (r.2 + (n - r.1))
  else if beyond ≤ n && n < beyond + 0x100000 then some (Char.ofNat (0x10000 + (n - beyond)))
  else none

def number? (c : Char) : Option Nat :=
  if 0x10000 ≤ c.toNat then some (beyond + (c.toNat - 0x10000))
  else do
    let r ← (runs.takeWhile (·.2 ≤ c.toNat)).getLast?
    let n := r.1 + (c.toNat - r.2)
    if ofNumber? n = some c then some n else none

def digit? (base bound : Nat) (b : UInt8) : Option Nat :=
  if base ≤ b.toNat && b.toNat < base + bound then some (b.toNat - base) else none

def read? : Bytes → Option (Char × Bytes)
  | a :: b :: c :: d :: rest => do
    let n := ((← digit? 0x81 126 a) * 10 + (← digit? 0x30 10 b)) * 126 + (← digit? 0x81 126 c)
    (ofNumber? (n * 10 + (← digit? 0x30 10 d))).map (·, rest)
  | _ => none

/-- The bytes of a character. -/
def bytes? (c : Char) : Option Bytes := do
  let n ← number? c
  return [0x81 + n / 12600, 0x30 + n / 1260 % 10, 0x81 + n / 10 % 126, 0x30 + n % 10].map Nat.toUInt8

end Rebind.Markup.FourByte
