/-
Texts as bytes.
-/
import Rebind.Text.Basic

namespace Rebind

abbrev Bytes := List UInt8

namespace Text

/-- The bytes of one character. -/
def utf8Char (c : Char) : Bytes :=
  let n := c.toNat
  if n < 0x80 then [n.toUInt8]
  else if n < 0x800 then [(0xc0 + n / 0x40).toUInt8, (0x80 + n % 0x40).toUInt8]
  else if n < 0x10000 then
    [(0xe0 + n / 0x1000).toUInt8, (0x80 + n / 0x40 % 0x40).toUInt8, (0x80 + n % 0x40).toUInt8]
  else
    [(0xf0 + n / 0x40000).toUInt8, (0x80 + n / 0x1000 % 0x40).toUInt8,
      (0x80 + n / 0x40 % 0x40).toUInt8, (0x80 + n % 0x40).toUInt8]

/-- Writes each character in one to four bytes. -/
def utf8 (t : Text) : Bytes := t.flatMap utf8Char

/-- Why bytes are no text. -/
inductive Utf8Fault where
  | start
  /-- A byte does not go on as the first one demands. -/
  | continuation
  | ending
deriving DecidableEq, Repr

/-- A fault in a run of bytes: the bytes of the character that were read before it was found. -/
structure Utf8Error where
  fault : Utf8Fault
  position : Nat
  bytes : Bytes
deriving DecidableEq, Repr

def isContinuation (b : UInt8) : Bool := 0x80 ≤ b && b < 0xc0

def continuationBytes? (b : UInt8) : Option Nat :=
  if b < 0x80 then some 0
  else if b < 0xc2 then none
  else if b < 0xe0 then some 1
  else if b < 0xf0 then some 2
  else if b < 0xf5 then some 3
  else none

def isSecond (first second : UInt8) : Bool :=
  isContinuation second &&
    (if first == 0xe0 then 0xa0 ≤ second
     else if first == 0xed then second < 0xa0
     else if first == 0xf0 then 0x90 ≤ second
     else if first == 0xf4 then second < 0x90
     else true)

def codePoint (first : UInt8) (more : Bytes) : Nat :=
  more.foldl (fun n b => n * 0x40 + (b.toNat - 0x80))
    (if first < 0x80 then first.toNat
     else if first < 0xe0 then first.toNat - 0xc0
     else if first < 0xf0 then first.toNat - 0xe0
     else first.toNat - 0xf0)

def continuation (first : UInt8) (wanted : Nat) (rest : Bytes) : Bytes :=
  match rest with
  | [] => []
  | second :: rest =>
    if wanted = 0 || !isSecond first second then []
    else second :: (rest.take (wanted - 1)).takeWhile isContinuation

def utf8First (first : UInt8) (rest : Bytes) : Except (Utf8Fault × Bytes) (Char × Nat) :=
  match continuationBytes? first with
  | none => .error (.start, [first])
  | some wanted =>
    let more := continuation first wanted rest
    if more.length = wanted then .ok (Char.ofNat (codePoint first more), wanted)
    else if more.length = rest.length then .error (.ending, first :: more)
    else .error (.continuation, first :: more)

/-- The text that bytes from `position` on are written for, the first `skip` of them left out. -/
def ofUtf8From : (skip position : Nat) → Bytes → Except Utf8Error Text
  | _, _, [] => .ok []
  | skip + 1, position, _ :: rest => ofUtf8From skip (position + 1) rest
  | 0, position, b :: rest =>
    match utf8First b rest with
    | .error (fault, bytes) => .error ⟨fault, position, bytes⟩
    | .ok (c, more) => (ofUtf8From more (position + 1) rest).map (c :: ·)

/-- Reads bytes that some text is written with and says where and why others are no text: a byte that starts no
character, bytes that do not go on as the first one demands, or an end in the middle of a character. -/
def ofUtf8 (bytes : Bytes) : Except Utf8Error Text := ofUtf8From 0 0 bytes

def hexByte (b : UInt8) : Text :=
  [Nat.digitChar (b.toNat / 16), Nat.digitChar (b.toNat % 16)]

/-- What is wrong, in words. -/
def Utf8Fault.reason : Utf8Fault → Text
  | start => "invalid start byte"
  | continuation => "invalid continuation byte"
  | ending => "unexpected end of data"

/-- The message for bytes that are no text. -/
def Utf8Error.message (e : Utf8Error) : Text :=
  match e.bytes with
  | [b] =>
    "'utf-8' codec can't decode byte 0x" ++ hexByte b ++ " in position " ++ numeral e.position ++ ": " ++
      e.fault.reason
  | bytes =>
    "'utf-8' codec can't decode bytes in position " ++ numeral e.position ++ "-" ++
      numeral (e.position + bytes.length - 1) ++ ": " ++ e.fault.reason

end Text

end Rebind
