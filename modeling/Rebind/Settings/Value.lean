/-
Values that settings are given as, and their notation in texts.
-/
import Rebind.Text.Basic

namespace Rebind.Settings

/-- A value of any kind. -/
inductive Value where
  | null
  | bool (b : Bool)
  | integer (n : Int)
  /-- Another number, `mantissa` times ten to the power of `exponent`. -/
  | decimal (mantissa exponent : Int)
  | unbounded
  | text (t : Text)
  | list (items : List Value)
  | object (items : List (Text × Value))

instance : Inhabited Value := ⟨.null⟩

namespace Value

def isBlank (c : Char) : Bool := c == ' ' || c == '\t' || c == '\n' || c == '\r'

def skip (t : Text) : Text := t.dropWhile isBlank

/-- The value of a hexadecimal digit. -/
def hexDigit? (c : Char) : Option Nat :=
  if c.isDigit then some (c.toNat - '0'.toNat)
  else if 'a' ≤ c ∧ c ≤ 'f' then some (c.toNat - 'a'.toNat + 10)
  else if 'A' ≤ c ∧ c ≤ 'F' then some (c.toNat - 'A'.toNat + 10)
  else none

def unit? : (t : Text) → Option (Nat × Text)
  | a :: b :: c :: d :: t => do
    some (((← hexDigit? a) * 16 + (← hexDigit? b)) * 256 + (← hexDigit? c) * 16 + (← hexDigit? d), t)
  | _ => none

def numbered? (t : Text) : Option (Char × Text) := do
  let (high, rest) ← unit? t
  match rest with
  | '\\' :: 'u' :: tail =>
    match unit? tail with
    | some (low, tail) =>
      if 0xd800 ≤ high ∧ high < 0xdc00 ∧ 0xdc00 ≤ low ∧ low < 0xe000 then
        some (Char.ofNat (0x10000 + (high - 0xd800) * 0x400 + (low - 0xdc00)), tail)
      else some (Char.ofNat high, rest)
    | none => some (Char.ofNat high, rest)
  | _ => some (Char.ofNat high, rest)

/-- The character after a backslash, and what follows. -/
def escaped? : (t : Text) → Option (Char × Text)
  | '"' :: t => some ('"', t)
  | '\\' :: t => some ('\\', t)
  | '/' :: t => some ('/', t)
  | 'b' :: t => some ('\x08', t)
  | 'f' :: t => some ('\x0c', t)
  | 'n' :: t => some ('\n', t)
  | 'r' :: t => some ('\r', t)
  | 't' :: t => some ('\t', t)
  | 'u' :: t => numbered? t
  | _ => none

/-- The text up to the closing quotation mark, and what follows. -/
def quoted? (t : Text) : Option (Text × Text) :=
  match t with
  | [] => none
  | '"' :: rest => some ([], rest)
  | '\\' :: tail =>
    match escaped? tail with
    | some (c, rest) =>
      if _h : rest.length < tail.length then (quoted? rest).map fun (u, rest) => (c :: u, rest) else none
    | none => none
  | c :: rest => if c.toNat < 0x20 then none else (quoted? rest).map fun (u, rest) => (c :: u, rest)
termination_by t.length

def wholePart? : (t : Text) → Option (Text × Text)
  | '0' :: t => some (['0'], t)
  | c :: t => if c.isDigit then some (c :: t.takeWhile Char.isDigit, t.dropWhile Char.isDigit) else none
  | [] => none

def fraction? : (t : Text) → Option (Text × Text)
  | '.' :: c :: t =>
    if c.isDigit then some (c :: t.takeWhile Char.isDigit, t.dropWhile Char.isDigit) else none
  | _ => none

def digits? (t : Text) : Option (Nat × Text) :=
  if t.head?.any Char.isDigit then
    some (Text.valueOf (t.takeWhile Char.isDigit), t.dropWhile Char.isDigit)
  else none

/-- An exponent, and what follows. -/
def exponent? : (t : Text) → Option (Int × Text)
  | e :: t =>
    if e == 'e' || e == 'E' then
      match t with
      | '-' :: t => (digits? t).map fun (n, rest) => (-n, rest)
      | '+' :: t => (digits? t).map fun (n, rest) => (n, rest)
      | t => (digits? t).map fun (n, rest) => (n, rest)
    else none
  | [] => none

/-- A number without sign, and what follows. -/
def number? (negative : Bool) (t : Text) : Option (Value × Text) := do
  let (whole, rest) ← wholePart? t
  let signed (digits : Text) : Int := if negative then -Text.valueOf digits else Text.valueOf digits
  match fraction? rest, exponent? rest with
  | some (fraction, tail), _ =>
    let (exponent, tail) := (exponent? tail).getD (0, tail)
    some (decimal (signed (whole ++ fraction)) (exponent - fraction.length), tail)
  | none, some (exponent, tail) => some (decimal (signed whole) exponent, tail)
  | none, none => some (integer (signed whole), rest)

def words : List (Text × Value) :=
  [("null", null), ("true", bool true), ("false", bool false), ("NaN", unbounded),
   ("Infinity", unbounded), ("-Infinity", unbounded)]

/-- A word or a number, and what follows. -/
def atom? (t : Text) : Option (Value × Text) :=
  match words.findSome? fun (word, value) => (Text.after? word t).map (value, ·) with
  | some found => some found
  | none =>
    match t with
    | '-' :: t => number? true t
    | t => number? false t

mutual

/-- A value, and what follows; `fuel` bounds the parts of it. -/
def read? : (fuel : Nat) → (t : Text) → Option (Value × Text)
  | 0, _ => none
  | _, [] => none
  | fuel + 1, c :: t =>
    if c == '"' then (quoted? t).map fun (u, rest) => (text u, rest)
    else if c == '[' then
      match skip t with
      | ']' :: rest => some (list [], rest)
      | t => (items? fuel t).map fun (vs, rest) => (list vs, rest)
    else if c == '\x7b' then
      match skip t with
      | '\x7d' :: rest => some (object [], rest)
      | t => (members? fuel t).map fun (ms, rest) => (object ms, rest)
    else atom? (c :: t)

/-- The values of a list up to its end, and what follows. -/
def items? : (fuel : Nat) → (t : Text) → Option (List Value × Text)
  | 0, _ => none
  | fuel + 1, t => do
    let (v, rest) ← read? fuel t
    match skip rest with
    | ',' :: rest => (items? fuel (skip rest)).map fun (vs, rest) => (v :: vs, rest)
    | ']' :: rest => some ([v], rest)
    | _ => none

/-- The named values of an object up to its end, and what follows. -/
def members? : (fuel : Nat) → (t : Text) → Option (List (Text × Value) × Text)
  | 0, _ => none
  | fuel + 1, t => do
    let (name, rest) ← match t with
      | '"' :: t => quoted? t
      | _ => none
    let rest ← match skip rest with
      | ':' :: rest => some (skip rest)
      | _ => none
    let (v, rest) ← read? fuel rest
    match skip rest with
    | ',' :: rest => (members? fuel (skip rest)).map fun (ms, rest) => ((name, v) :: ms, rest)
    | '\x7d' :: rest => some ([(name, v)], rest)
    | _ => none

end

/-- The value that a text spells. A value with all its parts takes at least half as many characters
as steps. -/
def ofText? (t : Text) : Option Value := do
  let (v, rest) ← read? (2 * t.length + 2) (skip t)
  if (skip rest).isEmpty then some v else none

end Value

end Rebind.Settings
