/-
Texts as lists of characters, and the cutting, searching and joining that the rest of the library
is written in. Offsets count characters from 0; a span `[s, e)` leaves its end out.
-/
namespace Rebind

abbrev Text := List Char

instance : Coe String Text := ⟨String.toList⟩

namespace Text

def slice (t : Text) (s e : Nat) : Text := (t.take e).drop s

def after? : (p t : Text) → Option Text
  | [], t => some t
  | _ :: _, [] => none
  | a :: p, b :: t => if a == b then after? p t else none

def startsWith (t p : Text) : Bool := (after? p t).isSome

def endsWith (t p : Text) : Bool := p.isSuffixOf t

def before? (p t : Text) : Option Text :=
  if endsWith t p then some (t.take (t.length - p.length)) else none

def cut? (p : Text) : (t : Text) → Option (Text × Text)
  | [] => if p.isEmpty then some ([], []) else none
  | c :: t =>
    match after? p (c :: t) with
    | some rest => some ([], rest)
    | none => (cut? p t).map fun (before, rest) => (c :: before, rest)

def holds (t p : Text) : Bool := (cut? p t).isSome

def pieces (sep : Char) : (t : Text) → List Text
  | [] => [[]]
  | c :: t =>
    if c == sep then [] :: pieces sep t
    else
      match pieces sep t with
      | [] => [[c]]
      | p :: ps => (c :: p) :: ps

def afterLast (sep : Char) (t : Text) : Text := (t.reverse.takeWhile (· != sep)).reverse

def beforeLast (sep : Char) (t : Text) : Text :=
  if t.contains sep then t.take (t.length - (afterLast sep t).length - 1) else t

def join (sep : Text) (ts : List Text) : Text := List.intercalate sep ts

def without (c : Char) (t : Text) : Text := t.filter (· != c)

def numeral (n : Nat) : Text := Nat.toDigits 10 n

def valueOf (digits : Text) : Nat := digits.foldl (fun n c => n * 10 + (c.toNat - '0'.toNat)) 0

def le : (a b : Text) → Bool
  | [], _ => true
  | _ :: _, [] => false
  | a :: as, b :: bs => if a == b then le as bs else decide (a.toNat < b.toNat)

def sort (ts : List Text) : List Text := ts.mergeSort le

def lineStart (t : Text) (pos : Nat) : Nat :=
  (t.take pos).length - ((t.take pos).reverse.takeWhile (· != '\n')).length

/-- Where the line holding offset `pos` ends: at its line break, or at the end of the text. -/
def lineEnd (t : Text) (pos : Nat) : Nat :=
  min (pos + ((t.drop pos).takeWhile (· != '\n')).length) t.length

end Text

end Rebind
