/-
Edits of a text, recorded against the unchanged text and applied together.
-/
import Rebind.Edit.Removal

namespace Rebind

/-- The characters from `start` up to `stop` become `text`. An edit of no characters is an
insertion. -/
structure Edit where
  start : Nat
  stop : Nat
  text : Text
  deriving DecidableEq

namespace Edit

open Text

def isInsertion (e : Edit) : Bool := e.start == e.stop

def covers (e : Edit) (pos : Nat) : Bool := decide (e.start ≤ pos) && decide (pos < e.stop)

inductive EditError where
  | outside (start stop : Nat)
  | differing (start stop : Nat)
  | overlapping (start stop otherStart otherStop : Nat)
  deriving DecidableEq

def spanText (start stop : Nat) : Text :=
  "[" ++ numeral start ++ ", " ++ numeral stop ++ ")"

/-- What is reported. -/
def EditError.message : EditError → Text
  | outside start stop => "edit " ++ spanText start stop ++ " outside the source"
  | differing start stop => "two different replacements for " ++ spanText start stop
  | overlapping start stop otherStart otherStop =>
    "edit " ++ spanText start stop ++ " overlaps " ++ spanText otherStart otherStop

structure Draft where
  text : Text
  edits : List Edit

namespace Draft

def ofText (text : Text) : Draft := ⟨text, []⟩

def replace (d : Draft) (start stop : Nat) (text : Text) : Except EditError Draft :=
  if stop < start ∨ d.text.length < stop then .error (.outside start stop)
  else .ok { d with edits := d.edits ++ [⟨start, stop, text⟩] }

def insert (d : Draft) (pos : Nat) (text : Text) : Except EditError Draft :=
  if text.isEmpty then .ok d else d.replace pos pos text

def delete (d : Draft) (start stop : Nat) : Except EditError Draft :=
  if start < stop then d.replace start stop [] else .ok d

def remove (d : Draft) (start stop : Nat) : Except EditError Draft :=
  let (s, e) := removalSpan d.text start stop
  d.delete s e

def covers (d : Draft) (pos : Nat) : Bool := d.edits.any (·.covers pos)

/-- The recorded ranges by their start, the longer first, and then in the order of recording. -/
def ranges (d : Draft) : List Edit :=
  (d.edits.filter fun e => !e.isInsertion).mergeSort fun a b =>
    a.start < b.start || (a.start == b.start && decide (b.stop ≤ a.stop))

/-- The ranges of an ordered list that lie in no earlier one, where `outer` is the last range kept
before them. -/
def keepOuter : (outer : Option Edit) → List Edit → Except EditError (List Edit)
  | _, [] => .ok []
  | none, e :: es => do return e :: (← keepOuter (some e) es)
  | some o, e :: es =>
    if o.stop ≤ e.start then do return e :: (← keepOuter (some e) es)
    else if e.stop ≤ o.stop then
      if e.start = o.start ∧ e.stop = o.stop ∧ e.text ≠ [] ∧ o.text ≠ [] ∧ e.text ≠ o.text then
        .error (.differing e.start e.stop)
      else keepOuter (some o) es
    else .error (.overlapping e.start e.stop o.start o.stop)

/-- Keeps the ranges that take effect. An edit that lies inside a wider deletion or replacement has no effect; edits
that overlap in part cannot both be made. -/
def resolve (d : Draft) : Except EditError (List Edit) := keepOuter none d.ranges

def insertionsOutside (d : Draft) (kept : List Edit) : List Edit :=
  d.edits.filter fun e =>
    e.isInsertion && !kept.any fun r => decide (r.start < e.start) && decide (e.start < r.stop)

def assemble (text : Text) : (cursor : Nat) → List Edit → Text
  | cursor, [] => text.drop cursor
  | cursor, e :: es =>
    slice text cursor e.start ++ e.text ++ assemble text (max cursor e.stop) es

/-- Writes the edited text. -/
def apply (d : Draft) : Except EditError Text := do
  let kept ← d.resolve
  let edits := (d.insertionsOutside kept ++ kept).mergeSort fun a b => decide (a.start ≤ b.start)
  return assemble d.text 0 edits

end Draft

end Edit

end Rebind
