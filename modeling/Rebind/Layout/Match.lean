/-
The layout that most likely belongs to a class.
-/
import Rebind.Naming

namespace Rebind.Layout

/-- The role that the end of a class name tells, as the beginning of layout names, and the rest of the
class name. -/
def roleOf (className : Text) : Text × Text :=
  match Naming.roles.find? fun r => Text.endsWith className r.1 && className != r.1 with
  | some (suffix, start) => (start, className.take (className.length - suffix.length))
  | none => ([], className)

def words (name : Text) : List Text := (Text.pieces '_' name).eraseDups

/-- One point for each word that a layout shares with the class name, and one more for the beginning that goes with the
role of the class. -/
def rating (className layout : Text) : Nat :=
  let (start, base) := roleOf className
  let shared := ((words (Naming.snakeCase base)).filter (words layout).contains).length
  if shared = 0 then 0 else if !start.isEmpty && Text.startsWith layout start then shared + 1 else shared

/-- Of two of equal rating the shorter name wins, and of two of equal length the earlier one. -/
def isBetter (a b : Nat × Text) : Bool :=
  if a.1 = b.1 then
    if a.2.length = b.2.length then Text.le a.2 b.2 else decide (a.2.length < b.2.length)
  else decide (b.1 < a.1)

/-- The best of the layouts with a rating. -/
def best : List (Nat × Text) → Option (Nat × Text)
  | [] => none
  | a :: rest =>
    match best rest with
    | some b => some (if isBetter a b then a else b)
    | none => some a

def bestMatch (layouts : List Text) (className guess : Text) : Option Text :=
  if !guess.isEmpty && layouts.contains guess then some guess
  else if className.isEmpty then none
  else
    (best ((layouts.map fun l => (rating className l, l)).filter fun p => p.1 != 0)).map (·.2)

/-- A layout of the expected name wins over all others. -/
def layoutOfClass (layouts : List Text) (className : Text) : Option Text :=
  match Naming.layoutNameOfClass className with
  | none => none
  | some guess =>
    if !guess.isEmpty && layouts.contains guess then some guess
    else ((bestMatch layouts className guess).filter fun l => !l.isEmpty).or (some guess)

end Rebind.Layout
