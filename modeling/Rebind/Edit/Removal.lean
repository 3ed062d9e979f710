/-
Widening a span so that deleting it leaves no stray blanks behind.
-/
import Rebind.Text.Blank

namespace Rebind.Edit

open Text

def lineIsBlank (t : Text) (start : Nat) : Bool := isAllBlank (slice t start (lineEnd t start))

/-- The end of a removal that takes all of the lines from `start` up to `stop`: a blank line after
it goes too when one comes before it. -/
def linesRemovalEnd (t : Text) (start stop : Nat) : Nat :=
  let blankBefore := 0 < start && lineIsBlank t (lineStart t (start - 1))
  let next := lineEnd t stop
  if blankBefore && stop < t.length && lineIsBlank t stop && next < t.length then next + 1
  else stop

/-- A span that has its lines to itself takes the whole lines, and one of two blank lines that would meet; any other
span takes the blanks that follow it on its line. -/
def removalSpan (t : Text) (s e : Nat) : Nat × Nat :=
  let start := lineStart t s
  let stop := lineEnd t e
  if isAllBlank (slice t start s) && isAllBlank (slice t e stop) then
    (start, linesRemovalEnd t start (min (stop + 1) t.length))
  else (s, e + ((slice t e stop).takeWhile fun c => c == ' ' || c == '\t').length)

end Rebind.Edit
