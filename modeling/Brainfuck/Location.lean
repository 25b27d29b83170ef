import Brainfuck.Number.Binary64
import Brainfuck.Program

/-!
# Lines and columns

A position is shown to the user as a line and a column, both counted from one, the column
in octets. Lines end at newline octets. The starts of the lines are collected once, and
the line of a position is found by halving the range of candidates. Any integer has a
location: positions before the program lie on the first line, those past its end on the
last. Columns are binary64 numbers, so differences are exact up to two to the power
of 53 and rounded beyond.
-/
namespace Brainfuck

def newline : UInt8 := 10

/-- A line and a column, counted from one. -/
structure Location where
  line : Nat
  column : Int
  deriving DecidableEq, Repr

/-- The offsets at which the lines of a program start, in increasing order. -/
structure LineIndex where
  starts : Array Nat
  deriving DecidableEq, Repr

namespace LineIndex

def ofProgram (p : Program) : LineIndex :=
  ⟨p.size.fold (fun i _ starts =>
    if p.bytes[i]? = some newline then starts.push (i + 1) else starts) #[0]⟩

/-- The offset at which a line starts; lines are counted from zero here. -/
def start (index : LineIndex) (line : Nat) : Nat := index.starts[line]?.getD 0

/-- The last line between `low` and `high` that starts at or before a position, or `low`. -/
def search (index : LineIndex) (position : Int) (low high : Nat) : Nat :=
  if low < high then
    let middle := (low + high + 1) / 2
    if (index.start middle : Int) ≤ position then search index position middle high
    else search index position low (middle - 1)
  else low
termination_by high - low

/-- The line that holds a position, counted from zero. -/
def lineOf (index : LineIndex) (position : Int) : Nat :=
  index.search position 0 (index.starts.size - 1)

def locate (index : LineIndex) (position : Int) : Location :=
  let line := index.lineOf position
  ⟨line + 1, Binary64.roundInt (Binary64.roundInt (position - index.start line) + 1)⟩

end LineIndex

def Program.locate (p : Program) (position : Int) : Location :=
  (LineIndex.ofProgram p).locate position

end Brainfuck
