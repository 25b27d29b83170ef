import Brainfuck.Number.Shortest

/-!
# Faults

The conditions that stop a running program, and their texts. A fault is one line of the
error log. The position of a fault is an octet offset in the program; faults can also be
described for positions outside any program, so it is an integer.
-/
namespace Brainfuck

inductive Direction where
  | left
  | right
  deriving DecidableEq, Repr

def Direction.name : Direction → String
  | .left => "left"
  | .right => "right"

/-- What stops a running program, and where. -/
inductive Fault where
  /-- The pointer would have left the tape. -/
  | outOfBounds (position : Int) (direction : Direction)
  /-- An opening bracket on a zero cell has no partner. -/
  | missingClosing (position : Int)
  /-- A closing bracket on a nonzero cell has no partner. -/
  | missingOpening (position : Int)
  deriving DecidableEq, Repr

namespace Fault

def position : Fault → Int
  | .outOfBounds position _ => position
  | .missingClosing position => position
  | .missingOpening position => position

def describe : Fault → String
  | .outOfBounds position direction =>
    s!"data pointer moved {direction.name} out of bounds at char {integerText position}"
  | .missingClosing position =>
    s!"missing closing bracket for opening bracket at char {integerText position}"
  | .missingOpening position =>
    s!"missing opening bracket for closing bracket at char {integerText position}"

/-- The line that the error log receives, newline included. -/
def line (fault : Fault) : String := s!"error: {fault.describe}\n"

end Fault

end Brainfuck
