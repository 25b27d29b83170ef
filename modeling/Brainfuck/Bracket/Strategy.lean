import Brainfuck.Bracket.Scan
import Brainfuck.Bracket.JumpTable

/-!
# Bracket strategies

Two ways to find the partner of a bracket: scan for it at every jump, or look it up in a
table that is built once. A table lookup returns the partner whichever bracket is asked
for, so away from brackets of the right kind the two strategies may differ.
-/
namespace Brainfuck.Bracket

inductive Strategy where
  | scan
  | table
  deriving DecidableEq, Repr

namespace Strategy

def name : Strategy → String
  | .scan => "scan"
  | .table => "table"

def ofName? (text : String) : Option Strategy :=
  if text = "scan" then some .scan
  else if text = "table" then some .table
  else none

@[simp] theorem ofName?_name (s : Strategy) : ofName? s.name = some s := by
  cases s <;> rfl

end Strategy

/-- Answers the two questions a running program asks about its brackets. -/
structure Matcher where
  /-- The closing bracket for an opening bracket at a position. -/
  closing : Int → Option Nat
  /-- The opening bracket for a closing bracket at a position. -/
  opening : Int → Option Nat

def Matcher.scanning (p : Program) : Matcher := ⟨scanForward p, scanBackward p⟩

def Matcher.ofTable (table : JumpTable) : Matcher := ⟨table.partner?, table.partner?⟩

def Strategy.matcher (s : Strategy) (p : Program) : Matcher :=
  match s with
  | .scan => .scanning p
  | .table => .ofTable (JumpTable.build p)

end Brainfuck.Bracket
