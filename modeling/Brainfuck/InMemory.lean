import Brainfuck.Execution
import Brainfuck.Stream.Buffer

/-!
# Execution in memory

Whole executions as functions: the input goes in as a list of bytes, and what the program
writes comes out with its verdict. A session interprets several programs on one memory, so
that each continues with the input that the earlier ones have left and adds to what they
have written.
-/
namespace Brainfuck

/-- What an execution in memory leaves behind. -/
structure Report where
  verdict : Option Verdict
  output : List UInt8
  errors : String
  deriving DecidableEq, Repr

def interpretInMemory (host : Host) (settings : Settings) (p : Program) (budget : Nat) :
    StateM Memory (Except StartError (Option Verdict)) :=
  interpret host Memory.streams settings p budget

/-- Interprets a program on the given input and collects what it writes. -/
def run (host : Host) (p : Program) (input : List UInt8) (settings : Settings) (budget : Nat) :
    Except StartError Report :=
  let (result, memory) := (interpretInMemory host settings p budget).run (.ofInput input)
  result.map fun verdict => ⟨verdict, memory.output.bytes, memory.errors.text⟩

/-- One program of a session: its verdict and the shared memory after it. -/
structure SessionStep where
  result : Except StartError (Option Verdict)
  memory : Memory

/-- Interprets programs one after another on shared streams. -/
def session (host : Host) (budget : Nat) :
    List (Settings × Program) → Memory → List SessionStep
  | [], _ => []
  | (settings, p) :: more, memory =>
    let (result, memory) := (interpretInMemory host settings p budget).run memory
    ⟨result, memory⟩ :: session host budget more memory

end Brainfuck
