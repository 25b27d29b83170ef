import Brainfuck.Stream.Basic

/-!
# Scripted streams

Streams that follow a plan: reads return the replies of a list and then the end of input,
a sink may lack a flush, and one chosen write or flush of each sink may fail. The state
keeps only how many calls of each kind have been made.
-/
namespace Brainfuck

inductive StreamError where
  | outWrite
  | outFlush
  | logWrite
  | logFlush
  | read
  deriving DecidableEq, Repr

def StreamError.message : StreamError → String
  | .outWrite => "out write failed"
  | .outFlush => "out flush failed"
  | .logWrite => "log write failed"
  | .logFlush => "log flush failed"
  | .read => "in read failed"

inductive Reply where
  | value (value : Option Int)
  | failure
  deriving DecidableEq, Repr

/-- The plan of one sink. Calls are counted from one. -/
structure SinkPlan where
  flushes : Bool := false
  failWriteAt : Option Nat := none
  failFlushAt : Option Nat := none
  deriving DecidableEq, Repr

/-- The replies still to come and the number of calls of each kind. -/
structure Script where
  replies : List Reply
  outWrites : Nat := 0
  outFlushes : Nat := 0
  logWrites : Nat := 0
  logFlushes : Nat := 0
  deriving DecidableEq, Repr

namespace Script

/-- The script of an ordinary input: its bytes, and then the end. -/
def ofInput (bytes : List UInt8) : Script :=
  { replies := bytes.map fun b => .value (some b.toNat) }

/-- Counts a call, and fails if it is the chosen one. -/
def count (bump : Script → Nat × Script) (failAt : Option Nat) (error : StreamError) :
    Effect StreamError Script Unit := do
  let n ← modifyGet bump
  if failAt = some n then throw error

def read : Effect StreamError Script (Option Int) := do
  let script ← get
  match script.replies with
  | [] => pure none
  | .value value :: replies =>
    set { script with replies }
    pure value
  | .failure :: replies =>
    set { script with replies }
    throw .read

/-- The streams that follow a script and the plans of their sinks. -/
def streams (out log : SinkPlan) : Streams (Effect StreamError Script) where
  read := read
  out :=
    { write := fun _ =>
        count (fun s => (s.outWrites + 1, { s with outWrites := s.outWrites + 1 }))
          out.failWriteAt .outWrite
      flush? :=
        if out.flushes then
          some (count (fun s => (s.outFlushes + 1, { s with outFlushes := s.outFlushes + 1 }))
            out.failFlushAt .outFlush)
        else none }
  log :=
    { write := fun _ =>
        count (fun s => (s.logWrites + 1, { s with logWrites := s.logWrites + 1 }))
          log.failWriteAt .logWrite
      flush? :=
        if log.flushes then
          some (count (fun s => (s.logFlushes + 1, { s with logFlushes := s.logFlushes + 1 }))
            log.failFlushAt .logFlush)
        else none }

end Script

end Brainfuck
