import Brainfuck.Stream.Basic

/-!
# Traces

The calls that an execution makes on its streams, in order. Recording is a wrapper around
any streams: the wrapped streams behave as before, and each call leaves an event behind.
A write or flush is recorded before it is carried out, so a call that fails is recorded
as well; a read is recorded with the value that it returned.
-/
namespace Brainfuck

inductive Event where
  | outWrite (bytes : List UInt8)
  | outFlush
  | logWrite (bytes : List UInt8)
  | logFlush
  | read (value : Option Int)
  | readFailed
  deriving DecidableEq, Repr

/-- A state and the calls made so far. -/
structure Recorded (σ : Type) where
  world : σ
  trace : Array Event

namespace Recorded

variable {ε σ α : Type}

def start (world : σ) : Recorded σ := ⟨world, #[]⟩

/-- Leaves an event behind. -/
def note (event : Event) : Effect ε (Recorded σ) Unit :=
  modify fun r =>
    match r with
    | ⟨world, trace⟩ => ⟨world, trace.push event⟩

/-- Carries out an unrecorded effect. -/
def lift (x : Effect ε σ α) : Effect ε (Recorded σ) α :=
  ExceptT.mk fun r =>
    match r with
    | ⟨world, trace⟩ =>
      let (outcome, world) := x.runFrom world
      (outcome, ⟨world, trace⟩)

/-- The recorded form of a sink, with the events of its two calls. -/
def sink (write : List UInt8 → Event) (flush : Event) (s : Sink (Effect ε σ)) :
    Sink (Effect ε (Recorded σ)) where
  write bytes := do
    note (write bytes)
    lift (s.write bytes)
  flush? := s.flush?.map fun action => do
    note flush
    lift action

def read (x : Effect ε σ (Option Int)) : Effect ε (Recorded σ) (Option Int) :=
  ExceptT.mk fun r =>
    match r with
    | ⟨world, trace⟩ =>
      match x.runFrom world with
      | (.ok value, world) => (.ok value, ⟨world, trace.push (.read value)⟩)
      | (.error error, world) => (.error error, ⟨world, trace.push .readFailed⟩)

def streams (s : Streams (Effect ε σ)) : Streams (Effect ε (Recorded σ)) where
  read := read s.read
  out := sink .outWrite .outFlush s.out
  log := sink .logWrite .logFlush s.log

end Recorded

end Brainfuck
