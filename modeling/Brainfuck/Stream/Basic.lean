/-!
# Streams

What a running program is connected to: a source it reads from, a sink for its output and
a sink for diagnostics. All three act in one monad, which is the only thing an execution
knows about them. A pure state monad gives streams in memory, an exception layer gives
streams that may fail, and `IO` gives the streams of a process.
-/
namespace Brainfuck

/-- An append-only byte output. Some sinks hold bytes back until they are flushed. -/
structure Sink (m : Type → Type) where
  write : List UInt8 → m Unit
  flush? : Option (m Unit)

namespace Sink

variable {m : Type → Type}

/-- Flushes a sink that can be flushed. -/
def flush [Monad m] (sink : Sink m) : m Unit :=
  match sink.flush? with
  | some action => action
  | none => pure ()

def null [Monad m] : Sink m where
  write _ := pure ()
  flush? := none

end Sink

/-- The streams of an execution. Reading yields a value, or `none` at the end of input. -/
structure Streams (m : Type → Type) where
  read : m (Option Int)
  out : Sink m
  log : Sink m

/-- The same streams with the diagnostics dropped. -/
def Streams.quiet {m : Type → Type} [Monad m] (streams : Streams m) : Streams m :=
  { streams with log := Sink.null }

/-- Computations on a state `σ` that may fail with an error `ε`. A failure keeps the state. -/
abbrev Effect (ε σ : Type) := ExceptT ε (StateM σ)

/-- Runs an effect from a state to its outcome and the state afterwards. -/
def Effect.runFrom {ε σ α : Type} (x : Effect ε σ α) (s : σ) : Except ε α × σ := x.run.run s

end Brainfuck
