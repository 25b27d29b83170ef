import Brainfuck.Execution
import Brainfuck.Proofs.JumpTable
import Brainfuck.Stream.Trace

/-!
# Agreement of the bracket strategies

A step asks for a partner only at a bracket of the right kind, and there the table and the
scans give the same answer. Equal steps give equal runs, whatever the streams do: a run is
one computation in the monad of its streams, and the strategies make it the same one.

The comparison of whole executions is made on recorded streams over an arbitrary state, so
it covers sinks with and without a flush, calls that fail, and reads that depend on all
that happened before.
-/
namespace Brainfuck

open Brainfuck.Bracket

namespace Machine

variable {w : Nat}

/-- A step takes every strategy for the scans. -/
theorem step_matcher (strategy : Strategy) (p : Program) (machine : Machine w) :
    machine.step p (strategy.matcher p) = machine.step p (.scanning p) := by
  cases hi : p.instruction? machine.pc with
  | none =>
      by_cases hpc : machine.pc < p.size
      · rw [step_of_inert hpc hi, step_of_inert hpc hi]
      · rw [step_of_size_le (Nat.le_of_not_lt hpc), step_of_size_le (Nat.le_of_not_lt hpc)]
  | some instruction =>
      rw [step_of_instruction hi, step_of_instruction hi]
      cases instruction with
      | opening =>
          have h := strategy.closing_matcher hi
          simp only [perform, h, Matcher.scanning]
      | closing =>
          have h := strategy.opening_matcher hi
          simp only [perform, h, Matcher.scanning]
      | right => rfl
      | left => rfl
      | increment => rfl
      | decrement => rfl
      | output => rfl
      | input => rfl

end Machine

namespace Execution

variable {m : Type → Type} [Monad m] {w : Nat}

theorem runFor_matcher (streams : Streams m) (p : Program) (strategy : Strategy) (n : Nat)
    (machine : Machine w) :
    runFor streams p (strategy.matcher p) n machine =
      runFor streams p (.scanning p) n machine := by
  induction n generalizing machine with
  | zero => rfl
  | succ n ih =>
      simp only [runFor, Machine.step_matcher]
      cases machine.step p (.scanning p) with
      | advance next => exact ih next
      | write byte next => simp only [ih]
      | read next => simp only [ih]
      | stop verdict final => rfl

/-- The strategy is the one part of the options that an execution does not depend on. -/
theorem execute_brackets [MonadFinally m] (streams : Streams m) (options : Options)
    (strategy : Strategy) (p : Program) (budget : Nat) :
    execute streams { options with brackets := strategy } p budget =
      execute streams options p budget := by
  simp only [execute, runFor_matcher]
  rfl

end Execution

/-- Asking for another strategy changes the strategy, and no verdict on the rest. -/
theorem Settings.resolve_withBrackets (settings : Settings) (s t : Strategy) :
    (settings.withBrackets s).resolve =
      (settings.withBrackets t).resolve.map fun options => { options with brackets := s } := by
  have hs : (settings.withBrackets s).askedBrackets = .ok s := by
    simp [askedBrackets, withBrackets, parseBrackets]
  have ht : (settings.withBrackets t).askedBrackets = .ok t := by
    simp [askedBrackets, withBrackets, parseBrackets]
  -- The length and the width are judged first, and alike on both sides.
  unfold resolve
  rw [hs, ht]
  change (settings.askedTapeLength >>= _) = Except.map _ (settings.askedTapeLength >>= _)
  cases settings.askedTapeLength with
  | error error => rfl
  | ok tapeLength =>
      change (settings.askedCellWidth >>= _) = Except.map _ (settings.askedCellWidth >>= _)
      cases settings.askedCellWidth with
      | error error => rfl
      | ok cellWidth => rfl

/-- The strategy has no part in whether an execution starts. -/
theorem Settings.prepare_withBrackets (host : Host) (settings : Settings) (s t : Strategy) :
    (settings.withBrackets s).prepare host =
      ((settings.withBrackets t).prepare host).map fun options =>
        { options with brackets := s } := by
  unfold prepare
  rw [settings.resolve_withBrackets s t]
  cases (settings.withBrackets t).resolve with
  | error error => rfl
  | ok options =>
      dsimp only [Except.map]
      cases Tape.make host options.cellWidth.bits options.tapeLength <;> rfl

theorem interpret_withBrackets {m : Type → Type} [Monad m] [MonadFinally m] (host : Host)
    (streams : Streams m) (settings : Settings) (s t : Strategy) (p : Program) (n : Nat) :
    interpret host streams (settings.withBrackets s) p n =
      interpret host streams (settings.withBrackets t) p n := by
  unfold interpret
  rw [settings.prepare_withBrackets host s t]
  cases (settings.withBrackets t).prepare host with
  | error error => rfl
  | ok options =>
      exact congrArg (Except.ok <$> ·) (Execution.execute_brackets streams options s p n)

/-- The two strategies agree on every program and all streams: after any number of steps
both runs are at the same machine with the same calls made, or have stopped or failed
alike, and so both executions return the same, write the same and leave the same behind. -/
theorem scan_table_agree {ε σ : Type} (streams : Streams (Effect ε σ)) (p : Program)
    (world : σ) :
    (∀ (w : Nat) (tape : Tape w) (n : Nat),
      (Execution.runFor (Recorded.streams streams) p (Strategy.scan.matcher p) n
          (Machine.initial tape)).runFrom (.start world) =
        (Execution.runFor (Recorded.streams streams) p (Strategy.table.matcher p) n
          (Machine.initial tape)).runFrom (.start world)) ∧
    ∀ (host : Host) (settings : Settings) (n : Nat),
      (interpret host (Recorded.streams streams) (settings.withBrackets .scan) p n).runFrom
          (.start world) =
        (interpret host (Recorded.streams streams) (settings.withBrackets .table) p n).runFrom
          (.start world) := by
  constructor
  · intro w tape n
    rw [Execution.runFor_matcher, Execution.runFor_matcher]
  · intro host settings n
    rw [interpret_withBrackets host (Recorded.streams streams) settings .scan .table]

end Brainfuck
