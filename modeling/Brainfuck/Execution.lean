import Brainfuck.Machine
import Brainfuck.Options
import Brainfuck.Stream.Basic
import Brainfuck.Text.Utf8

/-!
# Execution

An execution drives a machine with streams. A step budget makes it total: an execution
that has not ended within its budget has no verdict. Running for `n` steps and then for
more is the same as running for all of them at once, so a verdict does not depend on how
generous the budget was.

The order of stream calls is fixed. Output is flushed before every read, so that a prompt
is visible. A fault flushes the output, writes its one line to the error log and flushes
that. Whatever happens, the output is flushed once more at the end; a stream error passes
through that last flush, whose own error takes its place.

All that can keep an execution from starting comes before the first stream call: settings
that are refused, and a tape that the host does not give.
-/
namespace Brainfuck

open Brainfuck.Bracket (Matcher)

/-- Why an execution does not start. -/
inductive StartError where
  | config (error : ConfigError)
  | tape (error : Tape.AllocationError)
  deriving DecidableEq, Repr

def StartError.message : StartError → String
  | .config error => error.message
  | .tape error => error.message

/-- The tape that options ask for. -/
def Options.tape (options : Options) : Tape options.cellWidth.bits :=
  .blank options.cellWidth.bits options.tapeLength

namespace Settings

/-- The options of an execution that starts: the settings are resolved, and then the tape
is made. -/
def prepare (host : Host) (s : Settings) : Except StartError Options :=
  match s.resolve with
  | .error error => .error (.config error)
  | .ok options =>
    match Tape.make host options.cellWidth.bits options.tapeLength with
    | .error error => .error (.tape error)
    | .ok _ => .ok options

theorem prepare_of_resolve {host : Host} {s : Settings} {options : Options}
    (h : s.resolve = .ok options) :
    s.prepare host =
      match Tape.make host options.cellWidth.bits options.tapeLength with
      | .error error => .error (.tape error)
      | .ok _ => .ok options := by
  unfold prepare
  rw [h]

theorem prepare_of_refused {host : Host} {s : Settings} {error : ConfigError}
    (h : s.resolve = .error error) : s.prepare host = .error (.config error) := by
  unfold prepare
  rw [h]

/-- An execution that starts has the tape that its options ask for. -/
theorem prepare_eq_ok_iff {host : Host} {s : Settings} {options : Options} :
    s.prepare host = .ok options ↔ s.resolve = .ok options ∧
      Tape.make host options.cellWidth.bits options.tapeLength = .ok options.tape := by
  constructor
  · intro h
    unfold prepare at h
    split at h
    next => cases h
    next hresolve =>
      split at h
      next => cases h
      next tape hmake =>
        obtain rfl := Except.ok.inj h
        exact ⟨hresolve, hmake.trans (congrArg Except.ok (Tape.eq_blank_of_make hmake))⟩
  · rintro ⟨hresolve, hmake⟩
    rw [prepare_of_resolve hresolve, hmake]

theorem resolve_of_prepare {host : Host} {s : Settings} {options : Options}
    (h : s.prepare host = .ok options) : s.resolve = .ok options :=
  (prepare_eq_ok_iff.mp h).1

end Settings

/-- How far a machine has come. -/
inductive Progress (w : Nat) where
  | running (machine : Machine w)
  | stopped (verdict : Verdict) (final : Machine w)
  deriving DecidableEq, Repr

namespace Execution

variable {m : Type → Type} [Monad m] {w : Nat}

/-- Runs a machine for at most the given number of steps. -/
@[specialize] def runFor (streams : Streams m) (p : Program) (brackets : Matcher) :
    Nat → Machine w → m (Progress w)
  | 0, machine => pure (.running machine)
  | n + 1, machine =>
    match machine.step p brackets with
    | .advance next => runFor streams p brackets n next
    | .write byte next => do
      streams.out.write [byte]
      runFor streams p brackets n next
    | .read next => do
      streams.out.flush
      let value ← streams.read
      runFor streams p brackets n (next.supply (value.getD 0))
    | .stop verdict final => pure (.stopped verdict final)

/-- Goes on for more steps unless the machine has stopped. -/
def resume (streams : Streams m) (p : Program) (brackets : Matcher) (n : Nat) :
    Progress w → m (Progress w)
  | .running machine => runFor streams p brackets n machine
  | .stopped verdict final => pure (.stopped verdict final)

theorem runFor_zero (streams : Streams m) (p : Program) (brackets : Matcher)
    (machine : Machine w) : runFor streams p brackets 0 machine = pure (.running machine) := rfl

theorem runFor_add [LawfulMonad m] (streams : Streams m) (p : Program) (brackets : Matcher)
    (n k : Nat) (machine : Machine w) :
    runFor streams p brackets (n + k) machine =
      runFor streams p brackets n machine >>= resume streams p brackets k := by
  induction n generalizing machine with
  | zero => simp [runFor_zero, resume]
  | succ n ih =>
    rw [Nat.succ_add]
    simp only [runFor]
    cases machine.step p brackets with
    | advance next => exact ih next
    | write byte next => simp [ih]
    | read next => simp [ih]
    | stop verdict final => simp [resume]

/-- Reports a fault. Output written before the fault lands ahead of the report. -/
def report (streams : Streams m) (fault : Fault) : m Unit := do
  streams.out.flush
  streams.log.write (Utf8.encode fault.line)
  streams.log.flush

/-- Ends a run: a fault is reported, and a machine still running has no verdict. -/
def conclude (streams : Streams m) : Progress w → m (Option Verdict)
  | .running _ => pure none
  | .stopped .completed _ => pure (some .completed)
  | .stopped (.faulted fault) _ => do
    report streams fault
    pure (some (.faulted fault))

/-- Executes a program within a step budget, on the tape that its options ask for. -/
@[specialize] def execute [MonadFinally m] (streams : Streams m) (options : Options)
    (p : Program) (budget : Nat) : m (Option Verdict) :=
  let machine := Machine.initial options.tape
  try
    runFor streams p (options.brackets.matcher p) budget machine >>= conclude streams
  finally
    streams.out.flush

end Execution

/-- Executes a program under settings. An execution that does not start touches no stream. -/
@[specialize] def interpret {m : Type → Type} [Monad m] [MonadFinally m] (host : Host)
    (streams : Streams m) (settings : Settings) (p : Program) (budget : Nat) :
    m (Except StartError (Option Verdict)) :=
  match settings.prepare host with
  | .error error => pure (.error error)
  | .ok options => .ok <$> Execution.execute streams options p budget

theorem interpret_of_error {m : Type → Type} [Monad m] [MonadFinally m] {host : Host}
    {settings : Settings} {error : StartError} (h : settings.prepare host = .error error)
    (streams : Streams m) (p : Program) (budget : Nat) :
    interpret host streams settings p budget = pure (.error error) := by
  unfold interpret
  rw [h]

end Brainfuck
