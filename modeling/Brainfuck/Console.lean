import Brainfuck.CommandLine.Run
import Brainfuck.Descriptor.OpenFile

/-!
# The console of a process

A process reads its input in blocks and writes its output and its diagnostics in batches,
the diagnostics line by line. The console keeps the block being read and the bytes not yet
written; the system beneath it fetches blocks and accepts bytes. A failed write is an
error of the stream call that caused it.

The second half is a process whose system is in memory: its input is a file, and output
and diagnostics are appended to one transcript, so that the transcript shows the order in
which they reached the system.
-/
namespace Brainfuck

/-- What a process holds between its streams and the system. -/
structure Console (ε : Type) where
  reader : BlockReader ε
  output : BlockWriter
  errors : BlockWriter

structure ConsoleSystem (ε : Type) (n : Type → Type) where
  fetch : n (Except ε (List UInt8))
  output : Offer ε n
  errors : Offer ε n

namespace Console

variable {ε : Type} {n : Type → Type}

/-- The console of a new process. Only diagnostics are line buffered, unless the output
goes to a terminal. -/
def initial (outputIsTerminal : Bool) : Console ε where
  reader := {}
  output := { lineBuffered := outputIsTerminal }
  errors := { lineBuffered := true }

/-- Carries out an operation on the output writer. -/
def onOutput [Monad n] (f : BlockWriter → n (Except ε Unit × BlockWriter)) :
    ExceptT ε (StateT (Console ε) n) Unit :=
  ExceptT.mk fun console => do
    match console with
    | ⟨reader, output, errors⟩ =>
      let (outcome, output) ← f output
      pure (outcome, ⟨reader, output, errors⟩)

/-- Carries out an operation on the diagnostics writer. -/
def onErrors [Monad n] (f : BlockWriter → n (Except ε Unit × BlockWriter)) :
    ExceptT ε (StateT (Console ε) n) Unit :=
  ExceptT.mk fun console => do
    match console with
    | ⟨reader, output, errors⟩ =>
      let (outcome, errors) ← f errors
      pure (outcome, ⟨reader, output, errors⟩)

def readByte [Monad n] (fetch : n (Except ε (List UInt8))) :
    ExceptT ε (StateT (Console ε) n) (Option Int) :=
  ExceptT.mk fun console => do
    match console with
    | ⟨reader, output, errors⟩ =>
      let (byte?, reader) ← reader.read fetch
      pure (.ok (byte?.map fun b => (b.toNat : Int)), ⟨reader, output, errors⟩)

def streams [Monad n] (system : ConsoleSystem ε n) :
    Streams (ExceptT ε (StateT (Console ε) n)) where
  read := readByte system.fetch
  out :=
    { write := fun bytes => onOutput (BlockWriter.write system.output bytes)
      flush? := some (onOutput (BlockWriter.flush system.output)) }
  log :=
    { write := fun bytes => onErrors (BlockWriter.write system.errors bytes)
      flush? := some (onErrors (BlockWriter.flush system.errors)) }

end Console

/-- The files of a process in memory. -/
structure Terminal where
  input : OpenFile
  transcript : OpenFile

namespace Terminal

/-- A terminal with input and an empty transcript. -/
def ofInput (bytes : List UInt8) : Terminal where
  input := .ofBytes bytes .reading
  transcript := .ofBytes [] .appending

def append : Offer SystemError (StateM Terminal) := fun offered h => modifyGet fun terminal =>
  match terminal with
  | ⟨input, transcript⟩ =>
    let (outcome, transcript) := (OpenFile.append offered h).run transcript
    (outcome, ⟨input, transcript⟩)

/-- The system of a process whose files are in memory. -/
def system : ConsoleSystem SystemError (StateM Terminal) where
  fetch := modifyGet fun terminal =>
    match terminal with
    | ⟨input, transcript⟩ =>
      let (outcome, input) := OpenFile.fetch.run input
      (outcome, ⟨input, transcript⟩)
  output := append
  errors := append

end Terminal

/-- The exit code of a process that ended, and its transcript. -/
structure ProcessReport where
  exitCode : Option ExitCode
  transcript : List UInt8
  deriving DecidableEq, Repr

/-- Runs a process in memory. An error that nothing catches is a failure; what is printed
about it does not belong to the transcript. -/
def runProcess (host : Host) (files : FileAccess Id) (env : Environment)
    (arguments : List String) (input : List UInt8) (budget : Nat) : ProcessReport :=
  let process : ExceptT SystemError (StateT (Console SystemError) (StateM Terminal)) _ :=
    CommandLine.run host (Console.streams Terminal.system) files.lift env arguments budget
  let ((outcome, _), terminal) := (process.run.run (.initial false)).run (.ofInput input)
  let exitCode :=
    match outcome with
    | .ok outcome => outcome.exitCode
    | .error _ => some .failure
  ⟨exitCode, terminal.transcript.contents.toList⟩

end Brainfuck
