import Brainfuck.Bracket.Strategy
import Brainfuck.Fault
import Brainfuck.Tape

/-!
# The machine

A machine is a program counter and a tape. One step looks at the octet under the counter
and says what has to happen: go on, write a byte, read a value, or stop. The step itself
touches no stream, so a machine can be driven by any kind of input and output, and two
machines can be compared step by step.

Every octet takes one step, inert octets included. A jump lands behind the partner of the
bracket that took it.
-/
namespace Brainfuck

open Brainfuck.Bracket (Matcher)

structure Machine (w : Nat) where
  pc : Nat
  tape : Tape w
  deriving DecidableEq, Repr

/-- How a program ends. -/
inductive Verdict where
  | completed
  | faulted (fault : Fault)
  deriving DecidableEq, Repr

/-- What one step asks for, and the machine afterwards. -/
inductive Action (w : Nat) where
  /-- Nothing is asked of the streams. -/
  | advance (next : Machine w)
  /-- One byte is to be written. -/
  | write (byte : UInt8) (next : Machine w)
  /-- One value is to be read and supplied to the machine. -/
  | read (next : Machine w)
  /-- The program has ended and the machine stays as it is. -/
  | stop (verdict : Verdict) (final : Machine w)
  deriving DecidableEq, Repr

namespace Machine

variable {w : Nat}

/-- The machine at the start of a program. -/
def initial (tape : Tape w) : Machine w := ⟨0, tape⟩

/-- The machine with a read value in the current cell. -/
def supply (value : Int) (machine : Machine w) : Machine w :=
  match machine with
  | ⟨pc, tape⟩ => ⟨pc, tape.store value⟩

/-- The effect of one instruction on a machine. -/
def perform (brackets : Matcher) (machine : Machine w) : Instruction → Action w
  | .right =>
    match machine.tape.moveRight? with
    | some tape => .advance ⟨machine.pc + 1, tape⟩
    | none => .stop (.faulted (.outOfBounds machine.pc .right)) machine
  | .left =>
    match machine.tape.moveLeft? with
    | some tape => .advance ⟨machine.pc + 1, tape⟩
    | none => .stop (.faulted (.outOfBounds machine.pc .left)) machine
  | .increment => .advance ⟨machine.pc + 1, machine.tape.increment⟩
  | .decrement => .advance ⟨machine.pc + 1, machine.tape.decrement⟩
  | .output => .write machine.tape.outputByte ⟨machine.pc + 1, machine.tape⟩
  | .input => .read ⟨machine.pc + 1, machine.tape⟩
  | .opening =>
    if machine.tape.isZero then
      match brackets.closing machine.pc with
      | some partner => .advance ⟨partner + 1, machine.tape⟩
      | none => .stop (.faulted (.missingClosing machine.pc)) machine
    else .advance ⟨machine.pc + 1, machine.tape⟩
  | .closing =>
    if machine.tape.isZero then .advance ⟨machine.pc + 1, machine.tape⟩
    else
      match brackets.opening machine.pc with
      | some partner => .advance ⟨partner + 1, machine.tape⟩
      | none => .stop (.faulted (.missingOpening machine.pc)) machine

def step (p : Program) (brackets : Matcher) (machine : Machine w) : Action w :=
  match p.bytes[machine.pc]? with
  | none => .stop .completed machine
  | some byte =>
    match Instruction.ofByte? byte with
    | none => .advance ⟨machine.pc + 1, machine.tape⟩
    | some instruction => machine.perform brackets instruction

theorem step_of_size_le {p : Program} {brackets : Matcher} {machine : Machine w}
    (h : p.size ≤ machine.pc) : machine.step p brackets = .stop .completed machine := by
  have h' : p.bytes[machine.pc]? = none := by simpa [Program.size] using h
  simp [step, h']

theorem step_of_instruction {p : Program} {brackets : Matcher} {machine : Machine w}
    {instruction : Instruction} (h : p.instruction? machine.pc = some instruction) :
    machine.step p brackets = machine.perform brackets instruction := by
  simp only [Program.instruction?, Option.bind_eq_some_iff] at h
  obtain ⟨byte, hbyte, hinstruction⟩ := h
  simp [step, hbyte, hinstruction]

theorem step_of_inert {p : Program} {brackets : Matcher} {machine : Machine w}
    (hpc : machine.pc < p.size) (h : p.instruction? machine.pc = none) :
    machine.step p brackets = .advance ⟨machine.pc + 1, machine.tape⟩ := by
  simp only [Program.size] at hpc
  simp only [Program.instruction?, Array.getElem?_eq_getElem hpc, Option.bind_some] at h
  simp [step, Array.getElem?_eq_getElem hpc, h]

end Machine

end Brainfuck
