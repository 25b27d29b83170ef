import Brainfuck.Instruction
import Brainfuck.Text.Utf8

/-!
# Programs

A program is any sequence of octets, and a position in it is an octet offset. A text is
executed as its UTF-8 octets.
-/
namespace Brainfuck

/-- A program: its octets, inert ones included. -/
structure Program where
  bytes : Array UInt8
  deriving DecidableEq, Repr

namespace Program

def ofBytes (bytes : List UInt8) : Program := ⟨bytes.toArray⟩

/-- The program that a text spells. -/
def ofText (text : String) : Program := ofBytes (Utf8.encode text)

def size (p : Program) : Nat := p.bytes.size

def toList (p : Program) : List UInt8 := p.bytes.toList

/-- The instruction at a position; `none` at an inert octet and past the end. -/
def instruction? (p : Program) (pc : Nat) : Option Instruction :=
  p.bytes[pc]?.bind Instruction.ofByte?

@[simp] theorem toList_ofBytes (bytes : List UInt8) : (ofBytes bytes).toList = bytes := rfl

@[simp] theorem size_ofBytes (bytes : List UInt8) : (ofBytes bytes).size = bytes.length := rfl

@[simp] theorem length_toList (p : Program) : p.toList.length = p.size := by
  simp [toList, size]

theorem instruction?_eq (p : Program) (pc : Nat) :
    p.instruction? pc = p.toList[pc]?.bind Instruction.ofByte? := by
  simp [instruction?, toList]

theorem instruction?_eq_none_of_size_le {p : Program} {pc : Nat} (h : p.size ≤ pc) :
    p.instruction? pc = none := by
  simp [instruction?, size] at *
  simp [h]

theorem lt_size_of_instruction?_eq_some {p : Program} {pc : Nat} {i : Instruction}
    (h : p.instruction? pc = some i) : pc < p.size := by
  by_cases hpc : pc < p.size
  · exact hpc
  · rw [instruction?_eq_none_of_size_le (Nat.le_of_not_lt hpc)] at h
    cases h

end Program

end Brainfuck
