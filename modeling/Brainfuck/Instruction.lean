/-!
# Instructions

The eight instructions and the octets that write them. Every other octet is inert, so a
program needs no separate syntax check and an octet offset is a program position.
-/
namespace Brainfuck

inductive Instruction where
  | right
  | left
  | increment
  | decrement
  | output
  | input
  | opening
  | closing
  deriving DecidableEq, Repr

namespace Instruction

/-- All instructions, in their customary order. -/
def all : List Instruction :=
  [.right, .left, .increment, .decrement, .output, .input, .opening, .closing]

def toByte : Instruction → UInt8
  | .right => 0x3E
  | .left => 0x3C
  | .increment => 0x2B
  | .decrement => 0x2D
  | .output => 0x2E
  | .input => 0x2C
  | .opening => 0x5B
  | .closing => 0x5D

/-- The instruction that an octet writes; `none` for an inert octet. -/
def ofByte? (b : UInt8) : Option Instruction :=
  if b = 0x3E then some .right
  else if b = 0x3C then some .left
  else if b = 0x2B then some .increment
  else if b = 0x2D then some .decrement
  else if b = 0x2E then some .output
  else if b = 0x2C then some .input
  else if b = 0x5B then some .opening
  else if b = 0x5D then some .closing
  else none

@[simp] theorem ofByte?_toByte (i : Instruction) : ofByte? i.toByte = some i := by
  cases i <;> rfl

theorem ofByte?_eq_some_iff {b : UInt8} {i : Instruction} :
    ofByte? b = some i ↔ b = i.toByte := by
  constructor
  · intro h
    unfold ofByte? at h
    grind [toByte]
  · rintro rfl
    exact ofByte?_toByte i

/-- The instruction octets are ASCII, so none of them occurs inside a longer character. -/
theorem toByte_lt (i : Instruction) : i.toByte < 0x80 := by
  cases i <;> decide

end Instruction

end Brainfuck
