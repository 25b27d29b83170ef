import Brainfuck.Stream.Basic
import Brainfuck.Text.Utf8

/-!
# Streams in memory

An input buffer hands out its bytes one by one, and then only the end of input. An output
buffer keeps all that was written to it, and its text is decoded from all of it at once,
so a character may be cut anywhere between two writes.
-/
namespace Brainfuck

structure InputBuffer where
  unread : List UInt8
  deriving DecidableEq, Repr

namespace InputBuffer

/-- The next byte, if any, and the buffer behind it. -/
def read : InputBuffer → Option UInt8 × InputBuffer
  | ⟨[]⟩ => (none, ⟨[]⟩)
  | ⟨b :: unread⟩ => (some b, ⟨unread⟩)

def remaining (buffer : InputBuffer) : Nat := buffer.unread.length

end InputBuffer

structure OutputBuffer where
  contents : Array UInt8
  deriving DecidableEq, Repr

namespace OutputBuffer

def empty : OutputBuffer := ⟨#[]⟩

def write (bytes : List UInt8) (buffer : OutputBuffer) : OutputBuffer :=
  match buffer with
  | ⟨contents⟩ => ⟨contents.appendList bytes⟩

def bytes (buffer : OutputBuffer) : List UInt8 := buffer.contents.toList

def text (buffer : OutputBuffer) : String := Utf8.decode buffer.bytes

@[simp] theorem bytes_empty : empty.bytes = [] := rfl

@[simp] theorem bytes_write (bs : List UInt8) (buffer : OutputBuffer) :
    (buffer.write bs).bytes = buffer.bytes ++ bs := by
  simp [write, bytes]

end OutputBuffer

/-- The three streams of an execution, in memory. -/
structure Memory where
  input : InputBuffer
  output : OutputBuffer := .empty
  errors : OutputBuffer := .empty
  deriving DecidableEq, Repr

namespace Memory

def ofInput (bytes : List UInt8) : Memory := { input := ⟨bytes⟩ }

/-- The streams over a memory. They hold nothing back, so there is nothing to flush. -/
def streams : Streams (StateM Memory) where
  read := modifyGet fun memory =>
    match memory with
    | ⟨input, output, errors⟩ =>
      let (byte?, input) := input.read
      (byte?.map fun b => (b.toNat : Int), ⟨input, output, errors⟩)
  out :=
    { write := fun bytes => modify fun memory =>
        match memory with
        | ⟨input, output, errors⟩ => ⟨input, output.write bytes, errors⟩
      flush? := none }
  log :=
    { write := fun bytes => modify fun memory =>
        match memory with
        | ⟨input, output, errors⟩ => ⟨input, output, errors.write bytes⟩
      flush? := none }

theorem streams_out_write (bytes : List UInt8) (memory : Memory) :
    streams.out.write bytes memory =
      ((), { memory with output := memory.output.write bytes }) := rfl

theorem streams_log_write (bytes : List UInt8) (memory : Memory) :
    streams.log.write bytes memory =
      ((), { memory with errors := memory.errors.write bytes }) := rfl

theorem streams_read (memory : Memory) :
    streams.read memory = (memory.input.read.1.map fun b => (b.toNat : Int),
      { memory with input := memory.input.read.2 }) := rfl

end Memory

end Brainfuck
