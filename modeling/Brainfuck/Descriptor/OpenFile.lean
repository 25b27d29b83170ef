import Brainfuck.Descriptor.Reader
import Brainfuck.Descriptor.SystemError
import Brainfuck.Descriptor.Writer

/-!
# Open files in memory

A file with a read offset and a mode of access, as a descriptor presents it: reads return
what lies behind the offset, up to a block, and writes append. A read from a file that is
open for appending only, a write to one that is open for reading only, and a read from a
directory fail.
-/
namespace Brainfuck

/-- What an open file can be used for. -/
inductive Access where
  | reading
  | appending
  | listing
  deriving DecidableEq, Repr

/-- The contents of a file, the offset of the next read, and the mode of access. -/
structure OpenFile where
  contents : Array UInt8 := #[]
  offset : Nat := 0
  access : Access := .reading

namespace OpenFile

def ofBytes (bytes : List UInt8) (access : Access) : OpenFile :=
  { contents := bytes.toArray, access }

def extend (bytes : List UInt8) (file : OpenFile) : OpenFile :=
  match file with
  | ⟨contents, offset, access⟩ => ⟨contents.appendList bytes, offset, access⟩

def fetch : StateM OpenFile (Except SystemError (List UInt8)) := do
  let file ← get
  match file.access with
  | .reading =>
    let block := file.contents.extract file.offset (file.offset + BlockReader.blockSize)
    set { file with offset := file.offset + block.size }
    return .ok block.toList
  | .appending => return .error { errno := .badDescriptor, call := "read" }
  | .listing => return .error { errno := .isDirectory, call := "read" }

/-- Appends all that is offered. -/
def append : Offer SystemError (StateM OpenFile) := fun offered h => do
  let file ← get
  match file.access with
  | .appending =>
    set (file.extend offered)
    return .ok (Accepted.everything h)
  | .reading | .listing => return .error { errno := .badDescriptor, call := "write" }

end OpenFile

end Brainfuck
