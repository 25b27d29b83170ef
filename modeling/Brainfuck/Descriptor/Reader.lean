/-!
# Reading in blocks

A block reader fetches a block of bytes from the system and hands them out one by one. An
empty block is the end of input and a failed fetch ends the input too. After either, the
system is never asked again, even if there would be more to read by then.

The system is any computation that returns a block or an error, so the reader works alike
over a file in memory and over a descriptor of the process.
-/
namespace Brainfuck

/-- The unread part of the last block, whether the input has ended, and the error that
ended it. -/
structure BlockReader (ε : Type) where
  block : List UInt8 := []
  exhausted : Bool := false
  lastError : Option ε := none
  deriving DecidableEq, Repr

namespace BlockReader

/-- The number of bytes asked for at once. -/
def blockSize : Nat := 4096

/-- The next byte, if any, and the reader behind it. -/
def read {n : Type → Type} [Monad n] {ε : Type} (fetch : n (Except ε (List UInt8)))
    (reader : BlockReader ε) : n (Option UInt8 × BlockReader ε) :=
  match reader.block with
  | byte :: block => pure (some byte, { reader with block })
  | [] =>
    if reader.exhausted then pure (none, reader)
    else do
      match ← fetch with
      | .ok (byte :: block) => pure (some byte, { reader with block })
      | .ok [] => pure (none, { reader with exhausted := true })
      | .error error => pure (none, { reader with exhausted := true, lastError := some error })

end BlockReader

end Brainfuck
