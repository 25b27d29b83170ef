import Brainfuck.Number.Binary64

/-!
# Writing in batches

A block writer collects chunks and hands them to the system as one batch, when it is
flushed, when enough bytes are pending, or, if it is line buffered, when a chunk holds a
newline. The system may accept only a part of what it is offered, but at least one byte;
the rest is offered again until nothing is left. If the system fails, what is left of the
batch is dropped.

The number of accepted bytes is positive and at most the number offered by its type, so
the loop that offers the rest again ends because the rest gets shorter.
-/
namespace Brainfuck

/-- How many of the offered bytes the system has accepted. -/
abbrev Accepted (offered : List UInt8) := { k : Nat // 0 < k ∧ k ≤ offered.length }

abbrev Offer (ε : Type) (n : Type → Type) :=
  (offered : List UInt8) → offered ≠ [] → n (Except ε (Accepted offered))

/-- The acceptance of everything offered. -/
def Accepted.everything {offered : List UInt8} (h : offered ≠ []) : Accepted offered :=
  ⟨offered.length, List.length_pos_iff.mpr h, Nat.le_refl _⟩

/-- Offers bytes until all are accepted or the system fails. -/
def Offer.all {ε : Type} {n : Type → Type} [Monad n] (offer : Offer ε n) (bytes : List UInt8) :
    n (Except ε Unit) :=
  if h : bytes = [] then pure (.ok ())
  else do
    match ← offer bytes h with
    | .ok accepted => Offer.all offer (bytes.drop accepted.val)
    | .error error => pure (.error error)
termination_by bytes.length
decreasing_by
  have := accepted.property
  simp only [List.length_drop]
  omega

/-- The chunks not yet handed over, their total length, and when to hand over: at a
newline, and when the high-water mark is reached, if there is one. -/
structure BlockWriter where
  pending : Array (List UInt8) := #[]
  pendingBytes : Nat := 0
  lineBuffered : Bool := false
  highWaterMark : Option Int := some 8192
  deriving DecidableEq, Repr

namespace BlockWriter

variable {ε : Type} {n : Type → Type} [Monad n]

def batch (writer : BlockWriter) : List UInt8 := writer.pending.toList.flatten

/-- Hands the pending bytes to the system. Nothing is pending afterwards. -/
def flush (offer : Offer ε n) (writer : BlockWriter) : n (Except ε Unit × BlockWriter) :=
  if writer.pendingBytes = 0 then pure (.ok (), writer)
  else do
    let outcome ← offer.all writer.batch
    pure (outcome, { writer with pending := #[], pendingBytes := 0 })

def add (bytes : List UInt8) (writer : BlockWriter) : BlockWriter :=
  match writer with
  | ⟨pending, pendingBytes, lineBuffered, highWaterMark⟩ =>
    ⟨pending.push bytes, pendingBytes + bytes.length, lineBuffered, highWaterMark⟩

/-- Whether a writer hands over after a chunk has been added. -/
def isDue (writer : BlockWriter) (bytes : List UInt8) : Bool :=
  writer.highWaterMark.any (· ≤ (writer.pendingBytes : Int)) ||
    (writer.lineBuffered && bytes.contains 10)

/-- The high-water mark that a number sets: the least integer that is not below it. NaN
and infinity are never reached, and negative infinity always is. -/
def markOfNumber : Binary64 → Option Int
  | .nan => none
  | .infinity negative => if negative then some 0 else none
  | .finite negative ordinal => (Binary64.finite negative ordinal).ceil?

def write (offer : Offer ε n) (bytes : List UInt8) (writer : BlockWriter) :
    n (Except ε Unit × BlockWriter) :=
  let writer := writer.add bytes
  if writer.isDue bytes then writer.flush offer else pure (.ok (), writer)

end BlockWriter

end Brainfuck
