import Brainfuck.Number.Shortest

/-!
# Tapes

A tape is a fixed number of cells of `w` bits and a data pointer. Cells are bit vectors:
increments wrap, and a stored integer keeps its low `w` bits. Read as numbers, cells are
signed. A move past either end is refused and changes nothing.

A tape of no cells is allowed. Its pointer stands on no cell, so the cell operations do
nothing and the right end is never met; execution always uses at least one cell.

Cells take memory, and the host has the last word on it. A tape is not made if its length
is negative, if its octets are too many to be counted exactly, or if the host does not
grant them.
-/
namespace Brainfuck

/-- What a host decides: whether so many octets of memory can be had. -/
structure Host where
  grants : Nat → Bool

/-- A host that grants up to a number of octets. -/
def Host.upTo (limit : Nat) : Host := ⟨fun octets => decide (octets ≤ limit)⟩

/-- Cells of `w` bits and the data pointer. -/
structure Tape (w : Nat) where
  cells : Array (BitVec w)
  pointer : Nat
  deriving DecidableEq, Repr

namespace Tape

variable {w : Nat}

/-- A tape of zero cells with the pointer on the first. -/
def blank (w length : Nat) : Tape w := ⟨Array.replicate length 0, 0⟩

/-- Why a tape is not made. -/
inductive AllocationError where
  /-- The length is negative, or its octets are more than can be counted. -/
  | invalidLength (length : Int)
  /-- The host does not grant the octets. -/
  | outOfMemory
  deriving DecidableEq, Repr

def AllocationError.message : AllocationError → String
  | .invalidLength length => s!"Invalid typed array length: {integerText length}"
  | .outOfMemory => "Array buffer allocation failed"

/-- The octets of a tape. -/
def octets (w length : Nat) : Nat := length * (w / 8)

def make (host : Host) (w : Nat) (length : Int) : Except AllocationError (Tape w) :=
  if length < 0 ∨ Binary64.maxSafeInteger < octets w length.toNat then
    .error (.invalidLength length)
  else if host.grants (octets w length.toNat) then .ok (blank w length.toNat)
  else .error .outOfMemory

def length (t : Tape w) : Nat := t.cells.size

/-- The tape with the pointer one cell to the right, unless it stands on the last cell. -/
def moveRight? (t : Tape w) : Option (Tape w) :=
  if t.pointer + 1 = t.length then none else some { t with pointer := t.pointer + 1 }

/-- The tape with the pointer one cell to the left, unless it stands on the first cell. -/
def moveLeft? (t : Tape w) : Option (Tape w) :=
  match t with
  | ⟨_, 0⟩ => none
  | ⟨cells, pointer + 1⟩ => some ⟨cells, pointer⟩

def modify (f : BitVec w → BitVec w) (t : Tape w) : Tape w :=
  match t with
  | ⟨cells, pointer⟩ => ⟨cells.modify pointer f, pointer⟩

/-- Adds one to the current cell, wrapping around. -/
def increment (t : Tape w) : Tape w := t.modify (· + 1)

/-- Subtracts one from the current cell, wrapping around. -/
def decrement (t : Tape w) : Tape w := t.modify (· - 1)

/-- Stores the low bits of an integer in the current cell. -/
def store (value : Int) (t : Tape w) : Tape w := t.modify fun _ => BitVec.ofInt w value

def current? (t : Tape w) : Option (BitVec w) := t.cells[t.pointer]?

/-- The signed value of the current cell. -/
def value? (t : Tape w) : Option Int := t.current?.map BitVec.toInt

def isZero (t : Tape w) : Bool := t.current? == some 0

/-- The signed value of the cell at an index; `none` outside the tape. -/
def cellAt? (t : Tape w) (index : Int) : Option Int :=
  if 0 ≤ index then t.cells[index.toNat]?.map BitVec.toInt else none

/-- The low eight bits of the current cell. -/
def outputByte (t : Tape w) : UInt8 :=
  match t.current? with
  | some cell => UInt8.ofNat cell.toNat
  | none => 0

theorem make_eq_ok_iff {host : Host} {length : Int} {t : Tape w} :
    make host w length = .ok t ↔
      0 ≤ length ∧ octets w length.toNat ≤ Binary64.maxSafeInteger ∧
        host.grants (octets w length.toNat) = true ∧ t = blank w length.toNat := by
  unfold make
  split
  next hinvalid =>
    simp only [reduceCtorEq, false_iff]
    omega
  next hvalid =>
    rw [not_or, Int.not_lt, Nat.not_lt] at hvalid
    split
    next hgranted => simp only [Except.ok.injEq, hvalid, hgranted, true_and, eq_comm]
    next hrefused => simp only [reduceCtorEq, hrefused, false_and, and_false]

/-- A tape that is made is blank. -/
theorem eq_blank_of_make {host : Host} {length : Int} {t : Tape w}
    (h : make host w length = .ok t) : t = blank w length.toNat :=
  (make_eq_ok_iff.mp h).2.2.2

@[simp] theorem length_blank (n : Nat) : (blank w n).length = n := by
  simp [blank, length]

@[simp] theorem length_modify (f : BitVec w → BitVec w) (t : Tape w) :
    (t.modify f).length = t.length := by
  simp [modify, length]

@[simp] theorem pointer_modify (f : BitVec w → BitVec w) (t : Tape w) :
    (t.modify f).pointer = t.pointer := rfl

/-- A change of the current cell leaves the other cells alone. -/
theorem getElem?_modify (f : BitVec w → BitVec w) (t : Tape w) (i : Nat) :
    (t.modify f).cells[i]? = if t.pointer = i then t.cells[i]?.map f else t.cells[i]? := by
  obtain ⟨cells, pointer⟩ := t
  simp [modify, Array.getElem?_modify]

/-- A change of the current cell shows in the current cell, if there is one. -/
theorem current?_modify (f : BitVec w → BitVec w) (t : Tape w) :
    (t.modify f).current? = t.current?.map f := by
  obtain ⟨cells, pointer⟩ := t
  simp [modify, current?, Array.getElem?_modify]

theorem moveRight?_eq_none_iff {t : Tape w} :
    t.moveRight? = none ↔ t.pointer + 1 = t.length := by
  simp [moveRight?]

theorem moveLeft?_eq_none_iff {t : Tape w} : t.moveLeft? = none ↔ t.pointer = 0 := by
  rcases t with ⟨cells, _ | pointer⟩ <;> simp [moveLeft?]

end Tape

end Brainfuck
