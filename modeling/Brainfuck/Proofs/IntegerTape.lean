import Brainfuck.Proofs.CellWidths
import Brainfuck.Proofs.Reachability

/-!
# Tapes and unbounded integers

A tape can be told apart from a tape of unbounded integers only by looking at a cell as a
whole. Suppose that the other tape stores what it is given and never wraps around. Then the
two pointers are always in the same place, the same moves are refused, the bytes that are
put out are the same, and a cell holds the one number of its range that is congruent to
the integer. Wrapping around at every step is the same as wrapping around once at the end.
-/
namespace Brainfuck

namespace Tape

/-- What can be asked of a tape. -/
inductive Operation where
  | moveRight
  | moveLeft
  | increment
  | decrement
  | store (value : Int)
  | outputByte
  deriving DecidableEq, Repr

/-- What a tape answers. -/
inductive Answer where
  | done
  | moved (allowed : Bool)
  | byte (value : Int)
  deriving DecidableEq, Repr

/-- Performs operations one after another and collects the answers. -/
def Operation.runAll {τ : Type} (perform : Operation → τ → Answer × τ) :
    List Operation → τ → List Answer × τ
  | [], t => ([], t)
  | operation :: rest, t =>
    match perform operation t with
    | (answer, t') =>
      match runAll perform rest t' with
      | (answers, last) => (answer :: answers, last)

/-- A move that has succeeded, or the tape as it was. -/
def Answer.ofMove {τ : Type} (t : τ) : Option τ → Answer × τ
  | some t' => (.moved true, t')
  | none => (.moved false, t)

variable {w : Nat}

def perform (operation : Operation) (t : Tape w) : Answer × Tape w :=
  match operation with
  | .moveRight => Answer.ofMove t t.moveRight?
  | .moveLeft => Answer.ofMove t t.moveLeft?
  | .increment => (.done, t.increment)
  | .decrement => (.done, t.decrement)
  | .store value => (.done, t.store value)
  | .outputByte => (.byte t.outputByte.toNat, t)

def performAll (operations : List Operation) (t : Tape w) : List Answer × Tape w :=
  Operation.runAll perform operations t

end Tape

/-- A tape of unbounded integers. Its pointer stands on one of its cells. -/
structure IntegerTape (length : Nat) where
  cells : Fin length → Int
  pointer : Fin length

namespace IntegerTape

open Tape (Operation Answer)

variable {length : Nat}

/-- A tape of zeros with the pointer on the first of them. -/
def zero (h : 0 < length) : IntegerTape length := ⟨fun _ => 0, ⟨0, h⟩⟩

def current (r : IntegerTape length) : Int := r.cells r.pointer

/-- The tape with another integer in the current cell. -/
def assign (value : Int) (r : IntegerTape length) : IntegerTape length :=
  ⟨Function.update r.cells r.pointer value, r.pointer⟩

theorem cells_assign (value : Int) (r : IntegerTape length) :
    (r.assign value).cells = Function.update r.cells r.pointer value := rfl

/-- The tape with the pointer in another place, if there is such a place. -/
def jump? (place : Nat) (r : IntegerTape length) : Option (IntegerTape length) :=
  if h : place < length then some ⟨r.cells, ⟨place, h⟩⟩ else none

def moveRight? (r : IntegerTape length) : Option (IntegerTape length) := r.jump? (r.pointer + 1)

def moveLeft? (r : IntegerTape length) : Option (IntegerTape length) :=
  if r.pointer.val = 0 then none else r.jump? (r.pointer - 1)

def perform (operation : Operation) (r : IntegerTape length) : Answer × IntegerTape length :=
  match operation with
  | .moveRight => Answer.ofMove r r.moveRight?
  | .moveLeft => Answer.ofMove r r.moveLeft?
  | .increment => (.done, r.assign (r.current + 1))
  | .decrement => (.done, r.assign (r.current - 1))
  | .store value => (.done, r.assign value)
  | .outputByte => (.byte (r.current % 256), r)

def performAll (operations : List Operation) (r : IntegerTape length) :
    List Answer × IntegerTape length :=
  Operation.runAll perform operations r

end IntegerTape

section
variable {w : Nat}

/-- A number is the signed value of the cell for an integer if it is congruent to the integer
and in the range of the cell. -/
theorem eq_toInt_ofInt_iff (hw : 0 < w) (z v : Int) :
    v = (BitVec.ofInt w z).toInt ↔
      -2 ^ (w - 1) ≤ v ∧ v ≤ 2 ^ (w - 1) - 1 ∧ v ≡ z [ZMOD 2 ^ w] := by
  constructor
  · rintro rfl
    exact ⟨BitVec.le_toInt _, BitVec.toInt_le, toInt_ofInt_modEq w z⟩
  · rintro ⟨hlow, hhigh, hmod⟩
    rw [← ofInt_eq_iff_modEq.mpr hmod]
    exact (BitVec.toInt_ofInt_eq_self hw hlow (by omega)).symm

/-- The low eight bits of the cell for an integer are the integer modulo 256. -/
theorem lowByte_ofInt (hw : 8 ≤ w) (z : Int) :
    ((UInt8.ofNat (BitVec.ofInt w z).toNat).toNat : Int) = z % 256 := by
  have hdvd : (256 : Int) ∣ 2 ^ w := pow_dvd_pow 2 hw
  have hpos : 0 ≤ z % ((2 ^ w : Nat) : Int) :=
    Int.emod_nonneg z (Int.natCast_ne_zero.mpr (Nat.two_pow_pos w).ne')
  rw [UInt8.toNat_ofNat', BitVec.toNat_ofInt, Int.natCast_emod, Int.toNat_of_nonneg hpos,
    Nat.cast_pow]
  exact Int.emod_emod_of_dvd z hdvd

end

namespace Tape

variable {w length : Nat} {t : Tape w} {r : IntegerTape length}

/-- Every cell of the tape is the cell for the integer in the same place. -/
structure Represents (t : Tape w) (r : IntegerTape length) : Prop where
  length_eq : t.length = length
  pointer_eq : t.pointer = r.pointer
  cells : ∀ i : Fin length, t.cells[i.val]? = some (BitVec.ofInt w (r.cells i))

theorem represents_blank (h : 0 < length) : (blank w length).Represents (.zero h) where
  length_eq := length_blank length
  pointer_eq := rfl
  cells i := by
    have hcell : (Array.replicate length (0 : BitVec w))[i.val]? = some 0 := by
      rw [Array.getElem?_replicate, if_pos i.isLt]
    exact hcell

theorem Represents.current? (h : t.Represents r) :
    t.current? = some (BitVec.ofInt w r.current) := by
  unfold Tape.current? IntegerTape.current
  rw [h.pointer_eq]
  exact h.cells r.pointer

/-- A change of the current cell that follows the integer. -/
theorem Represents.modify (h : t.Represents r) {f : BitVec w → BitVec w} {value : Int}
    (hf : f (BitVec.ofInt w r.current) = BitVec.ofInt w value) :
    (t.modify f).Represents (r.assign value) where
  length_eq := (length_modify f t).trans h.length_eq
  pointer_eq := h.pointer_eq
  cells i := by
    rw [getElem?_modify, h.cells i, h.pointer_eq, IntegerTape.cells_assign]
    by_cases hi : i = r.pointer
    · subst hi
      rw [if_pos rfl, Function.update_self, ← hf]
      rfl
    · rw [if_neg (fun heq => hi (Fin.ext heq.symm)), Function.update_of_ne hi]

theorem Represents.jump (h : t.Represents r) {place : Nat} (hplace : place < length) :
    Represents ⟨t.cells, place⟩ (⟨r.cells, ⟨place, hplace⟩⟩ : IntegerTape length) :=
  ⟨h.length_eq, rfl, h.cells⟩

theorem Represents.moveRight? (h : t.Represents r) :
    Option.Rel Represents t.moveRight? r.moveRight? := by
  have hinside := r.pointer.isLt
  unfold Tape.moveRight? IntegerTape.moveRight? IntegerTape.jump?
  rw [h.length_eq, h.pointer_eq]
  -- The tape looks for its last cell and the integers for a next one: the pointer is inside.
  by_cases hend : r.pointer + 1 = length
  · rw [if_pos hend, dif_neg (by omega)]
    exact .none
  · have hplace : r.pointer + 1 < length := by omega
    rw [if_neg hend, dif_pos hplace]
    exact .some (h.jump hplace)

theorem Represents.moveLeft? (h : t.Represents r) :
    Option.Rel Represents t.moveLeft? r.moveLeft? := by
  unfold IntegerTape.moveLeft? IntegerTape.jump?
  rcases Nat.eq_zero_or_pos r.pointer with hzero | hpos
  · rw [moveLeft?_eq_none_iff.mpr (h.pointer_eq.trans hzero), if_pos hzero]
    exact .none
  · have hmoved : t.moveLeft? = some ⟨t.cells, r.pointer - 1⟩ := by
      rw [moveLeft?_eq_some_iff, h.pointer_eq]
      exact ⟨hpos, rfl⟩
    have hplace : r.pointer.val - 1 < length := by omega
    rw [hmoved, if_neg hpos.ne', dif_pos hplace]
    exact .some (h.jump hplace)

theorem Represents.ofMove {moved : Option (Tape w)} {moved' : Option (IntegerTape length)}
    (h : t.Represents r) (hmoved : Option.Rel Represents moved moved') :
    (Answer.ofMove t moved).1 = (Answer.ofMove r moved').1 ∧
      (Answer.ofMove t moved).2.Represents (Answer.ofMove r moved').2 := by
  cases hmoved with
  | none => exact ⟨rfl, h⟩
  | some hmoved => exact ⟨rfl, hmoved⟩

theorem Represents.outputByte (hw : 8 ≤ w) (h : t.Represents r) :
    (t.outputByte.toNat : Int) = r.current % 256 := by
  unfold Tape.outputByte
  rw [h.current?]
  exact lowByte_ofInt hw r.current

/-- One operation: the same answer, and tapes that are related again. -/
theorem Represents.perform (hw : 8 ≤ w) (h : t.Represents r) (operation : Operation) :
    (t.perform operation).1 = (r.perform operation).1 ∧
      (t.perform operation).2.Represents (r.perform operation).2 := by
  cases operation with
  | moveRight => exact h.ofMove h.moveRight?
  | moveLeft => exact h.ofMove h.moveLeft?
  | increment =>
      refine ⟨rfl, h.modify ?_⟩
      rw [BitVec.ofInt_add]
      rfl
  | decrement =>
      refine ⟨rfl, h.modify ?_⟩
      rw [Int.sub_eq_add_neg, BitVec.ofInt_add, BitVec.ofInt_neg, BitVec.sub_eq_add_neg]
      rfl
  | store value => exact ⟨rfl, h.modify rfl⟩
  | outputByte => exact ⟨congrArg Answer.byte (h.outputByte hw), h⟩

theorem Represents.performAll (hw : 8 ≤ w) (h : t.Represents r) (operations : List Operation) :
    (t.performAll operations).1 = (r.performAll operations).1 ∧
      (t.performAll operations).2.Represents (r.performAll operations).2 := by
  induction operations generalizing t r with
  | nil => exact ⟨rfl, h⟩
  | cons operation rest ih =>
      obtain ⟨hanswer, hnext⟩ := h.perform hw operation
      obtain ⟨hanswers, hlast⟩ := ih hnext
      exact ⟨congrArg₂ List.cons hanswer hanswers, hlast⟩

/-- A cell holds the number of its range that is congruent to the integer, and no other. -/
theorem Represents.exists_cellAt? (hw : 0 < w) (h : t.Represents r) (i : Fin length) :
    ∃ v, t.cellAt? i.val = some v ∧ ∀ z,
      z = v ↔ -2 ^ (w - 1) ≤ z ∧ z ≤ 2 ^ (w - 1) - 1 ∧ z ≡ r.cells i [ZMOD 2 ^ w] := by
  refine ⟨(BitVec.ofInt w (r.cells i)).toInt, ?_, eq_toInt_ofInt_iff hw (r.cells i)⟩
  simp [cellAt?, h.cells i]

/-- A refused move changes nothing. -/
theorem perform_of_refused {operation : Operation}
    (h : (t.perform operation).1 = .moved false) : (t.perform operation).2 = t := by
  have hmove : ∀ {moved : Option (Tape w)}, (Answer.ofMove t moved).1 = .moved false →
      (Answer.ofMove t moved).2 = t := by
    rintro (_ | t') hrefused
    · rfl
    · cases hrefused
  cases operation with
  | moveRight => exact hmove h
  | moveLeft => exact hmove h
  | increment => cases h
  | decrement => cases h
  | store value => cases h
  | outputByte => cases h

theorem cellAt?_modify_of_ne (f : BitVec w → BitVec w) {i : Int} (hi : i ≠ t.pointer) :
    (t.modify f).cellAt? i = t.cellAt? i := by
  unfold cellAt?
  split
  · rw [getElem?_modify, if_neg (by omega)]
  · rfl

/-- No operation changes a cell that is not under the pointer. -/
theorem cellAt?_perform_of_ne (operation : Operation) {i : Int} (hi : i ≠ t.pointer) :
    (t.perform operation).2.cellAt? i = t.cellAt? i := by
  have hmove : ∀ {moved : Option (Tape w)}, (∀ t', moved = some t' → t'.cells = t.cells) →
      (Answer.ofMove t moved).2.cellAt? i = t.cellAt? i := by
    rintro (_ | t') hcells
    · rfl
    · simp only [Answer.ofMove, cellAt?, hcells t' rfl]
  cases operation with
  | moveRight => exact hmove fun t' h => (moveRight?_eq_some_iff.mp h).2 ▸ rfl
  | moveLeft => exact hmove fun t' h => (moveLeft?_eq_some_iff.mp h).2 ▸ rfl
  | increment => exact cellAt?_modify_of_ne _ hi
  | decrement => exact cellAt?_modify_of_ne _ hi
  | store value => exact cellAt?_modify_of_ne _ hi
  | outputByte => rfl

end Tape

/-- A tape that is made does what a tape of unbounded integers does. After any operations, the
answers to all of them and the two pointers are the same, a cell holds the one number of its
range that is congruent to the integer in its place, and the byte that would be put out is the
current integer modulo 256. No operation touches a cell away from the pointer, and a refused
move touches nothing. -/
theorem tape_follows_integers {host : Host} {width : CellWidth} {length : Nat}
    (hlength : 0 < length) {t : Tape width.bits} (hmake : Tape.make host width.bits length = .ok t)
    (operations : List Tape.Operation) :
    (t.performAll operations).1 = ((IntegerTape.zero hlength).performAll operations).1 ∧
    (t.performAll operations).2.pointer =
      ((IntegerTape.zero hlength).performAll operations).2.pointer ∧
    (∀ i : Fin length, ∃ v, (t.performAll operations).2.cellAt? i.val = some v ∧ ∀ z,
      z = v ↔ -2 ^ (width.bits - 1) ≤ z ∧ z ≤ 2 ^ (width.bits - 1) - 1 ∧
        z ≡ ((IntegerTape.zero hlength).performAll operations).2.cells i
          [ZMOD 2 ^ width.bits]) ∧
    ((t.performAll operations).2.outputByte.toNat : Int) =
      ((IntegerTape.zero hlength).performAll operations).2.current % 256 ∧
    ∀ operation,
      (((t.performAll operations).2.perform operation).1 = .moved false →
        ((t.performAll operations).2.perform operation).2 = (t.performAll operations).2) ∧
      ∀ i : Int, i ≠ (t.performAll operations).2.pointer →
        ((t.performAll operations).2.perform operation).2.cellAt? i =
          (t.performAll operations).2.cellAt? i := by
  obtain rfl : t = .blank width.bits length := Tape.eq_blank_of_make hmake
  have hwidth := width.eight_le_bits
  obtain ⟨hanswers, hlast⟩ :=
    (Tape.represents_blank hlength).performAll hwidth operations
  refine ⟨hanswers, hlast.pointer_eq, ?_, hlast.outputByte hwidth, ?_⟩
  · exact hlast.exists_cellAt? (by omega)
  · intro operation
    exact ⟨Tape.perform_of_refused, fun i hi => Tape.cellAt?_perform_of_ne operation hi⟩

/-- Integers far outside the range of a cell, moves past both ends, and a byte of a negative
number. The refused move and the store each leave the other cell alone. -/
theorem two_cells_follow_integers :
    0 < 2 ∧ ∃ t : Tape 8, Tape.make (.upTo 1024) 8 2 = .ok t ∧
      (t.performAll [.store (-2 ^ 52 - 1), .increment, .decrement, .outputByte, .moveLeft,
          .moveRight, .store 300, .moveRight, .outputByte]).1 =
        [.done, .done, .done, .byte 255, .moved false, .moved true, .done, .moved false,
          .byte 44] ∧
      (t.perform .moveLeft).1 = .moved false ∧ (t.perform .moveLeft).2 = t ∧
      (t.perform (.store 300)).2.cellAt? 1 = t.cellAt? 1 := by
  have hmake : Tape.make (.upTo 1024) CellWidth.bits8.bits (2 : Nat) =
      .ok (.blank CellWidth.bits8.bits 2) := rfl
  have hrun := tape_follows_integers (show 0 < 2 by decide) hmake
  obtain ⟨_, _, _, _, hstart⟩ := hrun []
  have hrefused : ((Tape.blank 8 2).perform .moveLeft).1 = .moved false := by decide
  refine ⟨by decide, _, hmake, (hrun _).1.trans (by decide), hrefused, ?_, ?_⟩
  · exact (hstart .moveLeft).1 hrefused
  · exact (hstart (.store 300)).2 1 (by decide)

end Brainfuck
