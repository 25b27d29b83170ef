import Brainfuck.Proofs.Nesting
import Brainfuck.Proofs.Reachability

/-!
# Straight-line code

Octets other than brackets and stream commands act on the tape alone, and one after
another. A run through such octets is therefore a function of the tape: it moves the
pointer by the drift of the octets and changes the cell at each offset from where the
pointer stood by a fixed amount. The function is partial because a move off the tape is
refused, and it is defined where the way of the pointer stays on the tape.
-/
namespace Brainfuck

open Brainfuck.Bracket

namespace StraightLine

/-- Whether an octet is neither a bracket nor a command for the streams. -/
def isPlain (b : UInt8) : Bool :=
  match Instruction.ofByte? b with
  | some .output | some .input | some .opening | some .closing => false
  | _ => true

/-- How far an octet moves the pointer to the right. -/
def stride (b : UInt8) : Int :=
  match Instruction.ofByte? b with
  | some .right => 1
  | some .left => -1
  | _ => 0

/-- What an octet adds to the current cell. -/
def gain (b : UInt8) : Int :=
  match Instruction.ofByte? b with
  | some .increment => 1
  | some .decrement => -1
  | _ => 0

/-- How far octets move the pointer to the right, taken together. -/
def drift : List UInt8 → Int
  | [] => 0
  | b :: rest => stride b + drift rest

/-- What octets add to the cell at an offset from where the pointer stands before them. -/
def change : List UInt8 → Int → Int
  | [], _ => 0
  | b :: rest, k => (if k = 0 then gain b else 0) + change rest (k - stride b)

end StraightLine

open StraightLine

namespace Tape

variable {w : Nat}

/-- The tape behind one octet of straight-line code, unless it moves off the tape. -/
def obey (t : Tape w) (b : UInt8) : Option (Tape w) :=
  match Instruction.ofByte? b with
  | some .right => t.moveRight?
  | some .left => t.moveLeft?
  | some .increment => some t.increment
  | some .decrement => some t.decrement
  | some .output | some .input | some .opening | some .closing => none
  | none => some t

/-- The tape behind straight-line code. -/
def obeyAll (t : Tape w) (bytes : List UInt8) : Option (Tape w) := bytes.foldlM obey t

@[simp] theorem obeyAll_nil (t : Tape w) : t.obeyAll [] = some t := rfl

theorem obeyAll_cons (t : Tape w) (b : UInt8) (rest : List UInt8) :
    t.obeyAll (b :: rest) = (t.obey b).bind fun t' => t'.obeyAll rest := by
  simp [obeyAll]

/-- Taking one away is adding minus one. -/
theorem decrement_eq (t : Tape w) : t.decrement = t.modify fun c => c + BitVec.ofInt w (-1) := by
  unfold decrement
  simp only [BitVec.sub_eq_add_neg, BitVec.ofInt_neg]
  rfl

/-- The way of the pointer through octets stays on the tape. -/
def Fits (t : Tape w) (bytes : List UInt8) : Prop :=
  ∀ k ≤ bytes.length,
    0 ≤ t.pointer + drift (bytes.take k) ∧ t.pointer + drift (bytes.take k) < t.length

instance (t : Tape w) (bytes : List UInt8) : Decidable (t.Fits bytes) :=
  inferInstanceAs (Decidable (∀ k ≤ bytes.length, _ ∧ _))

/-- The second tape is the first one with the pointer moved and with an amount added to the
cell at each offset from the pointer of the first. -/
structure Shifted (move : Int) (amount : Int → Int) (t t' : Tape w) : Prop where
  pointer : (t'.pointer : Int) = t.pointer + move
  cells : ∀ i : Nat, t'.cells[i]? =
    t.cells[i]?.map fun c => c + BitVec.ofInt w (amount (i - t.pointer))

section
variable {t t' t'' : Tape w} {move move' : Int} {amount amount' : Int → Int}

theorem shifted_zero (t : Tape w) : Shifted 0 (fun _ => 0) t t where
  pointer := (Int.add_zero _).symm
  cells i := by simp

theorem Shifted.trans (h : Shifted move amount t t') (h' : Shifted move' amount' t' t'') :
    Shifted (move + move') (fun k => amount k + amount' (k - move)) t t'' where
  pointer := by
    rw [h'.pointer, h.pointer, Int.add_assoc]
  cells i := by
    rw [h'.cells, h.cells, Option.map_map, h.pointer]
    congr 1
    funext c
    rw [Function.comp_apply, BitVec.add_assoc, ← BitVec.ofInt_add, Int.sub_sub]

theorem Shifted.length_eq (h : Shifted move amount t t') : t'.length = t.length := by
  have hle := h.cells t.length
  have hge := h.cells t'.length
  rw [Array.getElem?_eq_none (Nat.le_refl t.length), Option.map_none,
    Array.getElem?_eq_none_iff] at hle
  rw [Array.getElem?_eq_none (Nat.le_refl t'.length), eq_comm, Option.map_eq_none_iff,
    Array.getElem?_eq_none_iff] at hge
  exact Nat.le_antisymm hle hge

/-- A change of the current cell by an amount. -/
theorem shifted_modify (t : Tape w) (z : Int) :
    Shifted 0 (fun k => if k = 0 then z else 0) t (t.modify fun c => c + BitVec.ofInt w z) where
  pointer := (Int.add_zero _).symm
  cells i := by
    rw [getElem?_modify]
    by_cases hi : t.pointer = i
    · simp [hi]
    · have hne : (i : Int) - t.pointer ≠ 0 := by omega
      simp [hi, hne]

/-- A move of the pointer. -/
theorem shifted_move (cells : Array (BitVec w)) {i j : Nat} (h : (j : Int) = i + move) :
    Shifted move (fun _ => 0) ⟨cells, i⟩ ⟨cells, j⟩ where
  pointer := h
  cells k := by simp

end

section
variable {t : Tape w} {b : UInt8} {bytes rest : List UInt8}

theorem Fits.next (h : t.Fits (b :: rest)) :
    0 ≤ t.pointer + stride b ∧ t.pointer + stride b < t.length := by
  have hnext := h 1 (Nat.le_add_left 1 _)
  simpa [drift] using hnext

theorem Fits.tail {t' : Tape w} {amount : Int → Int} (h : t.Fits (b :: rest))
    (ht' : Shifted (stride b) amount t t') : t'.Fits rest := by
  intro k hk
  have hlater := h (k + 1) (Nat.succ_le_succ hk)
  rw [List.take_succ_cons, drift, ← Int.add_assoc] at hlater
  rwa [ht'.pointer, ht'.length_eq]

/-- A single octet moves the pointer by its stride and adds its gain to the current cell. -/
theorem exists_obey (hb : isPlain b = true)
    (hmove : 0 ≤ t.pointer + stride b ∧ t.pointer + stride b < t.length) :
    ∃ t', t.obey b = some t' ∧
      Shifted (stride b) (fun k => if k = 0 then gain b else 0) t t' := by
  have hstill : Shifted 0 (fun k => if k = 0 then 0 else 0) t t := by
    simpa using shifted_zero t
  unfold isPlain at hb
  unfold stride at hmove ⊢
  unfold obey gain
  cases hi : Instruction.ofByte? b with
  | none => exact ⟨t, rfl, hstill⟩
  | some i =>
      rw [hi] at hb hmove
      cases i with
      | right =>
          dsimp only at hmove
          have hne : t.pointer + 1 ≠ t.length := by omega
          refine ⟨⟨t.cells, t.pointer + 1⟩, moveRight?_eq_some_iff.mpr ⟨hne, rfl⟩, ?_⟩
          simpa using shifted_move t.cells (Nat.cast_add_one t.pointer)
      | left =>
          dsimp only at hmove
          have hpos : 0 < t.pointer := by omega
          refine ⟨⟨t.cells, t.pointer - 1⟩, moveLeft?_eq_some_iff.mpr ⟨hpos, rfl⟩, ?_⟩
          have hback : ((t.pointer - 1 : Nat) : Int) = t.pointer + -1 := by omega
          simpa using shifted_move t.cells hback
      | increment => exact ⟨t.increment, rfl, shifted_modify t 1⟩
      | decrement =>
          refine ⟨t.decrement, rfl, ?_⟩
          rw [decrement_eq]
          exact shifted_modify t (-1)
      | output => cases hb
      | input => cases hb
      | opening => cases hb
      | closing => cases hb

/-- Straight-line code whose way stays on the tape moves the pointer by its drift and adds
to each cell what it adds at the offset of the cell. -/
theorem exists_obeyAll (hbytes : bytes.all isPlain = true) (ht : t.Fits bytes) :
    ∃ t', t.obeyAll bytes = some t' ∧ Shifted (drift bytes) (change bytes) t t' := by
  induction bytes generalizing t with
  | nil => exact ⟨t, rfl, shifted_zero t⟩
  | cons b rest ih =>
      rw [List.all_cons, Bool.and_eq_true] at hbytes
      obtain ⟨t₁, hobey, hfirst⟩ := exists_obey hbytes.1 ht.next
      obtain ⟨t', hrest, hlast⟩ := ih hbytes.2 (ht.tail hfirst)
      refine ⟨t', ?_, hfirst.trans hlast⟩
      rw [obeyAll_cons, hobey]
      exact hrest

end

end Tape

section
variable {w : Nat} {p : Program} {brackets : Matcher} {t t' : Tape w} {i : Nat}

theorem Machine.step_of_obey {b : UInt8} (hb : p.toList[i]? = some b) (h : t.obey b = some t') :
    (⟨i, t⟩ : Machine w).step p brackets = .advance ⟨i + 1, t'⟩ := by
  have hinstruction : p.instruction? i = Instruction.ofByte? b := by
    rw [p.instruction?_eq, hb, Option.bind_some]
  have hpc : i < p.size := by
    rw [← p.length_toList]
    exact (List.getElem?_eq_some_iff.mp hb).1
  apply Step.step_eq
  unfold Tape.obey at h
  cases hi : Instruction.ofByte? b with
  | none =>
      obtain rfl : t = t' := by simpa [hi] using h
      exact .inert hpc (hinstruction.trans hi)
  | some instruction =>
      rw [hi] at h hinstruction
      cases instruction with
      | right => exact .right hinstruction h
      | left => exact .left hinstruction h
      | increment =>
          obtain rfl := Option.some.inj h
          exact .increment hinstruction
      | decrement =>
          obtain rfl := Option.some.inj h
          exact .decrement hinstruction
      | output => cases h
      | input => cases h
      | opening => cases h
      | closing => cases h

/-- A machine goes through straight-line code without asking anything of the streams, one
step for each octet, and leaves the tape behind that the code leaves. -/
theorem Machine.advances_of_obeyAll (brackets : Matcher) {bytes : List UInt8}
    (hp : p.Holds i bytes) (h : t.obeyAll bytes = some t') :
    (⟨i, t⟩ : Machine w).Advances p brackets bytes.length ⟨i + bytes.length, t'⟩ := by
  induction bytes generalizing i t with
  | nil =>
      obtain rfl := Option.some.inj h
      rfl
  | cons b rest ih =>
      rw [Tape.obeyAll_cons, Option.bind_eq_some_iff] at h
      obtain ⟨t₁, hobey, hrest⟩ := h
      have hend : i + (b :: rest).length = i + 1 + rest.length := by
        rw [List.length_cons]
        omega
      rw [hend]
      exact ⟨⟨i + 1, t₁⟩, step_of_obey hp.head hobey, ih hp.tail hrest⟩

end

end Brainfuck
