import Brainfuck.Proofs.CellWidths
import Brainfuck.Proofs.StraightLine
import Brainfuck.Proofs.Structured

/-!
# Counting loops

A loop whose body is straight-line code, ends where it started and changes its starting cell
by one is a multiplication. The starting cell counts: it meets zero after as many rounds as
it is away from zero in the direction of the count, if need be by wrapping around, and every
other cell has then received its change once for each round.
-/
namespace Brainfuck

open Brainfuck.Bracket Brainfuck.Execution StraightLine

namespace Program

variable {p : Program} {i j : Nat}

theorem holds_slice (p : Program) (i j : Nat) : p.Holds i (p.slice i j) := by
  unfold Holds slice
  rw [List.drop_take]
  exact List.take_prefix _ _

theorem length_slice (h : j ≤ p.size) : (p.slice i j).length = j - i := by
  unfold slice
  rw [List.length_drop, List.length_take, length_toList, Nat.min_eq_left h]

end Program

namespace Tape

variable {w : Nat} {t t' : Tape w} {amount : Int → Int}

theorem Fits.of_shifted {bytes : List UInt8} (h : t.Fits bytes) (h' : Shifted 0 amount t t') :
    t'.Fits bytes := by
  intro k hk
  rw [h'.pointer, h'.length_eq, Int.add_zero]
  exact h k hk

theorem Shifted.pointer_eq (h : Shifted 0 amount t t') : t'.pointer = t.pointer := by
  have hpointer := h.pointer
  omega

theorem Shifted.current?_eq (h : Shifted 0 amount t t') :
    t'.current? = t.current?.map fun c => c + BitVec.ofInt w (amount 0) := by
  have hcell := h.cells t.pointer
  rw [Int.sub_self] at hcell
  rw [current?, h.pointer_eq, hcell]
  rfl

/-- Read as numbers, the cells receive their amounts with signed wrapping. -/
theorem Shifted.cellAt?_eq {move : Int} (h : Shifted move amount t t') (i : Nat) :
    t'.cellAt? i = (t.cellAt? i).map fun x => (x + amount (i - t.pointer)).bmod (2 ^ w) := by
  have hcell := h.cells i
  simp only [cellAt?, Int.toNat_natCast, hcell, Option.map_map, if_pos (Int.natCast_nonneg i)]
  congr 1
  funext c
  rw [Function.comp_apply, Function.comp_apply, BitVec.toInt_add, BitVec.toInt_ofInt,
    Int.add_bmod_bmod]

theorem Shifted.cellAt?_of_zero {move : Int} (h : Shifted move amount t t') {i : Nat}
    (hzero : amount (i - t.pointer) = 0) : t'.cellAt? i = t.cellAt? i := by
  have hcell := h.cells i
  rw [hzero] at hcell
  simp [cellAt?, hcell]

end Tape

section
variable {ε σ : Type} {w : Nat} {streams : Streams (Effect ε σ)} {p : Program}
variable {i j : Nat} {t : Tape w}

variable (streams) in
/-- One round: through a body of straight-line code, from the opening bracket to the closing
one. -/
theorem Bracket.Partners.exists_round (h : Partners p i j)
    (hbody : (p.slice (i + 1) j).all isPlain = true) (ht : t.Fits (p.slice (i + 1) j)) (s : σ) :
    ∃ n t', Reaches streams p (.scanning p) n ⟨⟨i + 1, t⟩, s⟩ ⟨⟨j, t'⟩, s⟩ ∧
      t.Shifted (drift (p.slice (i + 1) j)) (change (p.slice (i + 1) j)) t' := by
  obtain ⟨t', hobey, hshifted⟩ := Tape.exists_obeyAll hbody ht
  have hadvances := Machine.advances_of_obeyAll (.scanning p) (p.holds_slice (i + 1) j) hobey
  have hsize := Program.lt_size_of_instruction?_eq_some h.closing
  have hend : i + 1 + (p.slice (i + 1) j).length = j := by
    rw [Program.length_slice (Nat.le_of_lt hsize)]
    exact Nat.add_sub_cancel' h.lt
  rw [hend] at hadvances
  exact ⟨_, t', Reaches.of_advances hadvances s, hshifted⟩

/-- A counter that is a number of units away from zero, less than would wrap around. -/
theorem ofInt_counter_eq_zero_iff {d : Int} (hd : d = -1 ∨ d = 1) {m : Nat} (hm : m < 2 ^ w) :
    BitVec.ofInt w (-(m * d)) = 0 ↔ m = 0 := by
  have hzero : (0 : BitVec w) = BitVec.ofInt w 0 := by simp
  have hsmall : (2 ^ w : Int) ∣ m ↔ m = 0 := by
    have hdvd : ((2 ^ w : Nat) : Int) ∣ m ↔ m = 0 := by
      rw [Int.natCast_dvd_natCast]
      exact ⟨fun h => Nat.eq_zero_of_dvd_of_lt h hm, fun h => h ▸ dvd_zero _⟩
    rwa [Nat.cast_pow] at hdvd
  rw [hzero, ofInt_eq_iff_modEq, Int.modEq_zero_iff_dvd]
  rcases hd with rfl | rfl
  · rwa [Int.mul_neg, Int.mul_one, Int.neg_neg]
  · rwa [Int.mul_one, Int.dvd_neg]

variable (streams) in
/-- From either of its brackets the loop takes as many rounds as the counter is away from
zero. -/
theorem Bracket.Partners.exists_rounds (h : Partners p i j)
    (hbody : (p.slice (i + 1) j).all isPlain = true) (hdrift : drift (p.slice (i + 1) j) = 0)
    (hunit : change (p.slice (i + 1) j) 0 = -1 ∨ change (p.slice (i + 1) j) 0 = 1) {m : Nat}
    (hm : m < 2 ^ w) (ht : t.Fits (p.slice (i + 1) j))
    (hcounter : t.current? = some (BitVec.ofInt w (-(m * change (p.slice (i + 1) j) 0))))
    {pc : Nat} (hpc : Guards w p i j pc) (s : σ) :
    ∃ n t', Reaches streams p (.scanning p) n ⟨⟨pc, t⟩, s⟩ ⟨⟨j + 1, t'⟩, s⟩ ∧
      t.Shifted 0 (fun k => m * change (p.slice (i + 1) j) k) t' := by
  -- Behind the first round the loop goes on from its closing bracket, so the bracket varies.
  induction m generalizing t pc with
  | zero =>
      have hz : t.isZero = true := by
        rw [Tape.isZero, hcounter, (ofInt_counter_eq_zero_iff hunit hm).mpr rfl]
        rfl
      refine ⟨1, t, Tick.reaches (.advance (hpc.leave t hz)), ?_⟩
      simpa using Tape.shifted_zero t
  | succ m ih =>
      have hz : t.isZero = false := by
        have hne := (ofInt_counter_eq_zero_iff hunit hm).not.mpr (Nat.succ_ne_zero m)
        rw [Tape.isZero, hcounter]
        simpa using hne
      obtain ⟨n, t₁, hround, hfirst⟩ := h.exists_round streams hbody ht s
      rw [hdrift] at hfirst
      have hcounter₁ : t₁.current? =
          some (BitVec.ofInt w (-(m * change (p.slice (i + 1) j) 0))) := by
        rw [hfirst.current?_eq, hcounter, Option.map_some, ← BitVec.ofInt_add, Nat.cast_succ,
          Int.add_mul, Int.one_mul, Int.neg_add, Int.neg_add_cancel_right]
      obtain ⟨n', t', hrest, hlast⟩ :=
        ih (Nat.lt_of_succ_lt hm) (ht.of_shifted hfirst) hcounter₁ h.guards_closing
      refine ⟨1 + n + n', t', ?_, ?_⟩
      · exact ((Tick.reaches (.advance (hpc.enter t hz))).trans hround).trans hrest
      · have hall := hfirst.trans hlast
        simp only [Int.sub_zero, Int.add_zero] at hall
        simpa only [Nat.cast_succ, Int.add_mul, Int.one_mul, Int.add_comm] using hall

end

end Brainfuck
