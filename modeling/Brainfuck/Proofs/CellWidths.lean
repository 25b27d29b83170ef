import Brainfuck.Proofs.Lockstep
import Brainfuck.Proofs.Reachability
import Mathlib.Data.Int.ModEq

/-!
# The width of the cells

Cells of different widths hold different numbers, but numbers that are congruent modulo the
number of values of the narrower cell. Increments, decrements and stores keep them so, and
the low eight bits are the same at every width. A program meets the width of its cells in
one place: a bracket asks whether the current cell is zero, and a wide cell may be nonzero
while its low bits are all zero. Two runs that differ in the width are in lockstep up to the
first such bracket, where they part.
-/
namespace Brainfuck

open Brainfuck.Bracket

section
variable {w v : Nat} {c : BitVec w} {c' : BitVec v}

theorem bmod_modEq (z : Int) (w : Nat) : z.bmod (2 ^ w) ≡ z [ZMOD 2 ^ w] := by
  have hmod : z.bmod (2 ^ w) % ((2 ^ w : Nat) : Int) = z % ((2 ^ w : Nat) : Int) := Int.bmod_emod
  rwa [Nat.cast_pow] at hmod

/-- A cell holds an integer modulo the number of its values. -/
theorem toInt_ofInt_modEq (w : Nat) (z : Int) : (BitVec.ofInt w z).toInt ≡ z [ZMOD 2 ^ w] := by
  rw [BitVec.toInt_ofInt]
  exact bmod_modEq z w

/-- Cells tell integers apart up to the number of their values. -/
theorem ofInt_eq_iff_modEq {z z' : Int} :
    BitVec.ofInt w z = BitVec.ofInt w z' ↔ z ≡ z' [ZMOD 2 ^ w] := by
  constructor
  · intro h
    have hz := toInt_ofInt_modEq w z
    rw [h] at hz
    exact hz.symm.trans (toInt_ofInt_modEq w z')
  · intro h
    apply BitVec.eq_of_toNat_eq
    rw [BitVec.toNat_ofInt, BitVec.toNat_ofInt, Nat.cast_pow]
    exact congrArg Int.toNat h

theorem toInt_modEq_toNat (c : BitVec w) : c.toInt ≡ c.toNat [ZMOD 2 ^ w] := by
  rw [BitVec.toInt_eq_toNat_bmod]
  exact bmod_modEq c.toNat w

/-- Integers that are congruent are congruent in cells of both widths. -/
theorem toInt_ofInt_congr (hv : v ≤ w) {z z' : Int} (h : z' ≡ z [ZMOD 2 ^ v]) :
    (BitVec.ofInt v z').toInt ≡ (BitVec.ofInt w z).toInt [ZMOD 2 ^ v] := by
  have hnarrow := toInt_ofInt_modEq v z'
  have hwide := (toInt_ofInt_modEq w z).of_dvd (pow_dvd_pow 2 hv)
  exact (hnarrow.trans h).trans hwide.symm

theorem add_one_eq_ofInt (c : BitVec w) : c + 1 = BitVec.ofInt w (c.toInt + 1) := by
  rw [BitVec.ofInt_add, BitVec.ofInt_toInt]
  rfl

theorem sub_one_eq_ofInt (c : BitVec w) : c - 1 = BitVec.ofInt w (c.toInt - 1) := by
  rw [BitVec.sub_eq_add_neg, Int.sub_eq_add_neg, BitVec.ofInt_add, BitVec.ofInt_toInt,
    BitVec.ofInt_neg]
  rfl

/-- A narrow cell is zero if the number of its values divides what the wide cell holds. -/
theorem toInt_eq_zero_iff_dvd (h : c'.toInt ≡ c.toInt [ZMOD 2 ^ v]) :
    c'.toInt = 0 ↔ (2 ^ v : Int) ∣ c.toInt := by
  have hdvd : (2 ^ v : Int) ∣ c.toInt ↔ (2 ^ v : Int) ∣ c'.toInt := by
    rw [Int.dvd_iff_emod_eq_zero, Int.dvd_iff_emod_eq_zero, h.eq]
  rw [hdvd]
  constructor
  · intro hzero
    rw [hzero]
    exact dvd_zero _
  · intro hdvd
    have hmod : BitVec.ofInt v c'.toInt = BitVec.ofInt v 0 :=
      ofInt_eq_iff_modEq.mpr (Int.modEq_zero_iff_dvd.mpr hdvd)
    rw [BitVec.ofInt_toInt] at hmod
    simp [hmod]

/-- The low eight bits of both cells are the same. -/
theorem lowByte_eq (hbyte : 8 ≤ v) (hv : v ≤ w) (h : c'.toInt ≡ c.toInt [ZMOD 2 ^ v]) :
    UInt8.ofNat c'.toNat = UInt8.ofNat c.toNat := by
  have hnarrow := (toInt_modEq_toNat c').of_dvd (pow_dvd_pow 2 hbyte)
  have hwide := (toInt_modEq_toNat c).of_dvd (pow_dvd_pow 2 (Nat.le_trans hbyte hv))
  have hlow : (c'.toNat : Int) ≡ c.toNat [ZMOD ((2 ^ 8 : Nat) : Int)] :=
    (hnarrow.symm.trans (h.of_dvd (pow_dvd_pow 2 hbyte))).trans hwide
  rw [← UInt8.toNat_inj, UInt8.toNat_ofNat', UInt8.toNat_ofNat']
  exact Int.natCast_modEq_iff.mp hlow

end

namespace Tape

variable {w v : Nat} {t : Tape w} {t' : Tape v}

/-- Tapes of the same length with the pointer in the same place, whose cells hold numbers
that are congruent modulo `2 ^ k`. -/
structure Congruent (k : Nat) (t : Tape w) (t' : Tape v) : Prop where
  pointer_eq : t'.pointer = t.pointer
  cells : ∀ i : Nat, Option.Rel (fun c c' => c'.toInt ≡ c.toInt [ZMOD 2 ^ k])
    t.cells[i]? t'.cells[i]?

theorem congruent_blank (k length : Nat) :
    (blank w length).Congruent k (blank v length) where
  pointer_eq := rfl
  cells i := by
    by_cases hi : i < length
    · simp only [blank, Array.getElem?_replicate, if_pos hi]
      exact .some (by simp)
    · simp only [blank, Array.getElem?_replicate, if_neg hi]
      exact .none

theorem Congruent.length_eq {k : Nat} (h : t.Congruent k t') : t'.length = t.length := by
  -- The cells of both tapes end at the same index.
  have hends : ∀ i : Nat, t.cells[i]? = none ↔ t'.cells[i]? = none := by
    intro i
    have hcell := h.cells i
    generalize t.cells[i]? = cell at hcell
    generalize t'.cells[i]? = cell' at hcell
    cases hcell <;> simp
  have hle := (hends t.length).mp (Array.getElem?_eq_none (Nat.le_refl _))
  have hge := (hends t'.length).mpr (Array.getElem?_eq_none (Nat.le_refl _))
  exact Nat.le_antisymm (Array.getElem?_eq_none_iff.mp hle) (Array.getElem?_eq_none_iff.mp hge)

/-- Changes of the current cell that keep congruent numbers congruent keep the tapes so. -/
theorem Congruent.modify {k : Nat} (h : t.Congruent k t') {f : BitVec w → BitVec w}
    {f' : BitVec v → BitVec v}
    (hf : ∀ c c', c'.toInt ≡ c.toInt [ZMOD 2 ^ k] → (f' c').toInt ≡ (f c).toInt [ZMOD 2 ^ k]) :
    (t.modify f).Congruent k (t'.modify f') where
  pointer_eq := h.pointer_eq
  cells i := by
    have hcell := h.cells i
    rw [getElem?_modify, getElem?_modify, h.pointer_eq]
    generalize t.cells[i]? = cell at hcell
    generalize t'.cells[i]? = cell' at hcell
    split
    · cases hcell with
      | some hc => exact .some (hf _ _ hc)
      | none => exact .none
    · exact hcell

theorem Congruent.moveLeft? {k : Nat} (h : t.Congruent k t') :
    Option.Rel (Congruent k) t.moveLeft? t'.moveLeft? :=
  rel_moveLeft? h.pointer_eq fun _ => ⟨rfl, h.cells⟩

theorem Congruent.moveRight? {k : Nat} (h : t.Congruent k t') :
    Option.Rel (Congruent k) t.moveRight? t'.moveRight? := by
  have hpointer := h.pointer_eq
  unfold Tape.moveRight?
  rw [h.length_eq, hpointer]
  split
  · exact .none
  · exact .some ⟨rfl, h.cells⟩

theorem Congruent.current? {k : Nat} (h : t.Congruent k t') :
    Option.Rel (fun c c' => c'.toInt ≡ c.toInt [ZMOD 2 ^ k]) t.current? t'.current? := by
  unfold Tape.current?
  rw [h.pointer_eq]
  exact h.cells t.pointer

/-- Cells of at least eight bits do what wider cells do, apart from their tests. -/
theorem kept_congruent (hbyte : 8 ≤ v) (hv : v ≤ w) : Kept (Congruent (w := w) (v := v) v) where
  increment h := by
    apply h.modify
    intro c c' hc
    rw [add_one_eq_ofInt, add_one_eq_ofInt]
    exact toInt_ofInt_congr hv (hc.add_right 1)
  decrement h := by
    apply h.modify
    intro c c' hc
    rw [sub_one_eq_ofInt, sub_one_eq_ofInt]
    exact toInt_ofInt_congr hv (hc.sub_right 1)
  store h value := by
    apply h.modify
    intro _ _ _
    exact toInt_ofInt_congr hv rfl
  moveLeft? h := h.moveLeft?
  outputByte h := by
    have hcell := h.current?
    unfold outputByte
    generalize Tape.current? _ = cell at hcell
    generalize Tape.current? _ = cell' at hcell
    cases hcell with
    | some hc => exact lowByte_eq hbyte hv hc
    | none => rfl

/-- The current cell is nonzero, although its low bits are zero. -/
def Ambiguous (k : Nat) (t : Tape w) : Prop :=
  ∃ value, t.value? = some value ∧ value ≠ 0 ∧ (2 ^ k : Int) ∣ value

instance (k : Nat) (t : Tape w) : Decidable (t.Ambiguous k) :=
  match hvalue : t.value? with
  | none => isFalse fun ⟨_, h, _⟩ => nomatch hvalue.symm.trans h
  | some value =>
    decidable_of_iff (value ≠ 0 ∧ (2 ^ k : Int) ∣ value) (by simp [Ambiguous, hvalue])

/-- A narrow cell passes for zero where the wide cell is zero or ambiguous. -/
theorem Congruent.isZero_iff (h : t.Congruent v t') :
    t'.isZero = true ↔ t.isZero = true ∨ t.Ambiguous v := by
  have hcell := h.current?
  rw [isZero_eq_true_iff, isZero_eq_true_iff]
  unfold Ambiguous value?
  generalize t.current? = cell at hcell
  generalize t'.current? = cell' at hcell
  cases hcell with
  | none => simp
  | @some c c' hc =>
      have hzero := toInt_eq_zero_iff_dvd hc
      by_cases hc0 : c.toInt = 0
      · simp [hzero, hc0]
      · simp [hzero, hc0]

theorem Congruent.isZero_eq (h : t.Congruent v t') (hclear : ¬ t.Ambiguous v) :
    t'.isZero = t.isZero := by
  rw [Bool.eq_iff_iff, h.isZero_iff]
  exact or_iff_left hclear

end Tape

namespace Machine

variable {w v : Nat} {machine : Machine w} {machine' : Machine v}

/-- A bracket is about to be executed on an ambiguous cell. -/
def TellsApart (k : Nat) (p : Program) (machine : Machine w) : Prop :=
  (p.instruction? machine.pc = some .opening ∨ p.instruction? machine.pc = some .closing) ∧
    machine.tape.Ambiguous k

instance (k : Nat) (p : Program) (machine : Machine w) : Decidable (machine.TellsApart k p) :=
  inferInstanceAs (Decidable (_ ∧ _))

theorem Beside.tellsApart_or_matches (hbyte : 8 ≤ v) (hv : v ≤ w)
    (h : machine.Beside (Tape.Congruent v) machine') (p : Program) (brackets : Matcher) :
    machine.TellsApart v p ∨
      (machine.step p brackets).Matches (Beside (Tape.Congruent v)) id
        (machine'.step p brackets) := by
  by_cases htells : machine.TellsApart v p
  · exact .inl htells
  · have hkept := Tape.kept_congruent hbyte hv
    refine .inr (h.step_matches hkept p brackets (fun _ => h.tape.moveRight?) ?_)
    intro i hbracket hi
    refine h.tape.isZero_eq fun hambiguous => htells ⟨?_, hambiguous⟩
    rcases hbracket with rfl | rfl
    · exact .inl hi
    · exact .inr hi

/-- At a bracket on an ambiguous cell the two machines part: the narrow one takes its cell
for zero, and the jump that only one of them makes leads away from the next position. -/
theorem Beside.not_matches_of_tellsApart (h : machine.Beside (Tape.Congruent v) machine')
    (p : Program) (strategy : Strategy) (htells : machine.TellsApart v p) :
    ¬ (machine.step p (strategy.matcher p)).Matches (Beside (Tape.Congruent v)) id
      (machine'.step p (strategy.matcher p)) := by
  obtain ⟨hbracket, hambiguous⟩ := htells
  have hnarrow : machine'.tape.isZero = true := h.tape.isZero_iff.mpr (.inr hambiguous)
  have hwide : machine.tape.isZero = false := by
    obtain ⟨value, hvalue, hne, _⟩ := hambiguous
    rw [← Bool.not_eq_true, Tape.isZero_eq_true_iff, hvalue]
    exact fun hzero => hne (Option.some.inj hzero)
  rw [step_matcher, step_matcher]
  have hpc := h.pc_eq
  rcases hbracket with hi | hi
  · have hi' : p.instruction? machine'.pc = some .opening := by rw [hpc, hi]
    rw [Step.step_eq (.enter hi hwide)]
    cases hb : scanForward p machine'.pc with
    | none =>
        rw [Step.step_eq (.unclosed hi' hnarrow hb)]
        exact fun hmatches => nomatch hmatches
    | some partner =>
        have hlt := ((scanForward_eq_some_iff hi').mp hb).lt
        rw [Step.step_eq (.skip hi' hnarrow hb)]
        intro hmatches
        cases hmatches with
        | advance hnext =>
            have hsame : partner + 1 = machine.pc + 1 := hnext.pc_eq
            omega
  · have hi' : p.instruction? machine'.pc = some .closing := by rw [hpc, hi]
    rw [Step.step_eq (.leave hi' hnarrow)]
    cases hb : scanBackward p machine.pc with
    | none =>
        rw [Step.step_eq (.unopened hi hwide hb)]
        exact fun hmatches => nomatch hmatches
    | some partner =>
        have hlt := ((scanBackward_eq_some_iff hi).mp hb).lt
        rw [Step.step_eq (.again hi hwide hb)]
        intro hmatches
        cases hmatches with
        | advance hnext =>
            have hsame : machine'.pc + 1 = partner + 1 := hnext.pc_eq
            omega

end Machine

namespace Execution

variable {ε σ : Type} {w v : Nat}

/-- Within `n` steps the run executes a bracket on an ambiguous cell. -/
def TellsApart (streams : Streams (Effect ε σ)) (p : Program) (brackets : Matcher) (k n : Nat)
    (c : Configuration w σ) : Prop :=
  ∃ j < n, ∃ c', Reaches streams p brackets j c c' ∧ c'.machine.TellsApart k p

/-- Runs that differ in the width are in lockstep until the wide one meets such a bracket. -/
theorem tellsApart_or_lockstep (hbyte : 8 ≤ v) (hv : v ≤ w) (streams : Streams (Effect ε σ))
    (p : Program) (brackets : Matcher) (length n : Nat) (s : σ) :
    TellsApart streams p brackets v n ⟨Machine.initial (.blank w length), s⟩ ∨
      InLockstep (Machine.Beside (Tape.Congruent v)) id
        ((runFor streams p brackets n (Machine.initial (.blank w length))).runFrom s)
        ((runFor streams p brackets n (Machine.initial (.blank v length))).runFrom s) := by
  have hinitial : (Machine.initial (.blank w length)).Beside (Tape.Congruent v)
      (Machine.initial (.blank v length)) := ⟨rfl, Tape.congruent_blank v length⟩
  exact lockstep_or_parting streams
    (fun _ _ h => h.tellsApart_or_matches hbyte hv p brackets) hinitial n s

end Execution

theorem CellWidth.eight_le_bits (width : CellWidth) : 8 ≤ width.bits := by
  cases width <;> decide

namespace Execution

variable {ε σ : Type}

/-- The run of a program without brackets tells no widths apart. -/
theorem not_tellsApart {w : Nat} {streams : Streams (Effect ε σ)} {p : Program}
    {brackets : Matcher} {k n : Nat} {c : Configuration w σ}
    (hopening : ∀ pc, p.instruction? pc ≠ some .opening)
    (hclosing : ∀ pc, p.instruction? pc ≠ some .closing) :
    ¬ TellsApart streams p brackets k n c := by
  rintro ⟨j, _, c', _, hbracket, _⟩
  rcases hbracket with hi | hi
  · exact hopening _ hi
  · exact hclosing _ hi

end Execution

end Brainfuck
