import Brainfuck.Proofs.Encoding
import Brainfuck.Proofs.Relocation

/-!
# Inert octets

A program and the same program without its inert octets do the same. A position of the one
corresponds to the number of instructions before it, its rank, which is a position of the
other. Ranks carry a machine of the program to a machine of the stripped program: an inert
octet is a step of the one machine only, every other step is a step of both, and a jump
leads from partner to partner because a scan sees brackets only.

The two executions differ in the positions that faults name, and so in the line that the
error log receives. Everything that is written, flushed and read is the same.
-/
namespace Brainfuck

open Brainfuck.Bracket

variable {host : Host}

/-- Whether an octet writes an instruction. -/
def Instruction.isOctet (b : UInt8) : Bool := (ofByte? b).isSome

namespace Program

/-- The program without its inert octets. -/
def stripped (p : Program) : Program := ofBytes (p.toList.filter Instruction.isOctet)

/-- The number of instructions before a position. -/
def rank (p : Program) (pc : Nat) : Nat := ((p.toList.take pc).filter Instruction.isOctet).length

/-- The positions of the instructions, in increasing order. -/
def offsets (p : Program) : List Nat :=
  (List.range p.size).filter fun pc => (p.instruction? pc).isSome

/-- The position of the instruction with the given number, counted from zero. -/
def offset (p : Program) (k : Nat) : Nat := p.offsets[k]?.getD p.size

section
variable {p : Program} {pc : Nat} {i : Instruction}

theorem rank_succ_of_instruction (h : p.instruction? pc = some i) :
    p.rank (pc + 1) = p.rank pc + 1 := by
  have hb := instruction?_eq_some_iff.mp h
  unfold rank
  rw [List.take_add_one, hb]
  simp [Instruction.isOctet]

theorem rank_succ_of_inert (h : p.instruction? pc = none) : p.rank (pc + 1) = p.rank pc := by
  unfold rank
  rw [List.take_add_one]
  rw [instruction?_eq] at h
  cases hb : p.toList[pc]? with
  | none => simp
  | some b =>
      rw [hb] at h
      simp [Instruction.isOctet, show Instruction.ofByte? b = none from h]

/-- Behind a rank stands what is left of the program behind the position. -/
theorem drop_rank (p : Program) (pc : Nat) :
    p.stripped.toList.drop (p.rank pc) = (p.toList.drop pc).filter Instruction.isOctet := by
  have hsplit : p.stripped.toList = (p.toList.take pc).filter Instruction.isOctet ++
      (p.toList.drop pc).filter Instruction.isOctet := by
    rw [← List.filter_append, List.take_append_drop]
    rfl
  rw [hsplit, rank, List.drop_left]

theorem instruction?_rank (h : p.instruction? pc = some i) :
    p.stripped.instruction? (p.rank pc) = some i := by
  obtain ⟨hpc, hb⟩ := List.getElem?_eq_some_iff.mp (instruction?_eq_some_iff.mp h)
  rw [instruction?_eq_some_iff, ← List.head?_drop, drop_rank, List.drop_eq_getElem_cons hpc, hb]
  simp [Instruction.isOctet]

theorem size_stripped_le (h : p.size ≤ pc) : p.stripped.size ≤ p.rank pc := by
  have hnil : p.toList.drop pc = [] := List.drop_eq_nil_of_le (by rwa [p.length_toList])
  have hdrop := drop_rank p pc
  rw [hnil, List.filter_nil, List.drop_eq_nil_iff, length_toList] at hdrop
  exact hdrop

theorem length_filter_range (h : pc ≤ p.size) :
    ((List.range pc).filter fun pc => (p.instruction? pc).isSome).length = p.rank pc := by
  induction pc with
  | zero => simp [rank]
  | succ pc ih =>
      rw [List.range_succ, List.filter_append, List.length_append, ih (by omega)]
      cases hi : p.instruction? pc with
      | none => simp [hi, rank_succ_of_inert hi]
      | some i => simp [hi, rank_succ_of_instruction hi]

/-- The instruction at a position has the rank of the position for its number. -/
theorem offset_rank (h : p.instruction? pc = some i) : p.offset (p.rank pc) = pc := by
  have hpc := lt_size_of_instruction?_eq_some h
  have hbefore := length_filter_range (Nat.le_of_lt hpc)
  have hrange : List.range p.size =
      List.range pc ++ pc :: List.range' (pc + 1) (p.size - (pc + 1)) := by
    have hsplit := List.range'_append_1 (s := 0) (m := pc) (n := p.size - pc)
    rw [Nat.zero_add, Nat.add_sub_cancel' (Nat.le_of_lt hpc),
      show p.size - pc = p.size - (pc + 1) + 1 by omega, List.range'_succ] at hsplit
    rw [List.range_eq_range', List.range_eq_range', hsplit]
  unfold offset offsets
  rw [hrange, List.filter_append, ← hbefore, List.getElem?_append_right (Nat.le_refl _),
    Nat.sub_self, List.filter_cons_of_pos (by simp [h])]
  rfl

end

end Program

/-- The characters that write the instructions. -/
def Instruction.characters : List Char := ['>', '<', '+', '-', '.', ',', '[', ']']

namespace Instruction

theorem isOctet_of_le {b : UInt8} (h : 0x80 ≤ b) : isOctet b = false := by
  unfold isOctet
  cases hi : ofByte? b with
  | none => rfl
  | some i =>
      have hb : b < 0x80 := ofByte?_eq_some_iff.mp hi ▸ i.toByte_lt
      exact absurd h (UInt8.not_le.mpr hb)

theorem isOctet_ascii : ∀ n : Fin 0x80,
    isOctet (UInt8.ofNat n) = characters.contains (Char.ofNat n) := by
  decide

end Instruction

/-- A character is an instruction with all of its octets, or with none of them. -/
theorem Instruction.filter_encodeChar (c : Char) :
    (String.utf8EncodeChar c).filter isOctet =
      if characters.contains c then String.utf8EncodeChar c else [] := by
  by_cases hc : c.val.toNat ≤ 0x7F
  · have hcode : String.utf8EncodeChar c = [UInt8.ofNat c.val.toNat] := if_pos hc
    have hascii := isOctet_ascii ⟨c.val.toNat, by omega⟩
    rw [show Char.ofNat c.val.toNat = c from Char.ofNat_toNat c] at hascii
    rw [hcode, List.filter_cons, hascii, List.filter_nil]
  · have hlength : 1 < (String.utf8EncodeChar c).length := by
      unfold String.utf8EncodeChar
      dsimp only
      rw [if_neg hc]
      split
      · simp
      · split <;> simp
    have hoctets : (String.utf8EncodeChar c).filter isOctet = [] := by
      refine List.filter_eq_nil_iff.mpr fun b hb => ?_
      rw [isOctet_of_le (Utf8.le_of_mem_encodeChar hlength hb)]
      exact Bool.false_ne_true
    have hsmall : characters.all (fun c => c.val.toNat ≤ 0x7F) = true := rfl
    rw [hoctets, if_neg]
    intro hmem
    have hascii := List.all_eq_true.mp hsmall c (List.contains_iff_mem.mp hmem)
    exact hc (of_decide_eq_true hascii)

/-- Deleting the inert octets of a text deletes its inert characters. -/
theorem Program.stripped_ofText (text : String) :
    (ofText text).stripped =
      ofText (String.ofList (text.toList.filter Instruction.characters.contains)) := by
  unfold stripped ofText Utf8.encode
  rw [toList_ofBytes, String.toList_ofList, List.filter_flatMap]
  congr 1
  induction text.toList with
  | nil => rfl
  | cons c rest ih =>
      rw [List.flatMap_cons, Instruction.filter_encodeChar, ih, List.filter_cons]
      split
      · rw [List.flatMap_cons]
      · rw [List.nil_append]

namespace Bracket

/-- Ranks carry the brackets of a program to those of the stripped program. -/
theorem projection_rank (p : Program) : Projection p.rank p p.stripped where
  zero := by simp [Program.rank]
  bracket hi _ := ⟨Program.instruction?_rank hi, Program.rank_succ_of_instruction hi⟩
  other := by
    intro pc _ ho hc
    cases hi : p.instruction? pc with
    | none => exact .inl (Program.rank_succ_of_inert hi)
    | some i =>
        refine .inr ⟨Program.rank_succ_of_instruction hi, ?_⟩
        rw [Program.instruction?_rank hi, ← hi]
        exact ⟨ho, hc⟩
  ends := Program.size_stripped_le

end Bracket

/-- Away from inert octets, what stands at a position stands at its rank. -/
theorem Program.sameAt_rank {p : Program} {pc : Nat}
    (h : pc < p.size → p.instruction? pc ≠ none) : SameAt p.rank p.rank p p.stripped pc := by
  have hrank : ∀ {j}, p.instruction? j ≠ none →
      p.stripped.instruction? (p.rank j) = p.instruction? j ∧ p.rank (j + 1) = p.rank j + 1 := by
    intro j hj
    obtain ⟨i, hi⟩ := Option.ne_none_iff_exists'.mp hj
    exact ⟨(instruction?_rank hi).trans hi.symm, rank_succ_of_instruction hi⟩
  refine ⟨size_stripped_le, ?_, ?_, ?_, ?_, ?_⟩
  · intro hpc
    obtain ⟨i, hi⟩ := Option.ne_none_iff_exists'.mp (h hpc)
    exact lt_size_of_instruction?_eq_some (instruction?_rank hi)
  · intro hpc
    exact (hrank (h hpc)).1
  · rintro j hj (rfl | hi)
    · exact (hrank (h hj)).2
    · exact (hrank hi).2
  · exact (projection_rank p).scanForward_eq
  · exact (projection_rank p).scanBackward_eq

/-- The rank of a position, as positions of faults are written. -/
def Program.rankOf (p : Program) (position : Int) : Int := p.rank position.toNat

/-- The position of an instruction, as positions of faults are written. -/
def Program.offsetOf (p : Program) (k : Int) : Int := p.offset k.toNat

namespace Machine

variable {w : Nat}

/-- The machine at the corresponding position of the stripped program. -/
def strip (p : Program) (machine : Machine w) : Machine w := ⟨p.rank machine.pc, machine.tape⟩

end Machine

/-- The action of the stripped program that corresponds to an action. -/
def Action.strip {w : Nat} (p : Program) : Action w → Action w
  | .advance next => .advance (next.strip p)
  | .write byte next => .write byte (next.strip p)
  | .read next => .read (next.strip p)
  | .stop verdict final => .stop (verdict.move p.rankOf) (final.strip p)

theorem Action.relocate_rank {w : Nat} (p : Program) (action : Action w) :
    action.relocate p.rankOf p.rank p.rank = action.strip p := by
  cases action <;> rfl

def Progress.strip {w : Nat} (p : Program) : Progress w → Progress w
  | .running machine => .running (machine.strip p)
  | .stopped verdict final => .stopped (verdict.move p.rankOf) (final.strip p)

namespace Machine

variable {w : Nat} {p : Program} {machine : Machine w}

/-- An inert octet is no step of the stripped program. -/
theorem strip_of_inert (h : p.instruction? machine.pc = none) :
    strip p ⟨machine.pc + 1, machine.tape⟩ = machine.strip p := by
  unfold strip
  rw [Program.rank_succ_of_inert h]

@[simp] theorem strip_supply (value : Int) (machine : Machine w) :
    (machine.supply value).strip p = (machine.strip p).supply value := rfl

@[simp] theorem strip_initial (tape : Tape w) : (initial tape).strip p = initial tape := by
  simp [strip, initial, Program.rank]

/-- Away from inert octets, a step of the stripped program is a step of the program. -/
theorem step_strip (h : machine.pc < p.size → p.instruction? machine.pc ≠ none) :
    (machine.strip p).step p.stripped (.scanning p.stripped) =
      (machine.step p (.scanning p)).strip p :=
  (step_relocate (Program.sameAt_rank h) rfl).trans (Action.relocate_rank p _)

/-- A fault stands at an instruction, so its position is found again from its rank. -/
theorem move_of_step {verdict : Verdict} {final : Machine w}
    (h : machine.step p (.scanning p) = .stop verdict final) :
    (verdict.move p.rankOf).move p.offsetOf = verdict := by
  have hoffset : ∀ {i : Instruction}, p.instruction? machine.pc = some i →
      p.offsetOf (p.rankOf machine.pc) = machine.pc := by
    intro i hi
    exact congrArg Nat.cast (Program.offset_rank hi)
  cases step_eq_iff.mp h with
  | done _ => rfl
  | rightEnd hi _ => simp only [Verdict.move, Fault.move, hoffset hi]
  | leftEnd hi _ => simp only [Verdict.move, Fault.move, hoffset hi]
  | unclosed hi _ _ => simp only [Verdict.move, Fault.move, hoffset hi]
  | unopened hi _ _ => simp only [Verdict.move, Fault.move, hoffset hi]

end Machine

namespace Execution

variable {ε σ : Type} {w : Nat}

/-- The stripped program is in `n` steps where the program is in `k`. -/
def InStep (streams : Streams (Effect ε σ)) (p : Program) (n k : Nat) (machine : Machine w)
    (s : σ) : Prop :=
  (runFor streams p.stripped (.scanning p.stripped) n (machine.strip p)).runFrom s =
    (Progress.strip p <$> runFor streams p (.scanning p) k machine).runFrom s

section
variable {streams : Streams (Effect ε σ)} {p : Program} {machine : Machine w} {s : σ}

theorem inStep_zero : InStep streams p 0 0 machine s := rfl

theorem InStep.inert {n k : Nat} (hpc : machine.pc < p.size)
    (hi : p.instruction? machine.pc = none)
    (h : InStep streams p n k ⟨machine.pc + 1, machine.tape⟩ s) :
    InStep streams p n (k + 1) machine s := by
  unfold InStep at h ⊢
  rw [Machine.strip_of_inert hi] at h
  simp only [runFor, Machine.step_of_inert hpc hi]
  exact h

/-- A step of both programs. The budgets behind it may depend on what the streams do. -/
theorem exists_inStep_succ {A : Nat → Nat → Prop}
    (h : machine.pc < p.size → p.instruction? machine.pc ≠ none)
    (hnext : ∀ (next : Machine w) s', ∃ n k, A n k ∧ InStep streams p n k next s') :
    ∃ n k, A n k ∧ InStep streams p (n + 1) (k + 1) machine s := by
  unfold InStep at hnext ⊢
  simp only [runFor, Machine.step_strip h]
  cases machine.step p (.scanning p) with
  | advance next => exact hnext next s
  | write byte next =>
      simp only [Action.strip, map_bind, Effect.runFrom_bind]
      rcases (streams.out.write [byte]).runFrom s with ⟨error | _, s₁⟩
      · obtain ⟨n, k, hA, _⟩ := hnext next s₁
        exact ⟨n, k, hA, rfl⟩
      · exact hnext next s₁
  | read next =>
      simp only [Action.strip, map_bind, Effect.runFrom_bind, ← Machine.strip_supply]
      rcases streams.out.flush.runFrom s with ⟨error | _, s₁⟩
      · obtain ⟨n, k, hA, _⟩ := hnext next s₁
        exact ⟨n, k, hA, rfl⟩
      · dsimp only
        rcases streams.read.runFrom s₁ with ⟨error | value, s₂⟩
        · obtain ⟨n, k, hA, _⟩ := hnext next s₂
          exact ⟨n, k, hA, rfl⟩
        · exact hnext (next.supply (value.getD 0)) s₂
  | stop verdict final =>
      obtain ⟨n, k, hA, _⟩ := hnext machine s
      exact ⟨n, k, hA, rfl⟩

/-- Whatever the program does, the stripped program does in no more steps. -/
theorem exists_le_inStep (streams : Streams (Effect ε σ)) (p : Program) (k : Nat)
    (machine : Machine w) (s : σ) : ∃ n ≤ k, InStep streams p n k machine s := by
  induction k generalizing machine s with
  | zero => exact ⟨0, Nat.le_refl 0, inStep_zero⟩
  | succ k ih =>
      by_cases hinert : machine.pc < p.size ∧ p.instruction? machine.pc = none
      · obtain ⟨n, hn, h⟩ := ih ⟨machine.pc + 1, machine.tape⟩ s
        exact ⟨n, Nat.le_succ_of_le hn, h.inert hinert.1 hinert.2⟩
      · obtain ⟨n, _, ⟨hn, rfl⟩, h⟩ := exists_inStep_succ (A := fun n k' => n ≤ k ∧ k' = k)
          (fun hpc hi => hinert ⟨hpc, hi⟩)
          (fun next s' => (ih next s').imp fun n h => ⟨k, ⟨h.1, rfl⟩, h.2⟩)
        exact ⟨n + 1, Nat.succ_le_succ hn, h⟩

/-- Whatever the stripped program does, the program does in no fewer steps. -/
theorem exists_ge_inStep (streams : Streams (Effect ε σ)) (p : Program) (n : Nat)
    (machine : Machine w) (s : σ) : ∃ k, n ≤ k ∧ InStep streams p n k machine s := by
  induction n generalizing machine s with
  | zero => exact ⟨0, Nat.le_refl 0, inStep_zero⟩
  | succ n ih =>
      -- Before the next common step lies a stretch of inert octets, shorter at each of them.
      induction hd : p.size - machine.pc using Nat.strongRecOn generalizing machine with
      | ind d ihd =>
          by_cases hinert : machine.pc < p.size ∧ p.instruction? machine.pc = none
          · have hpc := hinert.1
            obtain ⟨k, hk, h⟩ := ihd (p.size - (machine.pc + 1)) (by omega)
              ⟨machine.pc + 1, machine.tape⟩ rfl
            exact ⟨k + 1, Nat.le_succ_of_le hk, h.inert hpc hinert.2⟩
          · obtain ⟨_, k, ⟨rfl, hk⟩, h⟩ := exists_inStep_succ (A := fun n' k => n' = n ∧ n ≤ k)
              (fun hpc hi => hinert ⟨hpc, hi⟩)
              (fun next s' => ⟨n, (ih next s').imp fun k h => ⟨⟨rfl, h.1⟩, h.2⟩⟩)
            exact ⟨k + 1, Nat.succ_le_succ hk, h⟩

end

end Execution

section
variable {ε σ : Type} {streams : Streams (Effect ε σ)} {p : Program}

/-- Runs that are in step are in lockstep, and a fault is found again from its rank. -/
theorem Execution.InStep.lockstep {w : Nat} {streams : Streams (Effect ε σ)} {n k : Nat}
    {machine : Machine w} {s : σ} (h : InStep streams p n k machine s) :
    InLockstep (fun _ _ => True) (Verdict.move p.offsetOf)
      ((runFor streams p.stripped (.scanning p.stripped) n (machine.strip p)).runFrom s)
      ((runFor streams p (.scanning p) k machine).runFrom s) := by
  unfold InStep at h
  rw [Effect.runFrom_map] at h
  rw [h]
  rcases hrun : (runFor streams p (.scanning p) k machine).runFrom s with
    ⟨error | machine' | ⟨verdict, final⟩, s'⟩
  · exact .fails
  · exact .yields (.running trivial)
  · have hhalts : Halts streams p (.scanning p) k ⟨machine, s⟩ verdict ⟨final, s'⟩ := hrun
    have hfound := Machine.move_of_step hhalts.exists_reaches.1
    have hstopped : Progress.Matches (fun _ _ => True) (Verdict.move p.offsetOf)
        (.stopped (verdict.move p.rankOf) (final.strip p))
        (.stopped ((verdict.move p.rankOf).move p.offsetOf) final) := .stopped trivial
    rw [hfound] at hstopped
    exact .yields hstopped

/-- Runs that are in step lead to executions that differ in the positions of faults. -/
theorem Relocated.of_inStep {settings : Settings} {options : Options}
    (hoptions : settings.prepare host = .ok options) {n k : Nat} {r : Recorded σ}
    (h : Execution.InStep (Recorded.streams streams) p n k
      (Machine.initial options.tape) r) :
    Relocated streams p.offsetOf
      ((interpret host (Recorded.streams streams) settings p k).runFrom r)
      ((interpret host (Recorded.streams streams) settings p.stripped n).runFrom r) := by
  have hlockstep := h.lockstep
  rw [Machine.strip_initial, ← Execution.runFor_matcher _ p options.brackets,
    ← Execution.runFor_matcher _ p.stripped options.brackets] at hlockstep
  exact .of_lockstep hoptions hlockstep

theorem exists_le_relocated (streams : Streams (Effect ε σ)) (settings : Settings) (p : Program)
    (k : Nat) (r : Recorded σ) :
    ∃ n ≤ k, Relocated streams p.offsetOf
      ((interpret host (Recorded.streams streams) settings p k).runFrom r)
      ((interpret host (Recorded.streams streams) settings p.stripped n).runFrom r) := by
  cases hoptions : settings.prepare host with
  | error error => exact ⟨k, Nat.le_refl k, .of_error hoptions _ _ k k r⟩
  | ok options =>
      obtain ⟨n, hn, h⟩ := Execution.exists_le_inStep (Recorded.streams streams) p k
        (Machine.initial options.tape) r
      exact ⟨n, hn, .of_inStep hoptions h⟩

theorem exists_ge_relocated (streams : Streams (Effect ε σ)) (settings : Settings) (p : Program)
    (n : Nat) (r : Recorded σ) :
    ∃ k, n ≤ k ∧ Relocated streams p.offsetOf
      ((interpret host (Recorded.streams streams) settings p k).runFrom r)
      ((interpret host (Recorded.streams streams) settings p.stripped n).runFrom r) := by
  cases hoptions : settings.prepare host with
  | error error => exact ⟨n, Nat.le_refl n, .of_error hoptions _ _ n n r⟩
  | ok options =>
      obtain ⟨k, hk, h⟩ := Execution.exists_ge_inStep (Recorded.streams streams) p n
        (Machine.initial options.tape) r
      exact ⟨k, hk, .of_inStep hoptions h⟩

/-- On streams that never fail, the program returns what the stripped program returns, with a
fault at the position of its octet. -/
theorem exists_le_stripped_outcome (hstreams : streams.NeverFails) (settings : Settings)
    (p : Program) (k : Nat) (r : Recorded σ) :
    ∃ n ≤ k, ((interpret host (Recorded.streams streams) settings p k).runFrom r).1 =
      ((interpret host (Recorded.streams streams) settings p.stripped n).runFrom r).1.map
        (Except.map (Option.map (Verdict.move p.offsetOf))) := by
  obtain ⟨n, hn, h⟩ := exists_le_relocated streams settings p k r
  exact ⟨n, hn, h.outcome hstreams.reportsAlike⟩

end

end Brainfuck
