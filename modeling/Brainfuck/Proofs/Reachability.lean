import Brainfuck.Proofs.Nesting
import Brainfuck.Proofs.Runs
import Brainfuck.Stream.Script
import Mathlib.Algebra.Ring.Int.Defs

/-!
# Reachable machines

A machine on at least one cell stays in bounds: the program counter never passes the end
of the program, the pointer stands on a cell, and the tape keeps its length. One step keeps
these bounds whichever rule it follows, and a jump keeps them because its target is an
octet of the program. No assumption is made on the streams, so the bounds hold up to the
call that fails if one does.

A fault names the octet that caused it and is justified by the machine that stopped there.
For a bracket fault this is a fact about the text: no bracket of the program closes, or
opens, the loop in question. A balanced program therefore has no bracket faults.
-/
namespace Brainfuck

open Brainfuck.Bracket

variable {host : Host}

namespace Tape

variable {w : Nat} {t t' : Tape w}

theorem moveRight?_eq_some_iff :
    t.moveRight? = some t' ↔ t.pointer + 1 ≠ t.length ∧ t' = ⟨t.cells, t.pointer + 1⟩ := by
  unfold moveRight?
  by_cases h : t.pointer + 1 = t.length <;> simp [h, eq_comm]

theorem moveLeft?_eq_some_iff :
    t.moveLeft? = some t' ↔ 0 < t.pointer ∧ t' = ⟨t.cells, t.pointer - 1⟩ := by
  rcases t with ⟨cells, _ | pointer⟩ <;> simp [moveLeft?, eq_comm]

/-- Cells hold the signed values of their width. -/
theorem exists_cellAt? {i : Nat} (hi : i < t.length) :
    ∃ v, t.cellAt? i = some v ∧ -2 ^ (w - 1) ≤ v ∧ v ≤ 2 ^ (w - 1) - 1 := by
  refine ⟨(t.cells[i]).toInt, ?_, BitVec.le_toInt _, BitVec.toInt_le⟩
  have hcell : t.cells[i]? = some t.cells[i] := Array.getElem?_eq_getElem hi
  simp [cellAt?, hcell]

theorem exists_value? (h : t.pointer < t.length) : ∃ v, t.value? = some v := by
  have hcell : t.cells[t.pointer]? = some t.cells[t.pointer] := Array.getElem?_eq_getElem h
  exact ⟨_, by rw [value?, current?, hcell]; rfl⟩

theorem isZero_eq_true_iff : t.isZero = true ↔ t.value? = some 0 := by
  unfold isZero value?
  cases t.current? with
  | none => simp
  | some cell => simp [← BitVec.toInt_inj]

end Tape

namespace Machine

variable {w : Nat}

/-- The counter is in the program or right behind it, and the pointer is on the tape. -/
structure InBounds (p : Program) (tapeLength : Nat) (machine : Machine w) : Prop where
  pc_le : machine.pc ≤ p.size
  pointer_lt : machine.tape.pointer < tapeLength
  length_eq : machine.tape.length = tapeLength

theorem inBounds_initial (p : Program) {tapeLength : Nat} (h : 0 < tapeLength) :
    (initial (.blank w tapeLength)).InBounds p tapeLength where
  pc_le := Nat.zero_le _
  pointer_lt := h
  length_eq := Tape.length_blank tapeLength

variable {p : Program} {tapeLength : Nat} {machine : Machine w}

theorem InBounds.modify {pc : Nat} (hpc : pc ≤ p.size) (h : machine.InBounds p tapeLength)
    (f : BitVec w → BitVec w) : InBounds p tapeLength ⟨pc, machine.tape.modify f⟩ where
  pc_le := hpc
  pointer_lt := h.pointer_lt
  length_eq := by rw [Tape.length_modify]; exact h.length_eq

/-- A jump leads to the octet behind a bracket of the program. -/
theorem jump_le {pc target : Nat} {bracket : Instruction}
    (h : p.instruction? target = some bracket) (hpc : pc = target + 1) : pc ≤ p.size := by
  have hlt := Program.lt_size_of_instruction?_eq_some h
  omega

theorem InBounds.step_advance {next : Machine w} (h : machine.InBounds p tapeLength)
    (hstep : machine.step p (.scanning p) = .advance next) : next.InBounds p tapeLength := by
  cases step_eq_iff.mp hstep with
  | inert hpc _ => exact ⟨hpc, h.pointer_lt, h.length_eq⟩
  | right hi hm =>
      obtain ⟨hne, rfl⟩ := Tape.moveRight?_eq_some_iff.mp hm
      have hlt := h.pointer_lt
      have hlen := h.length_eq
      refine ⟨Program.lt_size_of_instruction?_eq_some hi, ?_, hlen⟩
      change machine.tape.pointer + 1 < tapeLength
      omega
  | left hi hm =>
      obtain ⟨_, rfl⟩ := Tape.moveLeft?_eq_some_iff.mp hm
      have hlt := h.pointer_lt
      refine ⟨Program.lt_size_of_instruction?_eq_some hi, ?_, h.length_eq⟩
      change machine.tape.pointer - 1 < tapeLength
      omega
  | increment hi => exact h.modify (Program.lt_size_of_instruction?_eq_some hi) _
  | decrement hi => exact h.modify (Program.lt_size_of_instruction?_eq_some hi) _
  | enter hi _ => exact ⟨Program.lt_size_of_instruction?_eq_some hi, h.pointer_lt, h.length_eq⟩
  | skip hi _ hb =>
      have hpartner := (scanForward_eq_some_iff hi).mp hb
      exact ⟨jump_le hpartner.closing rfl, h.pointer_lt, h.length_eq⟩
  | leave hi _ => exact ⟨Program.lt_size_of_instruction?_eq_some hi, h.pointer_lt, h.length_eq⟩
  | again hi _ hb =>
      have hpartner := (scanBackward_eq_some_iff hi).mp hb
      exact ⟨jump_le hpartner.opening rfl, h.pointer_lt, h.length_eq⟩

theorem InBounds.step_write {byte : UInt8} {next : Machine w} (h : machine.InBounds p tapeLength)
    (hstep : machine.step p (.scanning p) = .write byte next) : next.InBounds p tapeLength := by
  cases step_eq_iff.mp hstep with
  | output hi => exact ⟨Program.lt_size_of_instruction?_eq_some hi, h.pointer_lt, h.length_eq⟩

theorem InBounds.step_read {next : Machine w} (h : machine.InBounds p tapeLength)
    (hstep : machine.step p (.scanning p) = .read next) (value : Int) :
    (next.supply value).InBounds p tapeLength := by
  cases step_eq_iff.mp hstep with
  | input hi => exact h.modify (Program.lt_size_of_instruction?_eq_some hi) _

end Machine

/-- The octet under the counter and the current cell call for the fault. -/
def Fault.Justified {w : Nat} (p : Program) (tapeLength : Nat) (machine : Machine w) :
    Fault → Prop
  | .outOfBounds _ .right =>
      p.instruction? machine.pc = some .right ∧ machine.tape.pointer + 1 = tapeLength
  | .outOfBounds _ .left => p.instruction? machine.pc = some .left ∧ machine.tape.pointer = 0
  | .missingClosing _ =>
      p.instruction? machine.pc = some .opening ∧ machine.tape.value? = some 0 ∧
        ¬ ∃ j, Partners p machine.pc j
  | .missingOpening _ =>
      p.instruction? machine.pc = some .closing ∧
        (∃ v, machine.tape.value? = some v ∧ v ≠ 0) ∧ ¬ ∃ i, Partners p i machine.pc

section
variable {w tapeLength : Nat} {p : Program} {machine final : Machine w} {fault : Fault}

theorem Machine.InBounds.justified (h : machine.InBounds p tapeLength)
    (hstep : machine.step p (.scanning p) = .stop (.faulted fault) final) :
    fault.position = machine.pc ∧ machine.pc < p.size ∧ fault.Justified p tapeLength machine := by
  cases step_eq_iff.mp hstep with
  | rightEnd hi hm =>
      have hlt := Program.lt_size_of_instruction?_eq_some hi
      have hend := Tape.moveRight?_eq_none_iff.mp hm
      exact ⟨rfl, hlt, hi, h.length_eq ▸ hend⟩
  | leftEnd hi hm =>
      have hlt := Program.lt_size_of_instruction?_eq_some hi
      exact ⟨rfl, hlt, hi, Tape.moveLeft?_eq_none_iff.mp hm⟩
  | unclosed hi hz hb =>
      have hlt := Program.lt_size_of_instruction?_eq_some hi
      refine ⟨rfl, hlt, hi, Tape.isZero_eq_true_iff.mp hz, ?_⟩
      intro h
      obtain ⟨j, hj⟩ := h
      have hfound := (scanForward_eq_some_iff hi).mpr hj
      rw [show scanForward p machine.pc = none from hb] at hfound
      cases hfound
  | unopened hi hz hb =>
      have hlt := Program.lt_size_of_instruction?_eq_some hi
      obtain ⟨v, hv⟩ := Tape.exists_value? (h.length_eq ▸ h.pointer_lt)
      refine ⟨rfl, hlt, hi, ⟨v, hv, ?_⟩, ?_⟩
      · intro h0
        have hzero := Tape.isZero_eq_true_iff.mpr (h0 ▸ hv)
        rw [hz] at hzero
        cases hzero
      · intro h
        obtain ⟨i, hj⟩ := h
        have hfound := (scanBackward_eq_some_iff hi).mpr hj
        rw [show scanBackward p machine.pc = none from hb] at hfound
        cases hfound

/-- Bracket faults are facts about the text, so balanced programs are free of them. -/
theorem Fault.Justified.outOfBounds (h : fault.Justified p tapeLength machine)
    (hp : Balanced p.toList) : ∃ position direction, fault = .outOfBounds position direction := by
  cases fault with
  | outOfBounds position direction => exact ⟨position, direction, rfl⟩
  | missingClosing position => exact (h.2.2 (exists_closing_of_balanced hp h.1)).elim
  | missingOpening position => exact (h.2.2 (exists_opening_of_balanced hp h.1)).elim

end

theorem tapeLength?_pos {x : Binary64} {n : Nat} (h : tapeLength? x = some n) : 0 < n := by
  obtain ⟨z, hz, rfl⟩ := Option.map_eq_some_iff.mp h
  have hpos : 0 < z := by simpa using (Option.filter_eq_some_iff.mp hz).2
  omega

/-- An execution has at least one cell. -/
theorem Settings.tapeLength_pos {settings : Settings} {options : Options}
    (h : settings.prepare host = .ok options) : 0 < options.tapeLength := by
  have hlength := (Settings.resolve_eq_ok_iff.mp (Settings.resolve_of_prepare h)).1
  unfold askedTapeLength at hlength
  split at hlength
  · rw [← Except.ok.inj hlength]
    decide
  · split at hlength
    · rw [← Except.ok.inj hlength]
      exact tapeLength?_pos ‹_›
    · cases hlength

namespace Execution

variable {ε σ : Type} {w : Nat} {streams : Streams (Effect ε σ)} {p : Program}

theorem Tick.inBounds {tapeLength : Nat} {c c' : Configuration w σ}
    (h : Tick streams p (.scanning p) c c') (hc : c.machine.InBounds p tapeLength) :
    c'.machine.InBounds p tapeLength := by
  cases h with
  | advance hstep => exact hc.step_advance hstep
  | write hstep _ => exact hc.step_write hstep
  | read hstep _ _ => exact hc.step_read hstep _

theorem Reaches.inBounds {settings : Settings} {options : Options} {n : Nat} {s : σ}
    {c : Configuration options.cellWidth.bits σ} (hoptions : settings.prepare host = .ok options)
    (h : Reaches streams p (options.brackets.matcher p) n (start options s) c) :
    c.machine.InBounds p options.tapeLength := by
  have hstart : (start options s).machine.InBounds p options.tapeLength :=
    Machine.inBounds_initial p (Settings.tapeLength_pos hoptions)
  exact ((reaches_matcher _).mp h).invariant (fun _ _ => Tick.inBounds) hstart

end Execution

end Brainfuck
