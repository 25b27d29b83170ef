import Brainfuck.Machine

/-!
# The rules of a step

The step function as a list of rules, one for each thing that a step can do, with the
condition under which it does it. The rules are exactly the function, so a proof can look
up a rule to compute a step, and take a step apart by cases on the rule that gave it.
-/
namespace Brainfuck

open Brainfuck.Bracket (Matcher)

namespace Machine

variable {w : Nat}

/-- What a step asks for, rule by rule. -/
inductive Step (p : Program) (brackets : Matcher) (machine : Machine w) : Action w → Prop
  | done : p.size ≤ machine.pc → Step p brackets machine (.stop .completed machine)
  | inert : machine.pc < p.size → p.instruction? machine.pc = none →
      Step p brackets machine (.advance ⟨machine.pc + 1, machine.tape⟩)
  | right {tape : Tape w} : p.instruction? machine.pc = some .right →
      machine.tape.moveRight? = some tape →
      Step p brackets machine (.advance ⟨machine.pc + 1, tape⟩)
  | rightEnd : p.instruction? machine.pc = some .right → machine.tape.moveRight? = none →
      Step p brackets machine (.stop (.faulted (.outOfBounds machine.pc .right)) machine)
  | left {tape : Tape w} : p.instruction? machine.pc = some .left →
      machine.tape.moveLeft? = some tape →
      Step p brackets machine (.advance ⟨machine.pc + 1, tape⟩)
  | leftEnd : p.instruction? machine.pc = some .left → machine.tape.moveLeft? = none →
      Step p brackets machine (.stop (.faulted (.outOfBounds machine.pc .left)) machine)
  | increment : p.instruction? machine.pc = some .increment →
      Step p brackets machine (.advance ⟨machine.pc + 1, machine.tape.increment⟩)
  | decrement : p.instruction? machine.pc = some .decrement →
      Step p brackets machine (.advance ⟨machine.pc + 1, machine.tape.decrement⟩)
  | output : p.instruction? machine.pc = some .output →
      Step p brackets machine (.write machine.tape.outputByte ⟨machine.pc + 1, machine.tape⟩)
  | input : p.instruction? machine.pc = some .input →
      Step p brackets machine (.read ⟨machine.pc + 1, machine.tape⟩)
  | enter : p.instruction? machine.pc = some .opening → machine.tape.isZero = false →
      Step p brackets machine (.advance ⟨machine.pc + 1, machine.tape⟩)
  | skip {partner : Nat} : p.instruction? machine.pc = some .opening →
      machine.tape.isZero = true → brackets.closing machine.pc = some partner →
      Step p brackets machine (.advance ⟨partner + 1, machine.tape⟩)
  | unclosed : p.instruction? machine.pc = some .opening → machine.tape.isZero = true →
      brackets.closing machine.pc = none →
      Step p brackets machine (.stop (.faulted (.missingClosing machine.pc)) machine)
  | leave : p.instruction? machine.pc = some .closing → machine.tape.isZero = true →
      Step p brackets machine (.advance ⟨machine.pc + 1, machine.tape⟩)
  | again {partner : Nat} : p.instruction? machine.pc = some .closing →
      machine.tape.isZero = false → brackets.opening machine.pc = some partner →
      Step p brackets machine (.advance ⟨partner + 1, machine.tape⟩)
  | unopened : p.instruction? machine.pc = some .closing → machine.tape.isZero = false →
      brackets.opening machine.pc = none →
      Step p brackets machine (.stop (.faulted (.missingOpening machine.pc)) machine)

variable {p : Program} {brackets : Matcher} {machine : Machine w}

theorem step_rule (p : Program) (brackets : Matcher) (machine : Machine w) :
    Step p brackets machine (machine.step p brackets) := by
  cases hi : p.instruction? machine.pc with
  | none =>
      by_cases hpc : machine.pc < p.size
      · rw [step_of_inert hpc hi]
        exact .inert hpc hi
      · rw [step_of_size_le (Nat.le_of_not_lt hpc)]
        exact .done (Nat.le_of_not_lt hpc)
  | some instruction =>
      rw [step_of_instruction hi]
      cases instruction with
      | right =>
          unfold perform
          cases hm : machine.tape.moveRight? with
          | some tape => exact .right hi hm
          | none => exact .rightEnd hi hm
      | left =>
          unfold perform
          cases hm : machine.tape.moveLeft? with
          | some tape => exact .left hi hm
          | none => exact .leftEnd hi hm
      | increment => exact .increment hi
      | decrement => exact .decrement hi
      | output => exact .output hi
      | input => exact .input hi
      | opening =>
          unfold perform
          cases hz : machine.tape.isZero with
          | false => exact .enter hi hz
          | true =>
              cases hb : brackets.closing machine.pc with
              | some partner => exact .skip hi hz hb
              | none => exact .unclosed hi hz hb
      | closing =>
          unfold perform
          cases hz : machine.tape.isZero with
          | true => exact .leave hi hz
          | false =>
              cases hb : brackets.opening machine.pc with
              | some partner => exact .again hi hz hb
              | none => exact .unopened hi hz hb

theorem Step.step_eq {action : Action w} (h : Step p brackets machine action) :
    machine.step p brackets = action := by
  cases h with
  | done hpc => exact step_of_size_le hpc
  | inert hpc hi => exact step_of_inert hpc hi
  | right hi hm => rw [step_of_instruction hi]; simp only [perform, hm]
  | rightEnd hi hm => rw [step_of_instruction hi]; simp only [perform, hm]
  | left hi hm => rw [step_of_instruction hi]; simp only [perform, hm]
  | leftEnd hi hm => rw [step_of_instruction hi]; simp only [perform, hm]
  | increment hi => rw [step_of_instruction hi]; rfl
  | decrement hi => rw [step_of_instruction hi]; rfl
  | output hi => rw [step_of_instruction hi]; rfl
  | input hi => rw [step_of_instruction hi]; rfl
  | enter hi hz => rw [step_of_instruction hi]; simp [perform, hz]
  | skip hi hz hb => rw [step_of_instruction hi]; simp [perform, hz, hb]
  | unclosed hi hz hb => rw [step_of_instruction hi]; simp [perform, hz, hb]
  | leave hi hz => rw [step_of_instruction hi]; simp [perform, hz]
  | again hi hz hb => rw [step_of_instruction hi]; simp [perform, hz, hb]
  | unopened hi hz hb => rw [step_of_instruction hi]; simp [perform, hz, hb]

/-- The rules are the step function. -/
theorem step_eq_iff {action : Action w} :
    machine.step p brackets = action ↔ Step p brackets machine action :=
  ⟨fun h => h ▸ step_rule p brackets machine, Step.step_eq⟩

/-- A stopping step keeps the machine. -/
theorem final_of_step {verdict : Verdict} {final : Machine w}
    (h : machine.step p brackets = .stop verdict final) : final = machine := by
  cases step_eq_iff.mp h <;> rfl

end Machine

end Brainfuck
