import Brainfuck.Program

/-!
# Scanning for a partner

A scan walks from a bracket towards the end, or towards the start, of the program and
counts how many brackets of its own kind are still open. It needs no preparation and
visits only the octets up to the partner.

The origin is an integer and need not be a bracket: positions outside the program are
inert, so a scan from a negative origin starts at the first octet and one from past the
end starts at the last.
-/
namespace Brainfuck.Bracket

/-- Searches forward from `pc` for the closing bracket that leaves `depth` nested loops. -/
def scanForwardFrom (p : Program) (depth pc : Nat) : Option Nat :=
  if pc < p.size then
    match p.instruction? pc with
    | some .opening => scanForwardFrom p (depth + 1) (pc + 1)
    | some .closing =>
      match depth with
      | 0 => some pc
      | depth + 1 => scanForwardFrom p depth (pc + 1)
    | _ => scanForwardFrom p depth (pc + 1)
  else none
termination_by p.size - pc

/-- Searches backward below `pc` for the opening bracket that leaves `depth` nested loops. -/
def scanBackwardFrom (p : Program) : (depth pc : Nat) → Option Nat
  | _, 0 => none
  | depth, pc + 1 =>
    match p.instruction? pc with
    | some .closing => scanBackwardFrom p (depth + 1) pc
    | some .opening =>
      match depth with
      | 0 => some pc
      | depth + 1 => scanBackwardFrom p depth pc
    | _ => scanBackwardFrom p depth pc

section
variable {p : Program} {pc : Nat}

theorem scanForwardFrom_end (depth : Nat) (h : p.size ≤ pc) :
    scanForwardFrom p depth pc = none := by
  unfold scanForwardFrom
  exact if_neg (Nat.not_lt.mpr h)

theorem scanForwardFrom_opening (depth : Nat) (h : p.instruction? pc = some .opening) :
    scanForwardFrom p depth pc = scanForwardFrom p (depth + 1) (pc + 1) := by
  rw [scanForwardFrom.eq_def p depth pc, if_pos (Program.lt_size_of_instruction?_eq_some h), h]

theorem scanForwardFrom_closing_zero (h : p.instruction? pc = some .closing) :
    scanForwardFrom p 0 pc = some pc := by
  rw [scanForwardFrom.eq_def, if_pos (Program.lt_size_of_instruction?_eq_some h), h]

theorem scanForwardFrom_closing_succ (depth : Nat) (h : p.instruction? pc = some .closing) :
    scanForwardFrom p (depth + 1) pc = scanForwardFrom p depth (pc + 1) := by
  rw [scanForwardFrom.eq_def p (depth + 1) pc,
    if_pos (Program.lt_size_of_instruction?_eq_some h), h]

theorem scanForwardFrom_other (depth : Nat) (ho : p.instruction? pc ≠ some .opening)
    (hc : p.instruction? pc ≠ some .closing) :
    scanForwardFrom p depth pc = scanForwardFrom p depth (pc + 1) := by
  by_cases hpc : pc < p.size
  · rw [scanForwardFrom.eq_def p depth pc, if_pos hpc]
    split
    · exact (ho ‹_›).elim
    · exact (hc ‹_›).elim
    · rfl
  · rw [scanForwardFrom_end depth (by omega), scanForwardFrom_end depth (by omega)]

@[simp] theorem scanBackwardFrom_zero (depth : Nat) : scanBackwardFrom p depth 0 = none := by
  simp [scanBackwardFrom]

theorem scanBackwardFrom_closing (depth : Nat) (h : p.instruction? pc = some .closing) :
    scanBackwardFrom p depth (pc + 1) = scanBackwardFrom p (depth + 1) pc := by
  simp [scanBackwardFrom, h]

theorem scanBackwardFrom_opening_zero (h : p.instruction? pc = some .opening) :
    scanBackwardFrom p 0 (pc + 1) = some pc := by
  simp [scanBackwardFrom, h]

theorem scanBackwardFrom_opening_succ (depth : Nat) (h : p.instruction? pc = some .opening) :
    scanBackwardFrom p (depth + 1) (pc + 1) = scanBackwardFrom p depth pc := by
  simp [scanBackwardFrom, h]

theorem scanBackwardFrom_other (depth : Nat) (ho : p.instruction? pc ≠ some .opening)
    (hc : p.instruction? pc ≠ some .closing) :
    scanBackwardFrom p depth (pc + 1) = scanBackwardFrom p depth pc := by
  rw [scanBackwardFrom.eq_def]
  dsimp only
  split
  · exact (hc ‹_›).elim
  · exact (ho ‹_›).elim
  · rfl

end

/-- The closing bracket that matches an opening bracket at `origin`. -/
def scanForward (p : Program) (origin : Int) : Option Nat :=
  scanForwardFrom p 0 (origin + 1).toNat

/-- The opening bracket that matches a closing bracket at `origin`. -/
def scanBackward (p : Program) (origin : Int) : Option Nat :=
  scanBackwardFrom p 0 (min origin p.size).toNat

theorem scanForward_natCast (p : Program) (pc : Nat) :
    scanForward p pc = scanForwardFrom p 0 (pc + 1) := by
  simp [scanForward, show ((pc : Int) + 1).toNat = pc + 1 by omega]

theorem scanBackward_natCast {p : Program} {pc : Nat} (h : pc ≤ p.size) :
    scanBackward p pc = scanBackwardFrom p 0 pc := by
  simp [scanBackward, show (min (pc : Int) p.size).toNat = pc by omega]

end Brainfuck.Bracket
