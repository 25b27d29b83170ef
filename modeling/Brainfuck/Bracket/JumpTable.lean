import Brainfuck.Program

/-!
# Jump tables

One pass over the program pairs the brackets with a stack of the openings still waiting.
The state after the first `n` octets is a fold over the positions below `n`, so facts
about the table go by induction on `n`. A closing bracket that finds the stack empty stays
without a partner, and so do the openings left at the end.
-/
namespace Brainfuck.Bracket

/-- The partner of each position, where it has one. -/
abbrev JumpTable := Array (Option Nat)

/-- The table under construction and the unmatched openings, the latest first. -/
structure Pairing where
  table : JumpTable
  waiting : List Nat
  deriving Repr

namespace Pairing

def initial (p : Program) : Pairing := ⟨Array.replicate p.size none, []⟩

/-- Takes the octet at `pc` into account. -/
def step (p : Program) (pairing : Pairing) (pc : Nat) : Pairing :=
  match p.instruction? pc with
  | some .opening => { pairing with waiting := pc :: pairing.waiting }
  | some .closing =>
    match pairing with
    | ⟨table, []⟩ => ⟨table, []⟩
    | ⟨table, start :: waiting⟩ =>
      ⟨(table.setIfInBounds start (some pc)).setIfInBounds pc (some start), waiting⟩
  | _ => pairing

/-- The pairing after the first `n` octets. -/
def after (p : Program) (n : Nat) : Pairing :=
  n.fold (fun pc _ pairing => step p pairing pc) (initial p)

@[simp] theorem after_zero (p : Program) : after p 0 = initial p := rfl

theorem after_succ (p : Program) (n : Nat) : after p (n + 1) = step p (after p n) n := rfl

theorem size_table_step (p : Program) (pairing : Pairing) (pc : Nat) :
    (step p pairing pc).table.size = pairing.table.size := by
  obtain ⟨table, waiting⟩ := pairing
  unfold step
  split
  · rfl
  · cases waiting with
    | nil => rfl
    | cons start waiting => simp
  · rfl

theorem size_table_after (p : Program) (n : Nat) : (after p n).table.size = p.size := by
  induction n with
  | zero => simp [initial]
  | succ n ih => rw [after_succ, size_table_step, ih]

end Pairing

def JumpTable.build (p : Program) : JumpTable := (Pairing.after p p.size).table

@[simp] theorem JumpTable.size_build (p : Program) : (JumpTable.build p).size = p.size :=
  Pairing.size_table_after p p.size

/-- The partner of a position; positions outside the table have none. -/
def JumpTable.partner? (table : JumpTable) (origin : Int) : Option Nat :=
  if 0 ≤ origin then table[origin.toNat]?.join else none

end Brainfuck.Bracket
