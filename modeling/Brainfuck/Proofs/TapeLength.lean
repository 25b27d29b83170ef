import Brainfuck.Proofs.Lockstep
import Brainfuck.Proofs.Reachability

/-!
# The length of the tape

A program meets the length of its tape in one place, a move to the right from the last
cell. As long as it makes no such move, it cannot tell its tape from a longer one: the two
agree on the cells of the shorter tape, and the cells behind have never been touched. Only
the move past the end of the shorter tape may come out differently.

A run that ends otherwise, or that never ends, is therefore the same on every longer tape that
the host makes, and so are its calls, the failing ones included. Not every length that
settings may ask for has a tape.
-/
namespace Brainfuck

open Brainfuck.Bracket

variable {host : Host}

namespace Tape

variable {w length length' : Nat} {t t' : Tape w}

/-- A tape and a longer one with the same cells and zeros behind them. The pointer of both
is on a cell that they share. -/
structure Extends (length length' : Nat) (t t' : Tape w) : Prop where
  length_le : length ≤ length'
  length_eq : t.length = length
  length_eq' : t'.length = length'
  pointer_lt : t.pointer < length
  pointer_eq : t'.pointer = t.pointer
  shared : ∀ i < length, t'.cells[i]? = t.cells[i]?
  untouched : ∀ i, length ≤ i → i < length' → t'.cells[i]? = some 0

theorem extends_blank (hpos : 0 < length) (hle : length ≤ length') :
    (blank w length).Extends length length' (blank w length') where
  length_le := hle
  length_eq := length_blank length
  length_eq' := length_blank length'
  pointer_lt := hpos
  pointer_eq := rfl
  shared i hi := by
    have hi' : i < length' := Nat.lt_of_lt_of_le hi hle
    simp [blank, hi, hi']
  untouched i _ hi := by simp [blank, hi]

theorem Extends.current?_eq (h : t.Extends length length' t') : t'.current? = t.current? := by
  unfold current?
  rw [h.pointer_eq]
  exact h.shared t.pointer h.pointer_lt

theorem Extends.isZero_eq (h : t.Extends length length' t') : t'.isZero = t.isZero := by
  unfold isZero
  rw [h.current?_eq]

/-- A change of the current cell is a change of a shared cell. -/
theorem Extends.modify (h : t.Extends length length' t') (f : BitVec w → BitVec w) :
    (t.modify f).Extends length length' (t'.modify f) where
  length_le := h.length_le
  length_eq := (length_modify f t).trans h.length_eq
  length_eq' := (length_modify f t').trans h.length_eq'
  pointer_lt := h.pointer_lt
  pointer_eq := h.pointer_eq
  shared i hi := by
    rw [getElem?_modify, getElem?_modify, h.pointer_eq, h.shared i hi]
  untouched i hi hi' := by
    have hne : t.pointer ≠ i := Nat.ne_of_lt (Nat.lt_of_lt_of_le h.pointer_lt hi)
    rw [getElem?_modify, h.pointer_eq, if_neg hne]
    exact h.untouched i hi hi'

/-- The pointers of both tapes on another shared cell. -/
theorem Extends.move (h : t.Extends length length' t') {pointer : Nat} (hlt : pointer < length) :
    (⟨t.cells, pointer⟩ : Tape w).Extends length length' ⟨t'.cells, pointer⟩ :=
  { h with pointer_lt := hlt, pointer_eq := rfl }

theorem Extends.moveLeft? (h : t.Extends length length' t') :
    Option.Rel (Extends length length') t.moveLeft? t'.moveLeft? := by
  apply rel_moveLeft? h.pointer_eq
  intro _
  exact h.move (Nat.lt_of_le_of_lt (Nat.sub_le _ 1) h.pointer_lt)

/-- Away from the end of the shorter tape both pointers move to the right. -/
theorem Extends.moveRight? (h : t.Extends length length' t') (hend : t.pointer + 1 ≠ length) :
    Option.Rel (Extends length length') t.moveRight? t'.moveRight? := by
  have hlt := h.pointer_lt
  have hle := h.length_le
  have hright := moveRight?_eq_some_iff.mpr ⟨h.length_eq ▸ hend, rfl⟩
  have hend' : t'.pointer + 1 ≠ t'.length := by
    rw [h.pointer_eq, h.length_eq']
    omega
  have hright' := moveRight?_eq_some_iff.mpr ⟨hend', rfl⟩
  rw [hright, hright', h.pointer_eq]
  exact .some (h.move (by omega))

theorem kept_extends : Kept (Extends (w := w) length length') where
  increment h := h.modify _
  decrement h := h.modify _
  store h _ := h.modify _
  moveLeft? h := h.moveLeft?
  outputByte h := by
    unfold outputByte
    rw [h.current?_eq]

end Tape

namespace Machine

variable {w length length' : Nat} {machine machine' : Machine w}

/-- The step is a move to the right from the last cell. -/
def LeavesRight (p : Program) (brackets : Matcher) (machine : Machine w) : Prop :=
  machine.step p brackets = .stop (.faulted (.outOfBounds machine.pc .right)) machine

theorem Beside.leavesRight_or_matches (h : machine.Beside (Tape.Extends length length') machine')
    (p : Program) (brackets : Matcher) :
    machine.LeavesRight p brackets ∨
      (machine.step p brackets).Matches (Beside (Tape.Extends length length')) id
        (machine'.step p brackets) := by
  by_cases hend : p.instruction? machine.pc = some .right ∧ machine.tape.pointer + 1 = length
  · have hmove : machine.tape.moveRight? = none :=
      Tape.moveRight?_eq_none_iff.mpr (hend.2.trans h.tape.length_eq.symm)
    exact .inl (Step.step_eq (.rightEnd hend.1 hmove))
  · refine .inr (h.step_matches Tape.kept_extends p brackets ?_ fun _ _ _ => h.tape.isZero_eq)
    intro hi
    exact h.tape.moveRight? fun hlast => hend ⟨hi, hlast⟩

end Machine

namespace Execution

variable {ε σ : Type} {w length length' : Nat}

/-- Within `n` steps the run moves past the right end of its tape. -/
def LeavesRight (streams : Streams (Effect ε σ)) (p : Program) (brackets : Matcher) (n : Nat)
    (c : Configuration w σ) : Prop :=
  ∃ position c', Halts streams p brackets n c (.faulted (.outOfBounds position .right)) c'

/-- Runs on a tape and on a longer one are in lockstep unless the shorter tape is left. -/
theorem leavesRight_or_lockstep (streams : Streams (Effect ε σ)) (p : Program)
    (brackets : Matcher) (hpos : 0 < length) (hle : length ≤ length') (n : Nat) (s : σ) :
    LeavesRight streams p brackets n ⟨Machine.initial (.blank w length), s⟩ ∨
      InLockstep (Machine.Beside (Tape.Extends length length')) id
        ((runFor streams p brackets n (Machine.initial (.blank w length))).runFrom s)
        ((runFor streams p brackets n (Machine.initial (.blank w length'))).runFrom s) := by
  have hinitial : (Machine.initial (.blank w length)).Beside (Tape.Extends length length')
      (Machine.initial (.blank w length')) := ⟨rfl, Tape.extends_blank hpos hle⟩
  have hrun := lockstep_or_parting streams (fun _ _ h => h.leavesRight_or_matches p brackets)
    hinitial n s
  refine hrun.imp_left fun hparting => ?_
  obtain ⟨k, hk, c, hreach, hstep⟩ := hparting
  have hlast : Halts streams p brackets 1 c _ c := halts_succ_iff.mpr (.inl ⟨hstep, rfl⟩)
  exact ⟨_, c, (hreach.halts hlast).mono hk⟩

/-- A run that leaves its tape does not return another verdict than that. -/
theorem LeavesRight.verdict_eq {streams : Streams (Effect ε σ)} {p : Program}
    {settings : Settings} {options : Options} (hoptions : settings.prepare host = .ok options)
    {n : Nat} {s s' : σ} {verdict : Verdict}
    (h : LeavesRight streams p (options.brackets.matcher p) n (start options s))
    (hreturns : (interpret host streams settings p n).runFrom s =
      (.ok (.ok (some verdict)), s')) :
    ∃ position, verdict = .faulted (.outOfBounds position .right) := by
  obtain ⟨position, c, hleaves⟩ := h
  obtain ⟨c', hhalts, _⟩ := (interpret_yields_iff hoptions).mp hreturns
  exact ⟨position, (hhalts.unique hleaves).1⟩

end Execution

/-- A longer tape makes no difference until the shorter one is left at its right end, provided
that the host makes both. After any number of steps the two runs are at the same position with
the same pointer and the same calls made, their tapes agree, and what the longer tape has in
addition is zero; or they have stopped or failed alike. Executions are the same then. An
execution that returns another verdict than leaving the tape on the right returns it on the
longer tape as well, with the same calls, and a run without an end has no end there. -/
theorem interpret_on_longer_tape {ε σ : Type} (streams : Streams (Effect ε σ)) (p : Program)
    (world : σ) {settings settings' : Settings} {options : Options} {length' : Nat}
    (hoptions : settings.prepare host = .ok options)
    (hoptions' : settings'.prepare host = .ok { options with tapeLength := length' })
    (hle : options.tapeLength ≤ length') :
    (∀ n, Execution.LeavesRight (Recorded.streams streams) p (options.brackets.matcher p) n
        (Execution.start options (.start world)) ∨
      InLockstep (Machine.Beside (Tape.Extends options.tapeLength length')) id
          ((Execution.runFor (Recorded.streams streams) p (options.brackets.matcher p) n
            (Machine.initial options.tape)).runFrom (.start world))
          ((Execution.runFor (Recorded.streams streams) p (options.brackets.matcher p) n
            (Machine.initial { options with tapeLength := length' }.tape)).runFrom
              (.start world)) ∧
        (interpret host (Recorded.streams streams) settings' p n).runFrom (.start world) =
          (interpret host (Recorded.streams streams) settings p n).runFrom (.start world)) ∧
    (∀ n verdict r,
      (interpret host (Recorded.streams streams) settings p n).runFrom (.start world) =
        (.ok (.ok (some verdict)), r) →
      (∀ position, verdict ≠ .faulted (.outOfBounds position .right)) →
      (interpret host (Recorded.streams streams) settings' p n).runFrom (.start world) =
        (.ok (.ok (some verdict)), r)) ∧
    ((∀ n, ∃ c, Execution.Reaches (Recorded.streams streams) p (options.brackets.matcher p) n
        (Execution.start options (.start world)) c) →
      ∀ n, ∃ c, Execution.Reaches (Recorded.streams streams) p (options.brackets.matcher p) n
        (Execution.start { options with tapeLength := length' } (.start world)) c) := by
  have hpos := Settings.tapeLength_pos hoptions
  have hrun := fun n => Execution.leavesRight_or_lockstep (w := options.cellWidth.bits)
    (Recorded.streams streams) p (options.brackets.matcher p) hpos hle n (.start world)
  refine ⟨?_, ?_, ?_⟩
  · intro n
    refine (hrun n).imp_right fun hlockstep => ⟨hlockstep, ?_⟩
    exact Execution.interpret_of_lockstep hoptions hoptions' hlockstep
  · intro n verdict r hreturns hother
    rcases hrun n with hleaves | hlockstep
    · obtain ⟨position, hverdict⟩ := hleaves.verdict_eq hoptions hreturns
      exact absurd hverdict (hother position)
    · rw [Execution.interpret_of_lockstep hoptions hoptions' hlockstep, hreturns]
  · intro hendless n
    obtain ⟨c, hreach⟩ := hendless n
    rcases hrun n with hleaves | hlockstep
    · -- A run that halts within `n` steps is not still going after them.
      obtain ⟨_, c', hhalts⟩ := hleaves
      exact nomatch hreach.symm.trans hhalts
    · exact (Execution.exists_reaches_iff_of_lockstep hlockstep).mp ⟨c, hreach⟩

/-- The pointer goes to the last of two cells and back, and leaves the tape on the left. -/
theorem longer_tape_of_left_fault :
    (Settings.empty.withTapeLength 2).prepare (.upTo 1024) = .ok ⟨2, .bits32, .scan⟩ ∧
      (Settings.empty.withTapeLength 5).prepare (.upTo 1024) = .ok ⟨5, .bits32, .scan⟩ ∧
      ∃ r, (interpret (.upTo 1024) (Recorded.streams (Script.streams { flushes := true } {}))
          (Settings.empty.withTapeLength 2) (Program.ofBytes [0x3E, 0x2B, 0x2E, 0x3C, 0x3C])
            8).runFrom (.start (.ofInput [])) =
          (.ok (.ok (some (.faulted (.outOfBounds 4 .left)))), r) ∧
        (interpret (.upTo 1024) (Recorded.streams (Script.streams { flushes := true } {}))
          (Settings.empty.withTapeLength 5) (Program.ofBytes [0x3E, 0x2B, 0x2E, 0x3C, 0x3C])
            8).runFrom (.start (.ofInput [])) =
          (.ok (.ok (some (.faulted (.outOfBounds 4 .left)))), r) := by
  have hshort : (Settings.empty.withTapeLength 2).prepare (.upTo 1024) =
      .ok ⟨2, .bits32, .scan⟩ := rfl
  have hlong : (Settings.empty.withTapeLength 5).prepare (.upTo 1024) =
      .ok ⟨5, .bits32, .scan⟩ := rfl
  have hlonger := interpret_on_longer_tape (Script.streams { flushes := true } {})
    (Program.ofBytes [0x3E, 0x2B, 0x2E, 0x3C, 0x3C]) (.ofInput []) hshort hlong (by decide)
  exact ⟨hshort, hlong, _, rfl, hlonger.2.1 8 (.faulted (.outOfBounds 4 .left)) _ rfl (by simp)⟩

/-- The longest tape that settings can ask for is not made, however much memory there is: the
empty program completes on one cell and does not start on that many. -/
theorem longest_tape_refused :
    let host : Host := ⟨fun _ => true⟩
    let streams := Recorded.streams (Script.streams { flushes := true } {})
    let short := Settings.empty.withTapeLength 1
    let long := Settings.empty.withTapeLength 9007199254740991
    short.resolve = .ok ⟨1, .bits32, .scan⟩ ∧
      long.resolve = .ok ⟨9007199254740991, .bits32, .scan⟩ ∧
      (∃ r, (interpret host streams short (Program.ofBytes []) 1).runFrom
        (.start (.ofInput [])) = (.ok (.ok (some .completed)), r)) ∧
      (interpret host streams long (Program.ofBytes []) 1).runFrom (.start (.ofInput [])) =
        (.ok (.error (.tape (.invalidLength 9007199254740991))), .start (.ofInput [])) :=
  ⟨rfl, rfl, ⟨_, rfl⟩, rfl⟩

end Brainfuck
