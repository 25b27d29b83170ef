import Brainfuck.Proofs.Nesting
import Brainfuck.Proofs.Recording
import Brainfuck.Proofs.Simulation
import Mathlib.Data.Nat.Count

/-!
# Backward jumps

A step leads to a later octet unless it is a backward jump, which a closing bracket on a
nonzero cell takes to its partner. Between two backward jumps the program counter only grows,
so it meets the end of the program after at most as many steps as there are octets. A run that
takes at most `k` backward jumps is therefore over after `k + 1` such passes, whatever its
streams do, and a program without partners makes one pass.

The search for a partner is itself a loop. Cut off after one round more than there are octets,
it has always found its answer.
-/
namespace Brainfuck

open Brainfuck.Bracket

variable {host : Host}

namespace Bracket

/-- A forward search that is cut off after so many rounds; `none` if it is still going. -/
def scanForwardWithin (p : Program) : (rounds depth pc : Nat) → Option (Option Nat)
  | 0, _, _ => none
  | rounds + 1, depth, pc =>
    if pc < p.size then
      match p.instruction? pc with
      | some .opening => scanForwardWithin p rounds (depth + 1) (pc + 1)
      | some .closing =>
        match depth with
        | 0 => some (some pc)
        | depth + 1 => scanForwardWithin p rounds depth (pc + 1)
      | _ => scanForwardWithin p rounds depth (pc + 1)
    else some none

/-- A backward search that is cut off after so many rounds; `none` if it is still going. -/
def scanBackwardWithin (p : Program) : (rounds depth pc : Nat) → Option (Option Nat)
  | 0, _, _ => none
  | _ + 1, _, 0 => some none
  | rounds + 1, depth, pc + 1 =>
    match p.instruction? pc with
    | some .closing => scanBackwardWithin p rounds (depth + 1) pc
    | some .opening =>
      match depth with
      | 0 => some (some pc)
      | depth + 1 => scanBackwardWithin p rounds depth pc
    | _ => scanBackwardWithin p rounds depth pc

theorem scanForwardWithin_eq {p : Program} {rounds pc : Nat} (h : p.size - pc < rounds)
    (depth : Nat) :
    scanForwardWithin p rounds depth pc = some (scanForwardFrom p depth pc) := by
  induction rounds generalizing depth pc with
  | zero => exact absurd h (Nat.not_lt_zero _)
  | succ rounds ih =>
      rw [scanForwardWithin.eq_def]
      dsimp only
      by_cases hpc : pc < p.size
      · have hnext : p.size - (pc + 1) < rounds := by omega
        rw [if_pos hpc]
        split
        · rw [scanForwardFrom_opening depth ‹_›]
          exact ih hnext (depth + 1)
        · cases depth with
          | zero => rw [scanForwardFrom_closing_zero ‹_›]
          | succ depth =>
              rw [scanForwardFrom_closing_succ depth ‹_›]
              exact ih hnext depth
        · rw [scanForwardFrom_other depth ‹_› ‹_›]
          exact ih hnext depth
      · rw [if_neg hpc, scanForwardFrom_end depth (Nat.le_of_not_lt hpc)]

theorem scanBackwardWithin_eq {p : Program} {rounds pc : Nat} (h : pc < rounds) (depth : Nat) :
    scanBackwardWithin p rounds depth pc = some (scanBackwardFrom p depth pc) := by
  induction rounds generalizing depth pc with
  | zero => exact absurd h (Nat.not_lt_zero pc)
  | succ rounds ih =>
      cases pc with
      | zero => rw [scanBackwardWithin, scanBackwardFrom_zero]
      | succ pc =>
          have hnext : pc < rounds := Nat.lt_of_succ_lt_succ h
          rw [scanBackwardWithin.eq_def]
          dsimp only
          split
          · rw [scanBackwardFrom_closing depth ‹_›]
            exact ih hnext (depth + 1)
          · cases depth with
            | zero => rw [scanBackwardFrom_opening_zero ‹_›]
            | succ depth =>
                rw [scanBackwardFrom_opening_succ depth ‹_›]
                exact ih hnext depth
          · rw [scanBackwardFrom_other depth ‹_› ‹_›]
            exact ih hnext depth

end Bracket

namespace Machine

variable {w : Nat}

/-- Whether the next step is a backward jump: that of a closing bracket on a nonzero cell to
its partner. -/
def jumpsBack (p : Program) (brackets : Matcher) (machine : Machine w) : Bool :=
  p.instruction? machine.pc == some .closing && !machine.tape.isZero &&
    (brackets.opening machine.pc).isSome

/-- The jumps of a machine: from an opening bracket on a zero cell forward to its partner, and
from a closing bracket on a nonzero cell backward to its partner. -/
inductive Jumps (p : Program) (machine : Machine w) (target : Nat) : Prop
  | forward : machine.tape.isZero = true → Partners p machine.pc target → Jumps p machine target
  | backward : machine.tape.isZero = false → Partners p target machine.pc → Jumps p machine target

variable {p : Program} {strategy : Strategy} {machine next : Machine w} {target : Nat}

theorem jumpsBack_iff {brackets : Matcher} : machine.jumpsBack p brackets = true ↔
    p.instruction? machine.pc = some .closing ∧ machine.tape.isZero = false ∧
      ∃ partner, brackets.opening machine.pc = some partner := by
  simp [jumpsBack, Option.isSome_iff_exists, and_assoc]

/-- Backward jumps are taken between partners. -/
theorem jumpsBack_matcher_iff : machine.jumpsBack p (strategy.matcher p) = true ↔
    machine.tape.isZero = false ∧ ∃ target, Partners p target machine.pc := by
  rw [jumpsBack_iff]
  constructor
  · intro h
    obtain ⟨hi, hz, target, htarget⟩ := h
    rw [strategy.opening_matcher hi] at htarget
    exact ⟨hz, target, (scanBackward_eq_some_iff hi).mp htarget⟩
  · intro h
    obtain ⟨hz, target, hpartners⟩ := h
    refine ⟨hpartners.closing, hz, target, ?_⟩
    rw [strategy.opening_matcher hpartners.closing]
    exact (scanBackward_eq_some_iff hpartners.closing).mpr hpartners

/-- A step that asks nothing of the streams goes on to the next octet, or it jumps. -/
theorem next_or_jumps (h : machine.step p (strategy.matcher p) = .advance next) :
    (machine.pc < p.size ∧ next.pc = machine.pc + 1) ∨
      ∃ target, next = ⟨target + 1, machine.tape⟩ ∧ machine.Jumps p target := by
  cases step_eq_iff.mp h with
  | inert hpc _ => exact .inl ⟨hpc, rfl⟩
  | right hi _ => exact .inl ⟨Program.lt_size_of_instruction?_eq_some hi, rfl⟩
  | left hi _ => exact .inl ⟨Program.lt_size_of_instruction?_eq_some hi, rfl⟩
  | increment hi => exact .inl ⟨Program.lt_size_of_instruction?_eq_some hi, rfl⟩
  | decrement hi => exact .inl ⟨Program.lt_size_of_instruction?_eq_some hi, rfl⟩
  | enter hi _ => exact .inl ⟨Program.lt_size_of_instruction?_eq_some hi, rfl⟩
  | leave hi _ => exact .inl ⟨Program.lt_size_of_instruction?_eq_some hi, rfl⟩
  | @skip partner hi hz hb =>
      rw [strategy.closing_matcher hi] at hb
      exact .inr ⟨partner, rfl, .forward hz ((scanForward_eq_some_iff hi).mp hb)⟩
  | @again partner hi hz hb =>
      rw [strategy.opening_matcher hi] at hb
      exact .inr ⟨partner, rfl, .backward hz ((scanBackward_eq_some_iff hi).mp hb)⟩

end Machine

namespace Execution

variable {ε σ : Type} {w : Nat}

/-- The machine after exactly so many steps of a run, unless the run is over by then. -/
def machineAfter (streams : Streams (Effect ε σ)) (p : Program) (brackets : Matcher)
    (c : Configuration w σ) (n : Nat) : Option (Machine w) :=
  match (runFor streams p brackets n c.machine).runFrom c.world with
  | (.ok (.running machine), _) => some machine
  | _ => none

/-- How many of the first steps of a run start from a machine that passes a test. -/
def stepsFrom (test : Machine w → Bool) (streams : Streams (Effect ε σ)) (p : Program)
    (brackets : Matcher) (c : Configuration w σ) (n : Nat) : Nat :=
  Nat.count (fun i => (machineAfter streams p brackets c i).any test = true) n

/-- How many octets the first steps of a run dispatch. -/
def dispatched (streams : Streams (Effect ε σ)) (p : Program) (brackets : Matcher)
    (c : Configuration w σ) (n : Nat) : Nat :=
  stepsFrom (fun machine => decide (machine.pc < p.size)) streams p brackets c n

/-- How many of the first steps of a run are backward jumps. -/
def backwardJumps (streams : Streams (Effect ε σ)) (p : Program) (brackets : Matcher)
    (c : Configuration w σ) (n : Nat) : Nat :=
  stepsFrom (Machine.jumpsBack p brackets) streams p brackets c n

section
variable {streams : Streams (Effect ε σ)} {p : Program} {brackets : Matcher}
variable {c c₁ c' : Configuration w σ} {n : Nat}

theorem machineAfter_eq_some_iff {machine : Machine w} :
    machineAfter streams p brackets c n = some machine ↔
      ∃ s, Reaches streams p brackets n c ⟨machine, s⟩ := by
  unfold machineAfter Reaches
  split
  · simp_all
  · simp_all

/-- A run that is over stays so. -/
theorem machineAfter_add (h : machineAfter streams p brackets c n = none) (k : Nat) :
    machineAfter streams p brackets c (n + k) = none := by
  unfold machineAfter at h ⊢
  rw [runFor_add, Effect.runFrom_bind]
  rcases hrun : (runFor streams p brackets n c.machine).runFrom c.world with
    ⟨error | progress, s⟩
  · rfl
  · rw [hrun] at h
    cases progress with
    | running machine => cases h
    | stopped verdict final => rfl

/-- Behind a tick a run goes on from the configuration that it leads to. -/
theorem Tick.machineAfter_succ (h : Tick streams p brackets c c₁) (n : Nat) :
    machineAfter streams p brackets c (n + 1) = machineAfter streams p brackets c₁ n := by
  unfold machineAfter
  cases h with
  | advance hstep => simp only [runFor, hstep]
  | write hstep hwrite => simp only [runFor, hstep, Effect.runFrom_bind, hwrite]
  | read hstep hflush hread => simp only [runFor, hstep, Effect.runFrom_bind, hflush, hread]

theorem Tick.stepsFrom_succ (h : Tick streams p brackets c c₁) (test : Machine w → Bool) (n : Nat) :
    stepsFrom test streams p brackets c (n + 1) =
      stepsFrom test streams p brackets c₁ n + if test c.machine = true then 1 else 0 := by
  have hfirst : machineAfter streams p brackets c 0 = some c.machine :=
    machineAfter_eq_some_iff.mpr ⟨c.world, reaches_zero_iff.mpr rfl⟩
  unfold stepsFrom
  simp only [Nat.count_succ', h.machineAfter_succ, hfirst, Option.any_some]

/-- Steps that start before a given number are no more than that. -/
theorem stepsFrom_le {test : Machine w → Bool} {bound : Nat}
    (h : ∀ i c', Reaches streams p brackets i c c' → test c'.machine = true → i < bound)
    (n : Nat) : stepsFrom test streams p brackets c n ≤ bound := by
  induction n with
  | zero => exact Nat.zero_le bound
  | succ n ih =>
      unfold stepsFrom at ih ⊢
      rw [Nat.count_succ]
      split
      · rename_i htest
        obtain ⟨machine, hmachine, htest⟩ := (Option.any_eq_true _ _).mp htest
        obtain ⟨s, hreach⟩ := machineAfter_eq_some_iff.mp hmachine
        exact (Nat.succ_le_succ (Nat.count_le _)).trans (h n _ hreach htest)
      · exact ih

end

section
variable {streams : Streams (Effect ε σ)} {p : Program} {strategy : Strategy}
variable {c c' : Configuration w σ} {n : Nat}

/-- A step brings the counter nearer to the end of the program. A backward jump takes it away
from the end by less than the size of the program. -/
theorem Tick.descends (h : Tick streams p (strategy.matcher p) c c') :
    1 + (p.size - c'.machine.pc) ≤ (p.size - c.machine.pc) +
      if c.machine.jumpsBack p (strategy.matcher p) = true then p.size else 0 := by
  cases h with
  | @advance machine next _ hstep =>
      dsimp only
      rcases Machine.next_or_jumps hstep with ⟨hpc, hnext⟩ | ⟨target, rfl, hjumps⟩
      · omega
      · cases hjumps with
        | forward _ hpartners =>
            have hlt := hpartners.lt
            have hsize := Program.lt_size_of_instruction?_eq_some hpartners.closing
            dsimp only
            omega
        | backward hz hpartners =>
            have hsize := Program.lt_size_of_instruction?_eq_some hpartners.closing
            rw [if_pos (Machine.jumpsBack_matcher_iff.mpr ⟨hz, target, hpartners⟩)]
            dsimp only
            omega
  | write hstep _ =>
      cases Machine.step_eq_iff.mp hstep with
      | output hi =>
          have hsize := Program.lt_size_of_instruction?_eq_some hi
          dsimp only
          omega
  | read hstep _ _ =>
      cases Machine.step_eq_iff.mp hstep with
      | input hi =>
          have hsize := Program.lt_size_of_instruction?_eq_some hi
          dsimp only [Machine.supply]
          omega

/-- The steps of a run and the octets still ahead of it are covered by its passes. -/
theorem Reaches.descends (h : Reaches streams p (strategy.matcher p) n c c') :
    n + (p.size - c'.machine.pc) ≤ (p.size - c.machine.pc) +
      backwardJumps streams p (strategy.matcher p) c n * p.size := by
  induction n generalizing c with
  | zero =>
      obtain rfl := reaches_zero_iff.mp h
      omega
  | succ n ih =>
      obtain ⟨c₁, htick, h⟩ := reaches_succ_iff.mp h
      have hstep := htick.descends
      have hrest := ih h
      unfold backwardJumps at hrest ⊢
      rw [htick.stepsFrom_succ, Nat.add_mul]
      split at hstep
      · rw [if_pos ‹_›, Nat.one_mul]
        omega
      · rw [if_neg ‹_›, Nat.zero_mul]
        omega

end

/-- An execution is over after so many steps: its run has stopped, or a call on the streams has
failed. What it returns and leaves behind is then the same for every larger budget, and it
returns a verdict if no call can fail. -/
structure EndsWithin (host : Host) (streams : Streams (Effect ε σ)) (settings : Settings)
    (options : Options) (p : Program) (s : σ) (bound : Nat) : Prop where
  unreached : ∀ n c, bound < n →
    ¬ Reaches streams p (options.brackets.matcher p) n (start options s) c
  settled : ∀ n, bound < n → (interpret host streams settings p n).runFrom s =
    (interpret host streams settings p (bound + 1)).runFrom s
  verdict : streams.NeverFails → ∃ verdict s',
    (interpret host streams settings p (bound + 1)).runFrom s = (.ok (.ok (some verdict)), s')

section
variable {streams : Streams (Effect ε σ)} {settings : Settings} {options : Options}
variable {p : Program} {s : σ} {bound : Nat}

/-- A run that is no longer going has ended its attempt, with a verdict or an error. -/
theorem attempt_ne_none
    (h : ∀ c, ¬ Reaches streams p (options.brackets.matcher p) bound (start options s) c) :
    ((attempt streams options p bound).runFrom s).1 ≠ .ok none := by
  rcases hrun : (runFor streams p (options.brackets.matcher p) bound
    (Machine.initial options.tape)).runFrom s with
    ⟨error | progress, s₁⟩
  · rw [runFrom_attempt hrun]
    simp
  · rw [runFrom_attempt hrun]
    cases progress with
    | running machine => exact absurd hrun (h ⟨machine, s₁⟩)
    | stopped verdict final =>
        cases verdict with
        | completed => simp [conclude]
        | faulted fault =>
            simp only [conclude, Effect.runFrom_bind]
            rcases (report streams fault).runFrom s₁ with ⟨error | _, s₂⟩ <;> simp

theorem endsWithin_of_unreached (hoptions : settings.prepare host = .ok options)
    (h : ∀ n c, bound < n →
      ¬ Reaches streams p (options.brackets.matcher p) n (start options s) c) :
    EndsWithin host streams settings options p s bound where
  unreached := h
  settled n hn := by
    obtain ⟨k, rfl⟩ : ∃ k, n = bound + 1 + k := ⟨n - (bound + 1), by omega⟩
    have hended := attempt_ne_none fun c => h (bound + 1) c (Nat.lt_succ_self bound)
    have hattempt := attempt_add hended k
    rw [runFrom_interpret streams hoptions, runFrom_interpret streams hoptions, hattempt]
  verdict hstreams := by
    rcases reaches_or_halts hstreams p (options.brackets.matcher p) (bound + 1)
      (start options s) with ⟨c, hreach⟩ | ⟨verdict, c, hhalts⟩
    · exact absurd hreach (h (bound + 1) c (Nat.lt_succ_self bound))
    · obtain ⟨s', hclose⟩ := exists_closing hstreams verdict c.world
      exact ⟨verdict, s', (interpret_yields_iff hoptions).mpr ⟨c, hhalts, hclose⟩⟩

/-- A run that takes few backward jumps makes few steps, and fewer before the end. -/
theorem steps_le_of_backwardJumps_le {k n : Nat} {c : Configuration options.cellWidth.bits σ}
    (hk : ∀ n, backwardJumps streams p (options.brackets.matcher p) (start options s) n ≤ k)
    (h : Reaches streams p (options.brackets.matcher p) n (start options s) c) :
    n + (p.size - c.machine.pc) ≤ (k + 1) * p.size := by
  have hdescends : n + (p.size - c.machine.pc) ≤ p.size +
      backwardJumps streams p (options.brackets.matcher p) (start options s) n * p.size :=
    h.descends
  have hjumps := Nat.mul_le_mul_right p.size (hk n)
  rw [Nat.add_mul, Nat.one_mul]
  omega

theorem backwardJumps_eq_zero (h : ∀ i j, ¬ Partners p i j) (n : Nat) :
    backwardJumps streams p (options.brackets.matcher p) (start options s) n = 0 := by
  refine Nat.le_zero.mp (stepsFrom_le ?_ n)
  intro i c _ hback
  obtain ⟨_, target, hpartners⟩ := Machine.jumpsBack_matcher_iff.mp hback
  exact absurd hpartners (h target c.machine.pc)

end

end Execution

end Brainfuck
