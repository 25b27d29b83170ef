import Brainfuck.Proofs.Lockstep

/-!
# Machines that meet now and then

Two machines need not move step by step together to do the same. It is enough that each of
them comes, by steps that ask nothing of the streams, to a place where the two take matching
steps, and that they can do so again from where those steps lead. However far the run of one
of them is followed, the run of the other has a point at which it has made the same calls
and has ended, or not ended, in the same way.
-/
namespace Brainfuck

open Brainfuck.Bracket

/-- Two runs that have made the same calls and have ended alike or not at all. Where their
machines are is left open. -/
abbrev InAccord {ε σ : Type} {w w' : Nat} (f : Verdict → Verdict) :
    Except ε (Progress w) × σ → Except ε (Progress w') × σ → Prop :=
  InLockstep (fun _ _ => True) f

/-- After some silent steps of each, two machines take matching steps. -/
def Machine.Meet {w w' : Nat} (R : Machine w → Machine w' → Prop) (f : Verdict → Verdict)
    (p p' : Program) (brackets brackets' : Matcher) (machine : Machine w)
    (machine' : Machine w') : Prop :=
  ∃ i i' next next', machine.Advances p brackets i next ∧
    machine'.Advances p' brackets' i' next' ∧
    (next.step p brackets).Matches R f (next'.step p' brackets')

namespace Execution

variable {ε σ : Type} {w w' : Nat} {streams : Streams (Effect ε σ)} {p p' : Program}
variable {brackets brackets' : Matcher} {R : Machine w → Machine w' → Prop}
variable {f : Verdict → Verdict} {machine next : Machine w} {machine' next' : Machine w'}
variable {i i' n n' : Nat} {s : σ}

/-- Silent steps in front of two runs change nothing about their accord. -/
theorem inAccord_of_advances (h : machine.Advances p brackets i next)
    (h' : machine'.Advances p' brackets' i' next')
    (haccord : InAccord f ((runFor streams p brackets n next).runFrom s)
      ((runFor streams p' brackets' n' next').runFrom s)) :
    InAccord f ((runFor streams p brackets (i + n) machine).runFrom s)
      ((runFor streams p' brackets' (i' + n') machine').runFrom s) := by
  rw [runFor_add_of_advances streams h, runFor_add_of_advances streams h']
  exact haccord

/-- Two runs that are still among silent steps are in accord. -/
theorem inAccord_of_le (h : machine.Advances p brackets i next)
    (h' : machine'.Advances p' brackets' i' next') (hn : n ≤ i) (hn' : n' ≤ i') (s : σ) :
    InAccord f ((runFor streams p brackets n machine).runFrom s)
      ((runFor streams p' brackets' n' machine').runFrom s) := by
  obtain ⟨_, hrun⟩ := exists_running_of_advances streams h hn
  obtain ⟨_, hrun'⟩ := exists_running_of_advances streams h' hn'
  rw [hrun, hrun']
  exact .yields (.running trivial)

/-- A matching step of both machines. The numbers of steps behind it may depend on what the
streams do. -/
theorem exists_inAccord_succ {A : Nat → Nat → Prop}
    (hmatches : (next.step p brackets).Matches R f (next'.step p' brackets'))
    (hbehind : ∀ machine machine' s', R machine machine' → ∃ n n', A n n' ∧
      InAccord f ((runFor streams p brackets n machine).runFrom s')
        ((runFor streams p' brackets' n' machine').runFrom s')) (s : σ) :
    ∃ n n', A n n' ∧ InAccord f ((runFor streams p brackets (n + 1) next).runFrom s)
      ((runFor streams p' brackets' (n' + 1) next').runFrom s) := by
  simp only [runFor]
  generalize next.step p brackets = action at hmatches
  generalize next'.step p' brackets' = action' at hmatches
  cases hmatches with
  | advance hR => exact hbehind _ _ s hR
  | write hR =>
      simp only [Effect.runFrom_bind]
      rcases (streams.out.write [_]).runFrom s with ⟨error | _, s₁⟩
      · obtain ⟨n, n', hA, _⟩ := hbehind _ _ s₁ hR
        exact ⟨n, n', hA, .fails⟩
      · exact hbehind _ _ s₁ hR
  | read hR =>
      simp only [Effect.runFrom_bind]
      rcases streams.out.flush.runFrom s with ⟨error | _, s₁⟩
      · obtain ⟨n, n', hA, _⟩ := hbehind _ _ s₁ (hR 0)
        exact ⟨n, n', hA, .fails⟩
      · dsimp only
        rcases streams.read.runFrom s₁ with ⟨error | value, s₂⟩
        · obtain ⟨n, n', hA, _⟩ := hbehind _ _ s₂ (hR 0)
          exact ⟨n, n', hA, .fails⟩
        · exact hbehind _ _ s₂ (hR (value.getD 0))
  | stop hR =>
      obtain ⟨n, n', hA, _⟩ := hbehind _ _ s hR
      exact ⟨n, n', hA, .yields (.stopped trivial)⟩

variable (streams) in
/-- Related machines that always meet again: wherever the first one has come to, the second
one comes to as well. -/
theorem exists_inAccord_right
    (hmeet : ∀ machine machine', R machine machine' →
      Machine.Meet R f p p' brackets brackets' machine machine')
    (h : R machine machine') (n : Nat) (s : σ) :
    ∃ n', InAccord f ((runFor streams p brackets n machine).runFrom s)
      ((runFor streams p' brackets' n' machine').runFrom s) := by
  induction n using Nat.strongRecOn generalizing machine machine' s with
  | ind n ih =>
      obtain ⟨i, i', next, next', hadvances, hadvances', hmatches⟩ := hmeet machine machine' h
      rcases Nat.lt_or_ge i n with hlt | hle
      · obtain ⟨k, rfl⟩ : ∃ k, n = i + (k + 1) := ⟨n - i - 1, by omega⟩
        obtain ⟨_, n', rfl, haccord⟩ := exists_inAccord_succ (A := fun n _ => n = k) hmatches
          (fun _ _ s' hR => ⟨k, (ih k (by omega) hR s').imp fun _ h => ⟨rfl, h⟩⟩) s
        exact ⟨i' + (n' + 1), inAccord_of_advances hadvances hadvances' haccord⟩
      · exact ⟨0, inAccord_of_le hadvances hadvances' hle (Nat.zero_le i') s⟩

variable (streams) in
/-- Wherever the second machine has come to, the first one comes to as well. -/
theorem exists_inAccord_left
    (hmeet : ∀ machine machine', R machine machine' →
      Machine.Meet R f p p' brackets brackets' machine machine')
    (h : R machine machine') (n' : Nat) (s : σ) :
    ∃ n, InAccord f ((runFor streams p brackets n machine).runFrom s)
      ((runFor streams p' brackets' n' machine').runFrom s) := by
  induction n' using Nat.strongRecOn generalizing machine machine' s with
  | ind n' ih =>
      obtain ⟨i, i', next, next', hadvances, hadvances', hmatches⟩ := hmeet machine machine' h
      rcases Nat.lt_or_ge i' n' with hlt | hle
      · obtain ⟨k, rfl⟩ : ∃ k, n' = i' + (k + 1) := ⟨n' - i' - 1, by omega⟩
        obtain ⟨n, _, rfl, haccord⟩ := exists_inAccord_succ (A := fun _ n' => n' = k) hmatches
          (fun _ _ s' hR => (ih k (by omega) hR s').imp fun _ h => ⟨k, rfl, h⟩) s
        exact ⟨i + (n + 1), inAccord_of_advances hadvances hadvances' haccord⟩
      · exact ⟨0, inAccord_of_le hadvances hadvances' (Nat.zero_le i) hle s⟩

end Execution

end Brainfuck
