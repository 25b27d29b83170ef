import Brainfuck.Proofs.Simulation

/-!
# Machines in lockstep

Two machines that differ in their tapes, or in their programs, may still ask the same of
their streams at every step. A relation between machines that survives matching steps then
carries whole runs: after any number of steps both are still going and related, or both
have stopped, or the same call has failed for both, and the streams are in the same state.

The steps need not match for ever. A run is followed up to the first machine at which the
two sides may part, and nothing is said about what happens behind it. The verdicts of the
two sides are related by a function, because two programs may name different positions for
the same fault.
-/
namespace Brainfuck

open Brainfuck.Bracket

variable {host : Host}

section
variable {w w' : Nat}

/-- Two actions that ask the same and lead to related machines. -/
inductive Action.Matches (R : Machine w → Machine w' → Prop) (f : Verdict → Verdict) :
    Action w → Action w' → Prop
  | advance {next : Machine w} {next' : Machine w'} : R next next' →
      Matches R f (.advance next) (.advance next')
  | write {byte : UInt8} {next : Machine w} {next' : Machine w'} : R next next' →
      Matches R f (.write byte next) (.write byte next')
  | read {next : Machine w} {next' : Machine w'} :
      (∀ value, R (next.supply value) (next'.supply value)) →
      Matches R f (.read next) (.read next')
  | stop {verdict : Verdict} {final : Machine w} {final' : Machine w'} : R final final' →
      Matches R f (.stop verdict final) (.stop (f verdict) final')

/-- Two machines that have come equally far. -/
inductive Progress.Matches (R : Machine w → Machine w' → Prop) (f : Verdict → Verdict) :
    Progress w → Progress w' → Prop
  | running {machine : Machine w} {machine' : Machine w'} : R machine machine' →
      Matches R f (.running machine) (.running machine')
  | stopped {verdict : Verdict} {final : Machine w} {final' : Machine w'} : R final final' →
      Matches R f (.stopped verdict final) (.stopped (f verdict) final')

/-- What two runs yield, and the state they leave, if every call was the same for both. -/
inductive InLockstep {ε σ : Type} (R : Machine w → Machine w' → Prop) (f : Verdict → Verdict) :
    Except ε (Progress w) × σ → Except ε (Progress w') × σ → Prop
  | yields {progress : Progress w} {progress' : Progress w'} {s : σ} :
      progress.Matches R f progress' → InLockstep R f (.ok progress, s) (.ok progress', s)
  | fails {error : ε} {s : σ} : InLockstep R f (.error error, s) (.error error, s)

end

/-- A relation between tapes that is kept by everything that a step does to a tape, up to
moves to the right and tests of the current cell. -/
structure Tape.Kept {w w' : Nat} (T : Tape w → Tape w' → Prop) : Prop where
  increment : ∀ {t t'}, T t t' → T t.increment t'.increment
  decrement : ∀ {t t'}, T t t' → T t.decrement t'.decrement
  store : ∀ {t t'}, T t t' → ∀ value, T (t.store value) (t'.store value)
  moveLeft? : ∀ {t t'}, T t t' → Option.Rel T t.moveLeft? t'.moveLeft?
  outputByte : ∀ {t t'}, T t t' → t'.outputByte = t.outputByte

/-- The pointers of two tapes that stand in the same place move to the left together. -/
theorem Tape.rel_moveLeft? {w w' : Nat} {T : Tape w → Tape w' → Prop} {t : Tape w} {t' : Tape w'}
    (hpointer : t'.pointer = t.pointer)
    (hmoved : 0 < t.pointer → T ⟨t.cells, t.pointer - 1⟩ ⟨t'.cells, t.pointer - 1⟩) :
    Option.Rel T t.moveLeft? t'.moveLeft? := by
  obtain ⟨cells, pointer⟩ := t
  obtain ⟨cells', pointer'⟩ := t'
  dsimp only at hpointer hmoved
  subst hpointer
  cases pointer' with
  | zero => exact .none
  | succ pointer => exact .some (hmoved (Nat.succ_pos pointer))

namespace Machine

variable {w w' : Nat}

/-- Two machines at the same position of a program, with related tapes. -/
structure Beside (T : Tape w → Tape w' → Prop) (machine : Machine w) (machine' : Machine w') :
    Prop where
  pc_eq : machine'.pc = machine.pc
  tape : T machine.tape machine'.tape

/-- The steps of one program match on related tapes. What a move to the right and a bracket
need in addition is asked for only where there is one. -/
theorem Beside.step_matches {T : Tape w → Tape w' → Prop} (hT : Tape.Kept T)
    {machine : Machine w} {machine' : Machine w'} (h : machine.Beside T machine') (p : Program)
    (brackets : Matcher)
    (hright : p.instruction? machine.pc = some .right →
      Option.Rel T machine.tape.moveRight? machine'.tape.moveRight?)
    (hzero : ∀ i, i = .opening ∨ i = .closing → p.instruction? machine.pc = some i →
      machine'.tape.isZero = machine.tape.isZero) :
    (machine.step p brackets).Matches (Beside T) id (machine'.step p brackets) := by
  obtain ⟨pc, tape⟩ := machine
  obtain ⟨pc', tape'⟩ := machine'
  obtain ⟨hpc, htape⟩ := h
  dsimp only at hpc htape hright hzero
  subst hpc
  cases hi : p.instruction? pc' with
  | none =>
      by_cases hpc : pc' < p.size
      · rw [step_of_inert hpc hi, step_of_inert hpc hi]
        exact .advance ⟨rfl, htape⟩
      · rw [step_of_size_le (Nat.le_of_not_lt hpc), step_of_size_le (Nat.le_of_not_lt hpc)]
        exact .stop ⟨rfl, htape⟩
  | some instruction =>
      rw [step_of_instruction hi, step_of_instruction hi]
      cases instruction with
      | right =>
          have hmove := hright hi
          simp only [perform]
          generalize tape.moveRight? = moved at hmove
          generalize tape'.moveRight? = moved' at hmove
          cases hmove with
          | some hmoved => exact .advance ⟨rfl, hmoved⟩
          | none => exact .stop ⟨rfl, htape⟩
      | left =>
          have hmove := hT.moveLeft? htape
          simp only [perform]
          generalize tape.moveLeft? = moved at hmove
          generalize tape'.moveLeft? = moved' at hmove
          cases hmove with
          | some hmoved => exact .advance ⟨rfl, hmoved⟩
          | none => exact .stop ⟨rfl, htape⟩
      | increment => exact .advance ⟨rfl, hT.increment htape⟩
      | decrement => exact .advance ⟨rfl, hT.decrement htape⟩
      | output =>
          simp only [perform, hT.outputByte htape]
          exact .write ⟨rfl, htape⟩
      | input => exact .read fun value => ⟨rfl, hT.store htape value⟩
      | opening =>
          simp only [perform, hzero .opening (.inl rfl) hi]
          cases tape.isZero with
          | false => exact .advance ⟨rfl, htape⟩
          | true =>
              cases brackets.closing pc' with
              | some partner => exact .advance ⟨rfl, htape⟩
              | none => exact .stop ⟨rfl, htape⟩
      | closing =>
          simp only [perform, hzero .closing (.inr rfl) hi]
          cases tape.isZero with
          | true => exact .advance ⟨rfl, htape⟩
          | false =>
              cases brackets.opening pc' with
              | some partner => exact .advance ⟨rfl, htape⟩
              | none => exact .stop ⟨rfl, htape⟩

end Machine

namespace Execution

variable {ε σ : Type} {w w' : Nat} {streams : Streams (Effect ε σ)} {p p' : Program}
variable {brackets brackets' : Matcher} {R : Machine w → Machine w' → Prop}
variable {f : Verdict → Verdict} {Parting : Machine w → Prop}

variable (streams) in
/-- If related machines take matching steps unless the first one is at a parting, runs from
related machines are in lockstep unless the first one comes to a parting on its way. -/
theorem lockstep_or_parting
    (hstep : ∀ machine machine', R machine machine' →
      Parting machine ∨ (machine.step p brackets).Matches R f (machine'.step p' brackets'))
    {machine : Machine w} {machine' : Machine w'} (h : R machine machine') (n : Nat) (s : σ) :
    (∃ k < n, ∃ c, Reaches streams p brackets k ⟨machine, s⟩ c ∧ Parting c.machine) ∨
      InLockstep R f ((runFor streams p brackets n machine).runFrom s)
        ((runFor streams p' brackets' n machine').runFrom s) := by
  induction n generalizing machine machine' s with
  | zero => exact .inr (.yields (.running h))
  | succ n ih =>
      -- A parting behind the first step is one step further from the start.
      have hlater : ∀ {c : Configuration w σ}, Tick streams p brackets ⟨machine, s⟩ c →
          (∃ k < n, ∃ c', Reaches streams p brackets k c c' ∧ Parting c'.machine) →
          ∃ k < n + 1, ∃ c', Reaches streams p brackets k ⟨machine, s⟩ c' ∧
            Parting c'.machine := by
        intro c htick hparting
        obtain ⟨k, hk, c', hreach, hc'⟩ := hparting
        exact ⟨k + 1, Nat.succ_lt_succ hk, c', reaches_succ_iff.mpr ⟨c, htick, hreach⟩, hc'⟩
      rcases hstep machine machine' h with hparting | hmatches
      · exact .inl ⟨0, Nat.succ_pos n, _, reaches_zero_iff.mpr rfl, hparting⟩
      · simp only [runFor]
        generalize hfirst : machine.step p brackets = action at hmatches
        generalize machine'.step p' brackets' = action' at hmatches
        cases hmatches with
        | advance hnext => exact (ih hnext s).imp_left (hlater (.advance hfirst))
        | write hnext =>
            simp only [Effect.runFrom_bind]
            rcases hwrite : (streams.out.write [_]).runFrom s with ⟨error | _, s₁⟩
            · exact .inr .fails
            · exact (ih hnext s₁).imp_left (hlater (.write hfirst hwrite))
        | read hnext =>
            simp only [Effect.runFrom_bind]
            rcases hflush : streams.out.flush.runFrom s with ⟨error | _, s₁⟩
            · exact .inr .fails
            · dsimp only
              rcases hread : streams.read.runFrom s₁ with ⟨error | value, s₂⟩
              · exact .inr .fails
              · have hnext := ih (hnext (value.getD 0)) s₂
                exact hnext.imp_left (hlater (.read hfirst hflush hread))
        | stop hfinal => exact .inr (.yields (.stopped hfinal))

/-- Without partings, runs stay in lockstep. -/
theorem lockstep
    (hstep : ∀ machine machine', R machine machine' →
      (machine.step p brackets).Matches R f (machine'.step p' brackets'))
    {machine : Machine w} {machine' : Machine w'} (h : R machine machine') (n : Nat) (s : σ) :
    InLockstep R f ((runFor streams p brackets n machine).runFrom s)
      ((runFor streams p' brackets' n machine').runFrom s) := by
  have hnever : ∀ machine machine', R machine machine' →
      False ∨ (machine.step p brackets).Matches R f (machine'.step p' brackets') :=
    fun machine machine' h => .inr (hstep machine machine' h)
  have hrun := lockstep_or_parting streams hnever h n s
  exact hrun.resolve_left fun ⟨_, _, _, _, hparting⟩ => hparting

section
variable {n : Nat} {c c₁ : Configuration w σ} {machine' : Machine w'}

/-- Of two runs in lockstep either both are still going or none. -/
theorem exists_reaches_iff_of_lockstep
    (h : InLockstep R f ((runFor streams p brackets n c.machine).runFrom c.world)
      ((runFor streams p' brackets' n machine').runFrom c.world)) :
    (∃ c₁, Reaches streams p brackets n c c₁) ↔
      ∃ c₁, Reaches streams p' brackets' n ⟨machine', c.world⟩ c₁ := by
  unfold Reaches
  generalize (runFor streams p brackets n c.machine).runFrom c.world = run at h
  generalize (runFor streams p' brackets' n machine').runFrom c.world = run' at h
  cases h with
  | fails => simp
  | @yields _ _ s hmatches =>
      cases hmatches with
      | @running machine machine₁' _ =>
          exact iff_of_true ⟨⟨machine, s⟩, rfl⟩ ⟨⟨machine₁', s⟩, rfl⟩
      | stopped _ => simp

theorem Reaches.of_lockstep (h : Reaches streams p brackets n c c₁)
    (hrun : InLockstep R f ((runFor streams p brackets n c.machine).runFrom c.world)
      ((runFor streams p' brackets' n machine').runFrom c.world)) :
    ∃ machine₁', R c₁.machine machine₁' ∧
      Reaches streams p' brackets' n ⟨machine', c.world⟩ ⟨machine₁', c₁.world⟩ := by
  unfold Reaches at h
  rw [h] at hrun
  generalize hother : (runFor streams p' brackets' n machine').runFrom c.world = other at hrun
  cases hrun with
  | yields hmatches =>
      cases hmatches with
      | running hR => exact ⟨_, hR, hother⟩

theorem Halts.of_lockstep {verdict : Verdict} (h : Halts streams p brackets n c verdict c₁)
    (hrun : InLockstep R f ((runFor streams p brackets n c.machine).runFrom c.world)
      ((runFor streams p' brackets' n machine').runFrom c.world)) :
    ∃ machine₁', R c₁.machine machine₁' ∧
      Halts streams p' brackets' n ⟨machine', c.world⟩ (f verdict) ⟨machine₁', c₁.world⟩ := by
  unfold Halts at h
  rw [h] at hrun
  generalize hother : (runFor streams p' brackets' n machine').runFrom c.world = other at hrun
  cases hrun with
  | yields hmatches =>
      cases hmatches with
      | stopped hR => exact ⟨_, hR, hother⟩

end

/-- Executions whose runs are in lockstep with the same verdicts are the same. -/
theorem interpret_of_lockstep {settings settings' : Settings} {options options' : Options}
    (hoptions : settings.prepare host = .ok options)
    (hoptions' : settings'.prepare host = .ok options')
    {R : Machine options.cellWidth.bits → Machine options'.cellWidth.bits → Prop} {n : Nat} {s : σ}
    (h : InLockstep R id
      ((runFor streams p (options.brackets.matcher p) n
        (Machine.initial options.tape)).runFrom s)
      ((runFor streams p' (options'.brackets.matcher p') n
        (Machine.initial options'.tape)).runFrom s)) :
    (interpret host streams settings' p' n).runFrom s =
      (interpret host streams settings p n).runFrom s := by
  have hattempt : (attempt streams options' p' n).runFrom s =
      (attempt streams options p n).runFrom s := by
    generalize hrun : (runFor streams p (options.brackets.matcher p) n
      (Machine.initial options.tape)).runFrom s = run at h
    generalize hrun' : (runFor streams p' (options'.brackets.matcher p') n
      (Machine.initial options'.tape)).runFrom s = run' at h
    cases h with
    | fails => rw [runFrom_attempt hrun, runFrom_attempt hrun']
    | yields hmatches =>
        rw [runFrom_attempt hrun, runFrom_attempt hrun']
        cases hmatches with
        | running _ => rfl
        | @stopped verdict _ _ _ => cases verdict <;> rfl
  rw [runFrom_interpret streams hoptions, runFrom_interpret streams hoptions', hattempt]

end Execution

end Brainfuck
