import Brainfuck.Proofs.Steps
import Brainfuck.Proofs.StrategyAgreement

/-!
# Runs over streams with a state

An effect over a state either fails or yields a value, and a run is followed through its
configurations: the machine together with the state of its streams. `Tick` says once what
a single step can do, and the runs of an exact number of steps are chains of it. A run
that halts does so at a machine it has reached, and it halts in one way only.

Executions end with a closing part, the report of a fault and the last flush. What an
execution returns is what its run returns, provided that the closing part succeeds.
-/
namespace Brainfuck

open Brainfuck.Bracket

variable {host : Host}

namespace Effect

variable {ε σ α β : Type}

@[simp] theorem runFrom_pure (a : α) (s : σ) :
    (pure a : Effect ε σ α).runFrom s = (.ok a, s) := rfl

theorem runFrom_bind (x : Effect ε σ α) (f : α → Effect ε σ β) (s : σ) :
    (x >>= f).runFrom s =
      match x.runFrom s with
      | (.ok a, s') => (f a).runFrom s'
      | (.error e, s') => (.error e, s') := by
  change ExceptT.bindCont f (x s).1 (x s).2 = _
  unfold runFrom ExceptT.run StateT.run
  rcases x s with ⟨_ | a, s'⟩ <;> rfl

/-- The last action runs in any case, and its own error takes the place of an earlier one. -/
theorem runFrom_tryFinally (x : Effect ε σ α) (y : Effect ε σ Unit) (s : σ) :
    (tryFinally x y).runFrom s =
      match y.runFrom (x.runFrom s).2 with
      | (.ok _, s') => ((x.runFrom s).1, s')
      | (.error e, s') => (.error e, s') := by
  change (tryFinally x y : Effect ε σ α) s = _
  unfold runFrom ExceptT.run StateT.run
  rcases hx : x s with ⟨_ | a, s₁⟩ <;> rcases hy : y s₁ with ⟨_ | b, s₂⟩ <;>
    simp only [tryFinally, tryFinally', ExceptT.mk, bind, StateT.bind, Functor.map, ExceptT.map,
      hx, hy] <;> rfl

theorem state_tryFinally (x : Effect ε σ α) (y : Effect ε σ Unit) (s : σ) :
    ((tryFinally x y).runFrom s).2 = (y.runFrom (x.runFrom s).2).2 := by
  rw [runFrom_tryFinally]
  rcases y.runFrom (x.runFrom s).2 with ⟨_ | _, s'⟩ <;> rfl

theorem runFrom_map (f : α → β) (x : Effect ε σ α) (s : σ) :
    (f <$> x).runFrom s = ((x.runFrom s).1.map f, (x.runFrom s).2) := by
  rw [map_eq_pure_bind, runFrom_bind]
  rcases x.runFrom s with ⟨_ | a, s'⟩ <;> rfl

theorem bind_yields_iff {x : Effect ε σ α} {f : α → Effect ε σ β} {s s' : σ} {b : β} :
    (x >>= f).runFrom s = (.ok b, s') ↔
      ∃ a s₁, x.runFrom s = (.ok a, s₁) ∧ (f a).runFrom s₁ = (.ok b, s') := by
  rw [runFrom_bind]
  rcases x.runFrom s with ⟨_ | a, s₁⟩
  · simp
  · constructor
    · intro h
      exact ⟨a, s₁, rfl, h⟩
    · intro h
      obtain ⟨_, _, ⟨⟩, h⟩ := h
      exact h

theorem map_yields_iff {x : Effect ε σ α} {f : α → β} {s s' : σ} {b : β} :
    (f <$> x).runFrom s = (.ok b, s') ↔ ∃ a, x.runFrom s = (.ok a, s') ∧ f a = b := by
  rw [map_eq_pure_bind, bind_yields_iff]
  constructor
  · intro h
    obtain ⟨a, s₁, hx, h⟩ := h
    obtain ⟨rfl, rfl⟩ : f a = b ∧ s₁ = s' := by simpa using h
    exact ⟨a, hx, rfl⟩
  · intro h
    obtain ⟨a, hx, rfl⟩ := h
    exact ⟨a, s', hx, rfl⟩

theorem tryFinally_yields_iff {x : Effect ε σ α} {y : Effect ε σ Unit} {s s' : σ} {a : α} :
    (tryFinally x y).runFrom s = (.ok a, s') ↔
      ∃ s₁, x.runFrom s = (.ok a, s₁) ∧ y.runFrom s₁ = (.ok (), s') := by
  rw [runFrom_tryFinally]
  rcases x.runFrom s with ⟨outcome, s₁⟩
  constructor
  · intro h
    rcases hy : y.runFrom s₁ with ⟨_ | _, s₂⟩
    · simp [hy] at h
    · obtain ⟨rfl, rfl⟩ : outcome = .ok a ∧ s₂ = s' := by simpa [hy] using h
      exact ⟨s₁, rfl, hy⟩
  · intro h
    obtain ⟨_, ⟨⟩, hy⟩ := h
    simp [hy]

end Effect

/-- Exactly `n` steps that ask nothing of the streams lead from one machine to another. -/
def Machine.Advances {w : Nat} (p : Program) (brackets : Matcher) :
    Nat → Machine w → Machine w → Prop
  | 0, machine, last => last = machine
  | n + 1, machine, last =>
      ∃ next, machine.step p brackets = .advance next ∧ Advances p brackets n next last

/-- A machine and the state of the streams that it is connected to. -/
structure Configuration (w : Nat) (σ : Type) where
  machine : Machine w
  world : σ

namespace Execution

variable {ε σ : Type} {w : Nat}

/-- One step between configurations. A step whose stream call fails leads nowhere. -/
inductive Tick (streams : Streams (Effect ε σ)) (p : Program) (brackets : Matcher) :
    Configuration w σ → Configuration w σ → Prop
  | advance {machine next : Machine w} {s : σ} :
      machine.step p brackets = .advance next → Tick streams p brackets ⟨machine, s⟩ ⟨next, s⟩
  | write {machine next : Machine w} {s s' : σ} {byte : UInt8} :
      machine.step p brackets = .write byte next →
      (streams.out.write [byte]).runFrom s = (.ok (), s') →
      Tick streams p brackets ⟨machine, s⟩ ⟨next, s'⟩
  | read {machine next : Machine w} {s s₁ s' : σ} {value : Option Int} :
      machine.step p brackets = .read next →
      streams.out.flush.runFrom s = (.ok (), s₁) → streams.read.runFrom s₁ = (.ok value, s') →
      Tick streams p brackets ⟨machine, s⟩ ⟨next.supply (value.getD 0), s'⟩

/-- After exactly `n` steps the run is still going, at the second configuration. -/
def Reaches (streams : Streams (Effect ε σ)) (p : Program) (brackets : Matcher) (n : Nat)
    (c c' : Configuration w σ) : Prop :=
  (runFor streams p brackets n c.machine).runFrom c.world = (.ok (.running c'.machine), c'.world)

/-- Within `n` steps the run stops with a verdict, at the second configuration. -/
def Halts (streams : Streams (Effect ε σ)) (p : Program) (brackets : Matcher) (n : Nat)
    (c : Configuration w σ) (verdict : Verdict) (c' : Configuration w σ) : Prop :=
  (runFor streams p brackets n c.machine).runFrom c.world =
    (.ok (.stopped verdict c'.machine), c'.world)

section
variable {streams : Streams (Effect ε σ)} {p : Program} {brackets : Matcher}
variable {c c₁ c' : Configuration w σ} {verdict : Verdict} {n k : Nat}

/-- A run of one more step that yields something either stops at once or ticks. -/
theorem runFor_succ_yields_iff {progress : Progress w} {s' : σ} :
    (runFor streams p brackets (n + 1) c.machine).runFrom c.world = (.ok progress, s') ↔
      (∃ verdict final, c.machine.step p brackets = .stop verdict final ∧
        progress = .stopped verdict final ∧ s' = c.world) ∨
      ∃ c₁, Tick streams p brackets c c₁ ∧
        (runFor streams p brackets n c₁.machine).runFrom c₁.world = (.ok progress, s') := by
  obtain ⟨machine, s⟩ := c
  simp only [runFor]
  constructor
  · intro h
    cases hstep : machine.step p brackets with
    | advance next =>
        rw [hstep] at h
        exact .inr ⟨_, .advance hstep, h⟩
    | write byte next =>
        rw [hstep] at h
        obtain ⟨_, s₁, hwrite, h⟩ := Effect.bind_yields_iff.mp h
        exact .inr ⟨_, .write hstep hwrite, h⟩
    | read next =>
        rw [hstep] at h
        obtain ⟨_, s₁, hflush, h⟩ := Effect.bind_yields_iff.mp h
        obtain ⟨value, s₂, hread, h⟩ := Effect.bind_yields_iff.mp h
        exact .inr ⟨_, .read hstep hflush hread, h⟩
    | stop verdict final =>
        rw [hstep] at h
        obtain ⟨rfl, rfl⟩ : Progress.stopped verdict final = progress ∧ s = s' := by simpa using h
        exact .inl ⟨verdict, final, rfl, rfl, rfl⟩
  · intro h
    rcases h with ⟨verdict, final, hstep, rfl, rfl⟩ | ⟨c₁, htick, h⟩
    · rw [hstep]
      rfl
    · cases htick with
      | advance hstep => rwa [hstep]
      | write hstep hwrite =>
          rw [hstep]
          exact Effect.bind_yields_iff.mpr ⟨_, _, hwrite, h⟩
      | read hstep hflush hread =>
          rw [hstep]
          refine Effect.bind_yields_iff.mpr ⟨_, _, hflush, ?_⟩
          exact Effect.bind_yields_iff.mpr ⟨_, _, hread, h⟩

theorem reaches_zero_iff : Reaches streams p brackets 0 c c' ↔ c' = c := by
  obtain ⟨machine, s⟩ := c
  obtain ⟨machine', s'⟩ := c'
  simp [Reaches, runFor, eq_comm]

theorem reaches_succ_iff :
    Reaches streams p brackets (n + 1) c c' ↔
      ∃ c₁, Tick streams p brackets c c₁ ∧ Reaches streams p brackets n c₁ c' := by
  unfold Reaches
  rw [runFor_succ_yields_iff]
  simp

theorem not_halts_zero : ¬ Halts streams p brackets 0 c verdict c' := by
  simp [Halts, runFor]

theorem halts_succ_iff :
    Halts streams p brackets (n + 1) c verdict c' ↔
      (c.machine.step p brackets = .stop verdict c.machine ∧ c' = c) ∨
      ∃ c₁, Tick streams p brackets c c₁ ∧ Halts streams p brackets n c₁ verdict c' := by
  unfold Halts
  rw [runFor_succ_yields_iff]
  refine or_congr_left ?_
  obtain ⟨machine, s⟩ := c
  obtain ⟨machine', s'⟩ := c'
  constructor
  · intro h
    obtain ⟨_, final, hstep, ⟨⟩, rfl⟩ := h
    obtain rfl := Machine.final_of_step hstep
    exact ⟨hstep, rfl⟩
  · intro h
    obtain ⟨hstep, ⟨⟩⟩ := h
    exact ⟨verdict, machine, hstep, rfl, rfl⟩

/-- A step that asks nothing of the streams can be left out of a run. -/
theorem halts_of_advance {next : Machine w}
    (hstep : c.machine.step p brackets = .advance next)
    (h : Halts streams p brackets n c verdict c') :
    ∃ k < n, Halts streams p brackets k ⟨next, c.world⟩ verdict c' := by
  cases n with
  | zero => exact (not_halts_zero h).elim
  | succ n =>
      refine ⟨n, Nat.lt_succ_self n, ?_⟩
      rcases halts_succ_iff.mp h with ⟨hstop, _⟩ | ⟨c₁, htick, h⟩
      · rw [hstep] at hstop
        cases hstop
      · cases htick with
        | advance h₁ =>
            obtain rfl : next = _ := by simpa [hstep] using h₁
            exact h
        | write h₁ _ => simp [hstep] at h₁
        | read h₁ _ _ => simp [hstep] at h₁

theorem Reaches.trans (h : Reaches streams p brackets n c c₁)
    (h' : Reaches streams p brackets k c₁ c') : Reaches streams p brackets (n + k) c c' := by
  induction n generalizing c with
  | zero =>
      obtain rfl := reaches_zero_iff.mp h
      rwa [Nat.zero_add]
  | succ n ih =>
      obtain ⟨c₂, htick, h⟩ := reaches_succ_iff.mp h
      rw [Nat.succ_add]
      exact reaches_succ_iff.mpr ⟨c₂, htick, ih h⟩

theorem Reaches.halts (h : Reaches streams p brackets n c c₁)
    (h' : Halts streams p brackets k c₁ verdict c') :
    Halts streams p brackets (n + k) c verdict c' := by
  induction n generalizing c with
  | zero =>
      obtain rfl := reaches_zero_iff.mp h
      rwa [Nat.zero_add]
  | succ n ih =>
      obtain ⟨c₂, htick, h⟩ := reaches_succ_iff.mp h
      rw [Nat.succ_add]
      exact halts_succ_iff.mpr (.inr ⟨c₂, htick, ih h⟩)

theorem Tick.reaches (h : Tick streams p brackets c c') : Reaches streams p brackets 1 c c' :=
  reaches_succ_iff.mpr ⟨c', h, reaches_zero_iff.mpr rfl⟩

/-- A run halts at a configuration that it has reached and that asks to stop. -/
theorem Halts.exists_reaches (h : Halts streams p brackets n c verdict c') :
    c'.machine.step p brackets = .stop verdict c'.machine ∧
      ∃ k < n, Reaches streams p brackets k c c' := by
  induction n generalizing c with
  | zero => exact (not_halts_zero h).elim
  | succ n ih =>
      rcases halts_succ_iff.mp h with ⟨hstep, rfl⟩ | ⟨c₁, htick, h⟩
      · exact ⟨hstep, 0, Nat.succ_pos n, reaches_zero_iff.mpr rfl⟩
      · obtain ⟨hstep, k, hk, hreach⟩ := ih h
        exact ⟨hstep, k + 1, Nat.succ_lt_succ hk, reaches_succ_iff.mpr ⟨c₁, htick, hreach⟩⟩

/-- A larger budget does not change how a run halts. -/
theorem Halts.mono (h : Halts streams p brackets n c verdict c') (hk : n ≤ k) :
    Halts streams p brackets k c verdict c' := by
  induction n generalizing c k with
  | zero => exact (not_halts_zero h).elim
  | succ n ih =>
      obtain ⟨k, rfl⟩ : ∃ j, k = j + 1 := ⟨k - 1, by omega⟩
      refine halts_succ_iff.mpr ?_
      rcases halts_succ_iff.mp h with hstop | ⟨c₁, htick, h⟩
      · exact .inl hstop
      · exact .inr ⟨c₁, htick, ih h (by omega)⟩

theorem Halts.unique {verdict' : Verdict} {c'' : Configuration w σ}
    (h : Halts streams p brackets n c verdict c')
    (h' : Halts streams p brackets k c verdict' c'') : verdict = verdict' ∧ c' = c'' := by
  have h₁ := h.mono (Nat.le_max_left n k)
  have h₂ := h'.mono (Nat.le_max_right n k)
  unfold Halts at h₁ h₂
  obtain ⟨machine, s⟩ := c'
  obtain ⟨machine', s'⟩ := c''
  rw [h₁] at h₂
  simp only [Prod.mk.injEq, Except.ok.injEq, Progress.stopped.injEq] at h₂
  obtain ⟨⟨rfl, rfl⟩, rfl⟩ := h₂
  exact ⟨rfl, rfl⟩

/-- What every tick keeps, every run keeps. -/
theorem Reaches.invariant {P : Configuration w σ → Prop}
    (hP : ∀ c c', Tick streams p brackets c c' → P c → P c')
    (h : Reaches streams p brackets n c c') (hc : P c) : P c' := by
  induction n generalizing c with
  | zero =>
      obtain rfl := reaches_zero_iff.mp h
      exact hc
  | succ n ih =>
      obtain ⟨c₁, htick, h⟩ := reaches_succ_iff.mp h
      exact ih h (hP c c₁ htick hc)

/-- Runs do not depend on the strategy, and halting in particular. -/
theorem halts_matcher (strategy : Strategy) :
    Halts streams p (strategy.matcher p) n c verdict c' ↔
      Halts streams p (.scanning p) n c verdict c' := by
  unfold Halts
  rw [runFor_matcher]

theorem reaches_matcher (strategy : Strategy) :
    Reaches streams p (strategy.matcher p) n c c' ↔ Reaches streams p (.scanning p) n c c' := by
  unfold Reaches
  rw [runFor_matcher]

end

section
variable {m : Type → Type} [Monad m] {p : Program} {brackets : Matcher} {n : Nat}
variable {machine last : Machine w}

/-- Behind steps that ask nothing a run goes on from the machine that they lead to. -/
theorem runFor_add_of_advances (streams : Streams m)
    (h : machine.Advances p brackets n last) (k : Nat) :
    runFor streams p brackets (n + k) machine = runFor streams p brackets k last := by
  induction n generalizing machine with
  | zero =>
      obtain rfl : last = machine := h
      rw [Nat.zero_add]
  | succ n ih =>
      obtain ⟨next, hstep, h⟩ := h
      rw [Nat.succ_add, runFor, hstep]
      exact ih h

/-- Among steps that ask nothing a run is still going. -/
theorem exists_running_of_advances (streams : Streams m)
    (h : machine.Advances p brackets n last) {k : Nat} (hk : k ≤ n) :
    ∃ machine', runFor streams p brackets k machine = pure (.running machine') := by
  induction n generalizing machine k with
  | zero =>
      obtain rfl : k = 0 := Nat.le_zero.mp hk
      exact ⟨machine, rfl⟩
  | succ n ih =>
      cases k with
      | zero => exact ⟨machine, rfl⟩
      | succ k =>
          obtain ⟨next, hstep, h⟩ := h
          obtain ⟨machine', hrun⟩ := ih h (Nat.le_of_succ_le_succ hk)
          refine ⟨machine', ?_⟩
          rw [runFor, hstep]
          exact hrun

end

theorem Reaches.of_advances {streams : Streams (Effect ε σ)} {p : Program} {brackets : Matcher}
    {n : Nat} {machine last : Machine w} (h : machine.Advances p brackets n last) (s : σ) :
    Reaches streams p brackets n ⟨machine, s⟩ ⟨last, s⟩ := by
  have hrun := runFor_add_of_advances streams h 0
  exact congrArg (fun x => Effect.runFrom x s) hrun

/-- What follows a verdict: a fault is reported, and the output is flushed. -/
def closing (streams : Streams (Effect ε σ)) : Verdict → Effect ε σ Unit
  | .completed => streams.out.flush
  | .faulted fault => do
    report streams fault
    streams.out.flush

section
variable {streams : Streams (Effect ε σ)} {p : Program} {verdict : Verdict} {n : Nat} {s s' : σ}

/-- The configuration in which an execution starts. -/
def start (options : Options) (s : σ) : Configuration options.cellWidth.bits σ :=
  ⟨Machine.initial options.tape, s⟩

theorem execute_yields_iff {options : Options} :
    (execute streams options p n).runFrom s = (.ok (some verdict), s') ↔
      ∃ c, Halts streams p (options.brackets.matcher p) n (start options s) verdict c ∧
        (closing streams verdict).runFrom c.world = (.ok (), s') := by
  unfold execute
  rw [Effect.tryFinally_yields_iff]
  constructor
  · intro h
    obtain ⟨s₁, h, hflush⟩ := h
    obtain ⟨progress, s₂, hrun, h⟩ := Effect.bind_yields_iff.mp h
    cases progress with
    | running machine => simp [conclude] at h
    | stopped verdict' final =>
        cases verdict' with
        | completed =>
            obtain ⟨rfl, rfl⟩ : Verdict.completed = verdict ∧ s₂ = s₁ := by
              simpa [conclude] using h
            exact ⟨⟨final, s₂⟩, hrun, hflush⟩
        | faulted fault =>
            obtain ⟨_, s₃, hreport, h⟩ := Effect.bind_yields_iff.mp h
            obtain ⟨rfl, rfl⟩ : Verdict.faulted fault = verdict ∧ s₃ = s₁ := by simpa using h
            exact ⟨⟨final, s₂⟩, hrun, Effect.bind_yields_iff.mpr ⟨_, _, hreport, hflush⟩⟩
  · intro h
    obtain ⟨⟨final, s₂⟩, hrun, hclose⟩ := h
    cases verdict with
    | completed => exact ⟨s₂, Effect.bind_yields_iff.mpr ⟨_, _, hrun, rfl⟩, hclose⟩
    | faulted fault =>
        obtain ⟨_, s₃, hreport, hflush⟩ := Effect.bind_yields_iff.mp hclose
        refine ⟨s₃, Effect.bind_yields_iff.mpr ⟨_, _, hrun, ?_⟩, hflush⟩
        exact Effect.bind_yields_iff.mpr ⟨_, _, hreport, rfl⟩

theorem interpret_yields_iff {settings : Settings} {options : Options}
    (hoptions : settings.prepare host = .ok options) :
    (interpret host streams settings p n).runFrom s = (.ok (.ok (some verdict)), s') ↔
      ∃ c, Halts streams p (options.brackets.matcher p) n (start options s) verdict c ∧
        (closing streams verdict).runFrom c.world = (.ok (), s') := by
  unfold interpret
  rw [hoptions, ← execute_yields_iff]
  dsimp only
  rw [Effect.map_yields_iff]
  simp

end

end Execution

/-- No call on the streams fails, in whatever state it is made. -/
structure Streams.NeverFails {ε σ : Type} (streams : Streams (Effect ε σ)) : Prop where
  read : ∀ s, ∃ value s', streams.read.runFrom s = (.ok value, s')
  outWrite : ∀ bytes s, ∃ s', (streams.out.write bytes).runFrom s = (.ok (), s')
  outFlush : ∀ s, ∃ s', streams.out.flush.runFrom s = (.ok (), s')
  logWrite : ∀ bytes s, ∃ s', (streams.log.write bytes).runFrom s = (.ok (), s')
  logFlush : ∀ s, ∃ s', streams.log.flush.runFrom s = (.ok (), s')

namespace Execution

variable {ε σ : Type} {w : Nat} {streams : Streams (Effect ε σ)}

theorem exists_closing (h : streams.NeverFails) (verdict : Verdict) (s : σ) :
    ∃ s', (closing streams verdict).runFrom s = (.ok (), s') := by
  cases verdict with
  | completed => exact h.outFlush s
  | faulted fault =>
      obtain ⟨s₁, h₁⟩ := h.outFlush s
      obtain ⟨s₂, h₂⟩ := h.logWrite (Utf8.encode fault.line) s₁
      obtain ⟨s₃, h₃⟩ := h.logFlush s₂
      obtain ⟨s₄, h₄⟩ := h.outFlush s₃
      refine ⟨s₄, Effect.bind_yields_iff.mpr ⟨(), s₃, ?_, h₄⟩⟩
      refine Effect.bind_yields_iff.mpr ⟨(), s₁, h₁, ?_⟩
      exact Effect.bind_yields_iff.mpr ⟨(), s₂, h₂, h₃⟩

theorem exists_tick (h : streams.NeverFails) (p : Program) (brackets : Matcher)
    (c : Configuration w σ) :
    (∃ verdict, c.machine.step p brackets = .stop verdict c.machine) ∨
      ∃ c', Tick streams p brackets c c' := by
  obtain ⟨machine, s⟩ := c
  cases hstep : machine.step p brackets with
  | advance next => exact .inr ⟨_, .advance hstep⟩
  | write byte next =>
      obtain ⟨s', hwrite⟩ := h.outWrite [byte] s
      exact .inr ⟨_, .write hstep hwrite⟩
  | read next =>
      obtain ⟨s₁, hflush⟩ := h.outFlush s
      obtain ⟨value, s', hread⟩ := h.read s₁
      exact .inr ⟨_, .read hstep hflush hread⟩
  | stop verdict final =>
      obtain rfl := Machine.final_of_step hstep
      exact .inl ⟨verdict, rfl⟩

/-- Streams that never fail leave a run two ways: it is still going, or it has halted. -/
theorem reaches_or_halts (h : streams.NeverFails) (p : Program) (brackets : Matcher) (n : Nat)
    (c : Configuration w σ) :
    (∃ c', Reaches streams p brackets n c c') ∨
      ∃ verdict c', Halts streams p brackets n c verdict c' := by
  induction n generalizing c with
  | zero => exact .inl ⟨c, reaches_zero_iff.mpr rfl⟩
  | succ n ih =>
      rcases exists_tick h p brackets c with ⟨verdict, hstep⟩ | ⟨c₁, htick⟩
      · exact .inr ⟨verdict, c, halts_succ_iff.mpr (.inl ⟨hstep, rfl⟩)⟩
      · rcases ih c₁ with ⟨c', hreach⟩ | ⟨verdict, c', hhalt⟩
        · exact .inl ⟨c', reaches_succ_iff.mpr ⟨c₁, htick, hreach⟩⟩
        · exact .inr ⟨verdict, c', halts_succ_iff.mpr (.inr ⟨c₁, htick, hhalt⟩)⟩

/-- An execution on streams that never fail returns, with a verdict or without one. -/
theorem exists_interpret (h : streams.NeverFails) {settings : Settings} {options : Options}
    (hoptions : settings.prepare host = .ok options) (p : Program) (n : Nat) (s : σ) :
    ∃ result s', (interpret host streams settings p n).runFrom s = (.ok (.ok result), s') := by
  rcases reaches_or_halts h p (options.brackets.matcher p) n (start options s) with
    ⟨c, hreach⟩ | ⟨verdict, c, hhalts⟩
  · obtain ⟨s', hflush⟩ := h.outFlush c.world
    refine ⟨none, s', ?_⟩
    unfold interpret
    rw [hoptions]
    refine Effect.map_yields_iff.mpr ⟨none, ?_, rfl⟩
    refine Effect.tryFinally_yields_iff.mpr ⟨c.world, ?_, hflush⟩
    exact Effect.bind_yields_iff.mpr ⟨_, _, hreach, rfl⟩
  · obtain ⟨s', hclose⟩ := exists_closing h verdict c.world
    exact ⟨some verdict, s', (interpret_yields_iff hoptions).mpr ⟨c, hhalts, hclose⟩⟩

end Execution

end Brainfuck
