import Brainfuck.Proofs.Lockstep
import Brainfuck.Proofs.Nesting
import Brainfuck.Proofs.Recording
import Brainfuck.Proofs.Steps
import Brainfuck.Stream.Script

/-!
# The same code at another place

What a step does depends on the instruction under the counter and on where the partner of a
bracket stands. If an octet of one program stands at another place of another program, and
brackets stand there with partners that correspond, then the steps at the two places are the
same but for the positions that they lead to and that a fault names.

An execution whose faults name other positions sends another line to the error log. It is
compared on recorded streams over an arbitrary state, and calls may fail. Everything that is
written, flushed and read has to be the same.
-/
namespace Brainfuck

open Brainfuck.Bracket

variable {host : Host}

/-- The same fault at another position. -/
def Fault.move (f : Int → Int) : Fault → Fault
  | .outOfBounds position direction => .outOfBounds (f position) direction
  | .missingClosing position => .missingClosing (f position)
  | .missingOpening position => .missingOpening (f position)

def Verdict.move (f : Int → Int) : Verdict → Verdict
  | .completed => .completed
  | .faulted fault => .faulted (fault.move f)

theorem Verdict.move_move (g f : Int → Int) (verdict : Verdict) :
    (verdict.move f).move g = verdict.move fun position => g (f position) := by
  rcases verdict with _ | ⟨_ | _ | _⟩ <;> rfl

/-- The machine at another place. -/
def Machine.relocate {w : Nat} (site : Nat → Nat) (machine : Machine w) : Machine w :=
  ⟨site machine.pc, machine.tape⟩

/-- The action at another place. Octets are found where `site` says, and a machine goes on
where `entry` says; the two differ where something has been put between two octets. -/
def Action.relocate {w : Nat} (f : Int → Int) (site entry : Nat → Nat) : Action w → Action w
  | .advance next => .advance (next.relocate entry)
  | .write byte next => .write byte (next.relocate entry)
  | .read next => .read (next.relocate entry)
  | .stop verdict final => .stop (verdict.move f) (final.relocate site)

/-- What stands at a position of a program stands at another position of another program,
and so does the partner of a bracket. -/
structure Program.SameAt (site entry : Nat → Nat) (p q : Program) (pc : Nat) : Prop where
  ends : p.size ≤ pc → q.size ≤ site pc
  inside : pc < p.size → site pc < q.size
  instruction : pc < p.size → q.instruction? (site pc) = p.instruction? pc
  /-- Behind the octet, and behind every instruction, a machine goes on at the next place. -/
  behind : ∀ {j}, j < p.size → j = pc ∨ p.instruction? j ≠ none → entry (j + 1) = site j + 1
  closing : p.instruction? pc = some .opening →
    scanForward q (site pc) = (scanForward p pc).map site
  opening : p.instruction? pc = some .closing →
    scanBackward q (site pc) = (scanBackward p pc).map site

section
variable {w : Nat} {p q : Program} {site entry : Nat → Nat} {f : Int → Int}

/-- A step at the one place is the step at the other. -/
theorem Machine.step_relocate {machine : Machine w}
    (h : Program.SameAt site entry p q machine.pc) (hf : f machine.pc = site machine.pc) :
    (machine.relocate site).step q (.scanning q) =
      (machine.step p (.scanning p)).relocate f site entry := by
  have hrule := step_rule p (.scanning p) machine
  generalize machine.step p (.scanning p) = action at hrule
  have hsame : ∀ {i}, p.instruction? machine.pc = some i →
      q.instruction? (site machine.pc) = some i := by
    intro i hi
    rw [h.instruction (Program.lt_size_of_instruction?_eq_some hi), hi]
  have hbehind : ∀ {j} (tape : Tape w), j < p.size → j = machine.pc ∨ p.instruction? j ≠ none →
      (⟨j + 1, tape⟩ : Machine w).relocate entry = ⟨site j + 1, tape⟩ := by
    intro j tape hj hplace
    rw [relocate, h.behind hj hplace]
  have hnext : ∀ {j i} (tape : Tape w), p.instruction? j = some i →
      (⟨j + 1, tape⟩ : Machine w).relocate entry = ⟨site j + 1, tape⟩ := by
    intro j i tape hi
    exact hbehind tape (Program.lt_size_of_instruction?_eq_some hi) (.inr (by simp [hi]))
  apply Step.step_eq
  cases hrule with
  | done hpc => exact .done (h.ends hpc)
  | inert hpc hi =>
      rw [Action.relocate, hbehind _ hpc (.inl rfl)]
      exact .inert (h.inside hpc) ((h.instruction hpc).trans hi)
  | right hi hm =>
      rw [Action.relocate, hnext _ hi]
      exact .right (hsame hi) hm
  | rightEnd hi hm =>
      rw [Action.relocate, Verdict.move, Fault.move, hf]
      exact .rightEnd (hsame hi) hm
  | left hi hm =>
      rw [Action.relocate, hnext _ hi]
      exact .left (hsame hi) hm
  | leftEnd hi hm =>
      rw [Action.relocate, Verdict.move, Fault.move, hf]
      exact .leftEnd (hsame hi) hm
  | increment hi =>
      rw [Action.relocate, hnext _ hi]
      exact .increment (hsame hi)
  | decrement hi =>
      rw [Action.relocate, hnext _ hi]
      exact .decrement (hsame hi)
  | output hi =>
      rw [Action.relocate, hnext _ hi]
      exact .output (hsame hi)
  | input hi =>
      rw [Action.relocate, hnext _ hi]
      exact .input (hsame hi)
  | enter hi hz =>
      rw [Action.relocate, hnext _ hi]
      exact .enter (hsame hi) hz
  | skip hi hz hb =>
      rw [Action.relocate, hnext _ ((scanForward_eq_some_iff hi).mp hb).closing]
      exact .skip (hsame hi) hz ((h.closing hi).trans (congrArg (Option.map site) hb))
  | unclosed hi hz hb =>
      rw [Action.relocate, Verdict.move, Fault.move, hf]
      exact .unclosed (hsame hi) hz ((h.closing hi).trans (congrArg (Option.map site) hb))
  | leave hi hz =>
      rw [Action.relocate, hnext _ hi]
      exact .leave (hsame hi) hz
  | again hi hz hb =>
      rw [Action.relocate, hnext _ ((scanBackward_eq_some_iff hi).mp hb).opening]
      exact .again (hsame hi) hz ((h.opening hi).trans (congrArg (Option.map site) hb))
  | unopened hi hz hb =>
      rw [Action.relocate, Verdict.move, Fault.move, hf]
      exact .unopened (hsame hi) hz ((h.opening hi).trans (congrArg (Option.map site) hb))

/-- One action at two places. -/
theorem Action.matches_relocate {R : Machine w → Machine w → Prop} {g f' : Int → Int}
    {site' entry' : Nat → Nat} (hmove : ∀ position, g (f position) = f' position)
    (hsite : ∀ machine : Machine w, R (machine.relocate site) (machine.relocate site'))
    (hentry : ∀ machine : Machine w, R (machine.relocate entry) (machine.relocate entry'))
    (action : Action w) :
    (action.relocate f site entry).Matches R (Verdict.move g)
      (action.relocate f' site' entry') := by
  cases action with
  | advance next => exact .advance (hentry next)
  | write byte next => exact .write (hentry next)
  | read next => exact .read fun value => hentry (next.supply value)
  | stop verdict final =>
      have hverdict : verdict.move f' = (verdict.move f).move g := by
        rw [Verdict.move_move]
        simp only [hmove]
      rw [relocate, relocate, hverdict]
      exact .stop (hsite final)

end

namespace Execution

variable {ε σ : Type}

/-- What follows a fault: its report, and in any case the last flush. -/
def reporting (streams : Streams (Effect ε σ)) (fault : Fault) : Effect ε σ Unit :=
  tryFinally (report streams fault) streams.out.flush

/-- An attempt whose run has faulted has the report before it. -/
theorem runFrom_attempt_of_fault {streams : Streams (Effect ε σ)} {options : Options}
    {p : Program} {k : Nat} {s s₁ : σ} {fault : Fault} {final : Machine options.cellWidth.bits}
    (h : (runFor streams p (options.brackets.matcher p) k
      (Machine.initial options.tape)).runFrom s =
        (.ok (.stopped (.faulted fault) final), s₁)) :
    (attempt streams options p k).runFrom s =
      (((report streams fault).runFrom s₁).1.map fun _ => some (.faulted fault),
        ((report streams fault).runFrom s₁).2) := by
  rw [runFrom_attempt h]
  simp only [conclude, Effect.runFrom_bind]
  rcases (report streams fault).runFrom s₁ with ⟨_ | _, s₂⟩ <;> rfl

/-- An execution whose run has faulted has the report and the last flush before it. -/
theorem runFrom_interpret_of_fault {streams : Streams (Effect ε σ)} {settings : Settings}
    {options : Options} (hoptions : settings.prepare host = .ok options) {p : Program} {k : Nat}
    {s s₁ : σ} {fault : Fault} {final : Machine options.cellWidth.bits}
    (h : (runFor streams p (options.brackets.matcher p) k
      (Machine.initial options.tape)).runFrom s =
        (.ok (.stopped (.faulted fault) final), s₁)) :
    (interpret host streams settings p k).runFrom s =
      (((reporting streams fault).runFrom s₁).1.map fun _ => .ok (some (.faulted fault)),
        ((reporting streams fault).runFrom s₁).2) := by
  rw [runFrom_interpret streams hoptions, runFrom_attempt_of_fault h, reporting,
    Effect.runFrom_tryFinally]
  rcases (report streams fault).runFrom s₁ with ⟨_ | _, s₂⟩ <;>
    rcases streams.out.flush.runFrom s₂ with ⟨_ | _, s₃⟩ <;> rfl

end Execution

/-- Whether the reports of two faults succeed or fail alike. Streams that never fail report
alike, and so do streams that choose the calls that fail without looking at the bytes. -/
def Streams.ReportsAlike {ε σ : Type} (streams : Streams (Effect ε σ)) : Prop :=
  ∀ fault fault' s, ((Execution.reporting streams fault).runFrom s).1 =
    ((Execution.reporting streams fault').runFrom s).1

theorem Streams.NeverFails.reportsAlike {ε σ : Type} {streams : Streams (Effect ε σ)}
    (h : streams.NeverFails) : streams.ReportsAlike := by
  have hreports : ∀ fault s, ((Execution.reporting streams fault).runFrom s).1 = .ok () := by
    intro fault s
    obtain ⟨s', hclosing⟩ := Execution.exists_closing h (.faulted fault) s
    obtain ⟨_, s₁, hreport, hflush⟩ := Effect.bind_yields_iff.mp hclosing
    exact congrArg Prod.fst (Effect.tryFinally_yields_iff.mpr ⟨s₁, hreport, hflush⟩)
  intro fault fault' s
  rw [hreports, hreports]

/-- The calls of scripted streams fail by their number. -/
theorem Script.reportsAlike (out log : SinkPlan) : (streams out log).ReportsAlike :=
  fun _ _ _ => rfl

/-- Whether a call concerns the error log. -/
def Event.isLog : Event → Bool
  | .logWrite _ => true
  | .logFlush => true
  | _ => false

namespace Recorded

variable {ε σ α : Type}

/-- The calls on the input and on the output. -/
def exchanged (r : Recorded σ) : List Event := r.trace.toList.filter fun event => !event.isLog

/-- A recorded computation does what the computation does, and adds events of which the
given ones concern the input and the output. -/
def Leaves (x : Effect ε (Recorded σ) α) (y : Effect ε σ α) (kept : List Event) : Prop :=
  ∀ r, ∃ events, events.filter (fun event => !event.isLog) = kept ∧
    x.runFrom r = ((y.runFrom r.world).1, r.extend (y.runFrom r.world).2 events)

theorem Leaves.bind {β : Type} {x : Effect ε (Recorded σ) α} {y : Effect ε σ α}
    {f : α → Effect ε (Recorded σ) β} {g : α → Effect ε σ β} {kept : List Event}
    (h : Leaves x y kept) (hfg : ∀ a, Leaves (f a) (g a) []) :
    Leaves (x >>= f) (y >>= g) kept := by
  intro r
  obtain ⟨events, hkept, hx⟩ := h r
  rw [Effect.runFrom_bind, Effect.runFrom_bind, hx]
  rcases y.runFrom r.world with ⟨error | a, s₁⟩
  · exact ⟨events, hkept, rfl⟩
  · obtain ⟨more, hnone, hf⟩ := hfg a (r.extend s₁ events)
    refine ⟨events ++ more, by rw [List.filter_append, hkept, hnone, List.append_nil], ?_⟩
    dsimp only
    rw [hf, extend_extend, world_extend]

theorem Leaves.tryFinally {x : Effect ε (Recorded σ) α} {y : Effect ε σ α}
    {f : Effect ε (Recorded σ) Unit} {g : Effect ε σ Unit} {kept kept' : List Event}
    (h : Leaves x y kept) (hfg : Leaves f g kept') :
    Leaves (tryFinally x f) (tryFinally y g) (kept ++ kept') := by
  intro r
  obtain ⟨events, hkept, hx⟩ := h r
  obtain ⟨more, hmore, hf⟩ := hfg (r.extend (y.runFrom r.world).2 events)
  refine ⟨events ++ more, by rw [List.filter_append, hkept, hmore], ?_⟩
  rw [Effect.runFrom_tryFinally, Effect.runFrom_tryFinally, hx]
  dsimp only
  rw [hf, extend_extend, world_extend]
  rcases g.runFrom (y.runFrom r.world).2 with ⟨_ | _, s₂⟩ <;> rfl

theorem leaves_outFlush (s : Streams (Effect ε σ)) :
    Leaves (streams s).out.flush s.out.flush s.outFlushes := by
  intro r
  refine ⟨s.outFlushes, ?_, runFrom_flush .outWrite .outFlush s.out r⟩
  unfold Streams.outFlushes Sink.flushEvents
  split <;> rfl

theorem leaves_logFlush (s : Streams (Effect ε σ)) :
    Leaves (streams s).log.flush s.log.flush [] := by
  intro r
  refine ⟨s.logFlushes, ?_, runFrom_flush .logWrite .logFlush s.log r⟩
  unfold Streams.logFlushes Sink.flushEvents
  split <;> rfl

theorem leaves_logWrite (s : Streams (Effect ε σ)) (bytes : List UInt8) :
    Leaves ((streams s).log.write bytes) (s.log.write bytes) [] := by
  intro r
  exact ⟨[.logWrite bytes], rfl, runFrom_note_lift (.logWrite bytes) (s.log.write bytes) r⟩

/-- The report of a fault and the last flush are two flushes of the output, even if one of
the calls fails. -/
theorem leaves_reporting (s : Streams (Effect ε σ)) (fault : Fault) :
    Leaves (Execution.reporting (streams s) fault) (Execution.reporting s fault)
      (s.outFlushes ++ s.outFlushes) := by
  apply Leaves.tryFinally _ (leaves_outFlush s)
  apply (leaves_outFlush s).bind
  intro _
  apply (leaves_logWrite s _).bind
  intro _
  exact leaves_logFlush s

end Recorded

/-- How an execution compares with another one that names its faults at other positions. The
map carries the positions of the second one to those of the first. -/
structure Relocated {ε σ : Type} (streams : Streams (Effect ε σ)) (g : Int → Int)
    (run other : Except ε (Except StartError (Option Verdict)) × Recorded σ) : Prop where
  /-- Both make the same calls on the input and on the output. -/
  exchanged : run.2.exchanged = other.2.exchanged
  /-- Neither is still running unless the other one is. -/
  running : run.1 = .ok (.ok none) ↔ other.1 = .ok (.ok none)
  /-- Verdicts differ in the position of a fault only. -/
  verdict : ∀ v v', run.1 = .ok (.ok (some v)) → other.1 = .ok (.ok (some v')) → v = v'.move g
  /-- They return or fail alike, unless the error log makes a difference between faults. -/
  outcome : streams.ReportsAlike → run.1 = other.1.map (Except.map (Option.map (Verdict.move g)))

section
variable {ε σ : Type} {streams : Streams (Effect ε σ)} {g : Int → Int}

/-- Equal executions name the same positions, if they do not end with a fault. -/
theorem Relocated.of_eq
    {run other : Except ε (Except StartError (Option Verdict)) × Recorded σ}
    (h : run = other) (hverdict : ∀ v, run.1 = .ok (.ok (some v)) → v = .completed) :
    Relocated streams g run other where
  exchanged := by rw [h]
  running := by rw [h]
  verdict v v' hv hv' := by
    obtain rfl := hverdict v hv
    obtain rfl := hverdict v' (h ▸ hv')
    rfl
  outcome _ := by
    subst h
    rcases hrun : run.1 with error | error | _ | v
    · rfl
    · rfl
    · rfl
    · obtain rfl := hverdict v hrun
      rfl

/-- The reports of a fault at two positions. -/
theorem Relocated.reporting (g : Int → Int) (fault : Fault) (r : Recorded σ) :
    Relocated streams g
      (((Execution.reporting (Recorded.streams streams) (fault.move g)).runFrom r).1.map
          fun _ => .ok (some (.faulted (fault.move g))),
        ((Execution.reporting (Recorded.streams streams) (fault.move g)).runFrom r).2)
      (((Execution.reporting (Recorded.streams streams) fault).runFrom r).1.map
          fun _ => .ok (some (.faulted fault)),
        ((Execution.reporting (Recorded.streams streams) fault).runFrom r).2) := by
  obtain ⟨events, hevents, hrun⟩ := Recorded.leaves_reporting streams (fault.move g) r
  obtain ⟨events', hevents', hrun'⟩ := Recorded.leaves_reporting streams fault r
  rw [hrun, hrun']
  refine ⟨?_, ?_, ?_, ?_⟩
  · unfold Recorded.exchanged
    rw [Recorded.trace_extend, Recorded.trace_extend, List.filter_append, List.filter_append,
      hevents, hevents']
  · rcases ((Execution.reporting streams (fault.move g)).runFrom r.world).1 with _ | _ <;>
      rcases ((Execution.reporting streams fault).runFrom r.world).1 with _ | _ <;>
      simp [Except.map]
  · intro v v' hv hv'
    rcases hreport : ((Execution.reporting streams (fault.move g)).runFrom r.world).1 with _ | _
    · simp [hreport, Except.map] at hv
    · rcases hreport' : ((Execution.reporting streams fault).runFrom r.world).1 with _ | _
      · simp [hreport', Except.map] at hv'
      · simp [hreport, Except.map] at hv
        simp [hreport', Except.map] at hv'
        rw [← hv, ← hv']
        rfl
  · intro halike
    dsimp only
    rw [halike (fault.move g) fault r.world]
    rcases ((Execution.reporting streams fault).runFrom r.world).1 with _ | _ <;> rfl

section
variable {p p' : Program} {settings : Settings} {options : Options} {n n' : Nat}
variable {r : Recorded σ}

/-- Attempts that end alike, and not with a fault, lead to executions that do. -/
theorem Relocated.of_attempt (hoptions : settings.prepare host = .ok options) {r' : Recorded σ}
    {outcome : Except ε (Option Verdict)} (hverdict : ∀ v, outcome = .ok (some v) → v = .completed)
    (hrun : (Execution.attempt (Recorded.streams streams) options p n).runFrom r = (outcome, r'))
    (hother : (Execution.attempt (Recorded.streams streams) options p' n').runFrom r =
      (outcome, r')) :
    Relocated streams g ((interpret host (Recorded.streams streams) settings p n).runFrom r)
      ((interpret host (Recorded.streams streams) settings p' n').runFrom r) := by
  rw [Execution.runFrom_interpret _ hoptions, Execution.runFrom_interpret _ hoptions, hrun,
    hother]
  refine .of_eq rfl fun v hv => hverdict v ?_
  rcases hflush : (Recorded.streams streams).out.flush.runFrom r' with ⟨error | _, r''⟩
  · simp [hflush] at hv
  · rcases outcome with error | result
    · simp [hflush, Except.map] at hv
    · simpa [hflush, Except.map] using hv

/-- Runs that are in lockstep up to positions lead to executions that differ in positions. -/
theorem Relocated.of_lockstep (hoptions : settings.prepare host = .ok options)
    {R : Machine options.cellWidth.bits → Machine options.cellWidth.bits → Prop}
    (h : InLockstep R (Verdict.move g)
      ((Execution.runFor (Recorded.streams streams) p' (options.brackets.matcher p') n'
        (Machine.initial options.tape)).runFrom r)
      ((Execution.runFor (Recorded.streams streams) p (options.brackets.matcher p) n
        (Machine.initial options.tape)).runFrom r)) :
    Relocated streams g ((interpret host (Recorded.streams streams) settings p n).runFrom r)
      ((interpret host (Recorded.streams streams) settings p' n').runFrom r) := by
  generalize hother : (Execution.runFor (Recorded.streams streams) p'
    (options.brackets.matcher p') n'
    (Machine.initial options.tape)).runFrom r = other at h
  generalize hrun : (Execution.runFor (Recorded.streams streams) p
    (options.brackets.matcher p) n
    (Machine.initial options.tape)).runFrom r = run at h
  have hattempt := Execution.runFrom_attempt hrun
  have hattempt' := Execution.runFrom_attempt hother
  cases h with
  | fails => exact .of_attempt hoptions (by simp) hattempt hattempt'
  | yields hmatches =>
      cases hmatches with
      | running _ => exact .of_attempt hoptions (by simp) hattempt hattempt'
      | @stopped verdict _ _ _ =>
          cases verdict with
          | completed => exact .of_attempt hoptions (by simp) hattempt hattempt'
          | faulted fault =>
              rw [Execution.runFrom_interpret_of_fault hoptions hrun,
                Execution.runFrom_interpret_of_fault hoptions hother]
              exact .reporting g fault _

/-- An execution that does not start touches no stream, so that the program makes no
difference. -/
theorem Relocated.of_error {error : StartError} (herror : settings.prepare host = .error error)
    (p p' : Program) (n n' : Nat) (r : Recorded σ) :
    Relocated streams g ((interpret host (Recorded.streams streams) settings p n).runFrom r)
      ((interpret host (Recorded.streams streams) settings p' n').runFrom r) := by
  rw [interpret_of_error herror, interpret_of_error herror]
  exact .of_eq rfl (by simp)

end

end

end Brainfuck
