import Brainfuck.Proofs.Recording
import Brainfuck.Proofs.Simulation
import Brainfuck.Stream.Script

/-!
# Executions that a failing call cuts short

Streams that may fail are compared with streams that do the same and never fail. The
events of a trace stand for calls, so the trace of an execution that nothing interrupts
can be replayed on the streams that may fail, up to the first call that does. The other
execution makes exactly these calls. It then flushes the output once more, unless the call
that failed was the last flush itself, and ends with an error.

What a failing call does to the state of its stream is not restricted, and neither is the
rule by which calls fail: it may depend on everything that happened before.
-/
namespace Brainfuck

open Brainfuck.Bracket

variable {host : Host}

/-- A sink over a state, among effects that may fail. -/
def Sink.ofState {ε σ : Type} (sink : Sink (StateM σ)) : Sink (Effect ε σ) where
  write bytes := ExceptT.lift (sink.write bytes)
  flush? := sink.flush?.map ExceptT.lift

/-- Whenever the first computation succeeds, it does what the second one does. -/
def Effect.Interrupts {ε σ α : Type} (x : Effect ε σ α) (y : StateM σ α) : Prop :=
  ∀ s a s', x.runFrom s = (.ok a, s') → y s = (a, s')

structure Sink.Interrupts {ε σ : Type} (s : Sink (Effect ε σ)) (t : Sink (StateM σ)) : Prop where
  write : ∀ bytes, (s.write bytes).Interrupts (t.write bytes)
  flush : s.flush.Interrupts t.flush
  flushable : s.flush?.isSome = t.flush?.isSome

/-- Streams that may fail, and streams that return the same values and never do. -/
structure Streams.Interrupts {ε σ : Type} (streams : Streams (Effect ε σ))
    (total : Streams (StateM σ)) : Prop where
  read : streams.read.Interrupts total.read
  out : streams.out.Interrupts total.out
  log : streams.log.Interrupts total.log

/-- The event that a call leaves behind if it fails. -/
def Event.failed : Event → Event
  | .read _ => .readFailed
  | event => event

namespace Streams

variable {ε σ : Type} (streams : Streams (Effect ε σ))

/-- The call that an event stands for. -/
def call : Event → Effect ε σ Unit
  | .outWrite bytes => streams.out.write bytes
  | .outFlush => streams.out.flush
  | .logWrite bytes => streams.log.write bytes
  | .logFlush => streams.log.flush
  | .read _ => do let _ ← streams.read
  | .readFailed => do let _ ← streams.read

/-- The calls of a trace, one after another. -/
def replay : List Event → Effect ε σ Unit
  | [] => pure ()
  | event :: rest => do
    streams.call event
    replay rest

/-- After some calls have succeeded, a further call fails and leaves the last state. -/
def FailsAfter (s : σ) (before : List Event) (event : Event) (error : ε) (s' : σ) : Prop :=
  ∃ s₁, (streams.replay before).runFrom s = (.ok (), s₁) ∧
    (streams.call event).runFrom s₁ = (.error error, s')

/-- How an execution ends after calls of which the last one has failed: the output is
flushed once more, and an error of this flush takes the place of the first one. -/
def abandon {α : Type} (world : σ) (events : List Event) (error : ε) (s : σ) :
    Except ε α × Recorded σ :=
  match streams.out.flush.runFrom s with
  | (.ok _, s') => (.error error, (Recorded.start world).extend s' (events ++ streams.outFlushes))
  | (.error last, s') =>
    (.error last, (Recorded.start world).extend s' (events ++ streams.outFlushes))

/-- What is left of an execution when a call fails, given the calls before it and those that
would have come after it. Only a last flush that fails is not followed by another one. -/
def cutShort {α : Type} (world : σ) (before : List Event) (event : Event) (after : List Event)
    (error : ε) (s' : σ) : Except ε α × Recorded σ :=
  if after.length < streams.outFlushes.length then
    (.error error, (Recorded.start world).extend s' (before ++ [event.failed]))
  else streams.abandon world (before ++ [event.failed]) error s'

variable {streams} {s s₁ s' : σ} {before before' after : List Event} {event : Event} {error : ε}

theorem replay_append_yields (h : (streams.replay before).runFrom s = (.ok (), s₁))
    (h' : (streams.replay after).runFrom s₁ = (.ok (), s')) :
    (streams.replay (before ++ after)).runFrom s = (.ok (), s') := by
  induction before generalizing s with
  | nil =>
      obtain rfl : s = s₁ := by simpa [replay] using h
      exact h'
  | cons event before ih =>
      obtain ⟨_, s₂, hcall, h⟩ := Effect.bind_yields_iff.mp h
      exact Effect.bind_yields_iff.mpr ⟨_, s₂, hcall, ih h⟩

theorem replay_singleton (h : (streams.call event).runFrom s = (.ok (), s')) :
    (streams.replay [event]).runFrom s = (.ok (), s') :=
  Effect.bind_yields_iff.mpr ⟨_, _, h, rfl⟩

theorem failsAfter_nil (h : (streams.call event).runFrom s = (.error error, s')) :
    streams.FailsAfter s [] event error s' :=
  ⟨s, rfl, h⟩

theorem FailsAfter.append (h : streams.FailsAfter s₁ before event error s')
    (h' : (streams.replay before').runFrom s = (.ok (), s₁)) :
    streams.FailsAfter s (before' ++ before) event error s' := by
  obtain ⟨s₂, hbefore, hcall⟩ := h
  exact ⟨s₂, replay_append_yields h' hbefore, hcall⟩

end Streams

namespace Interruption

variable {ε σ α : Type}

/-- The two ways in which a computation compares with one that made the given calls: it
has made the same calls, or it has failed at one of them. -/
inductive Compares (streams : Streams (Effect ε σ)) (V : α → α → Prop) (r : Recorded σ) (b : α)
    (world : σ) (events : List Event) : Except ε α × Recorded σ → Prop
  | whole {a : α} : V a b → (streams.replay events).runFrom r.world = (.ok (), world) →
      Compares streams V r b world events (.ok a, r.extend world events)
  | cut {before after : List Event} {event : Event} {error : ε} {s' : σ} :
      events = before ++ event :: after → streams.FailsAfter r.world before event error s' →
      Compares streams V r b world events
        (.error error, r.extend s' (before ++ [event.failed]))

/-- The second computation succeeds, and the first one compares with it. -/
def Truncates (streams : Streams (Effect ε σ)) (V : α → α → Prop)
    (x y : Effect ε (Recorded σ) α) : Prop :=
  ∀ r, ∃ b world events, y.runFrom r = (.ok b, r.extend world events) ∧
    Compares streams V r b world events (x.runFrom r)

variable {streams : Streams (Effect ε σ)}

theorem Truncates.pure {V : α → α → Prop} {a b : α} (h : V a b) :
    Truncates streams V (pure a) (pure b) := by
  intro r
  have hr : r.extend r.world [] = r := by simp [Recorded.extend]
  refine ⟨b, r.world, [], by rw [hr]; rfl, ?_⟩
  have hwhole : Compares streams V r b r.world [] (.ok a, r.extend r.world []) := .whole h rfl
  rwa [hr] at hwhole

theorem Truncates.bind {β : Type} {V : α → α → Prop} {W : β → β → Prop}
    {x y : Effect ε (Recorded σ) α} {f g : α → Effect ε (Recorded σ) β} (hV : ∀ a, V a a)
    (h : Truncates streams V x y) (hfg : ∀ a b, V a b → Truncates streams W (f a) (g b)) :
    Truncates streams W (x >>= f) (y >>= g) := by
  intro r
  obtain ⟨b, world, events, hy, hx⟩ := h r
  rw [Effect.runFrom_bind x f r]
  generalize x.runFrom r = first at hx
  cases hx with
  | @whole a hab hreplay =>
      obtain ⟨c, world', more, hg, hf⟩ := hfg a b hab (r.extend world events)
      rw [Recorded.extend_extend] at hg
      refine ⟨c, world', events ++ more, Effect.bind_yields_iff.mpr ⟨b, _, hy, hg⟩, ?_⟩
      dsimp only
      generalize (f a).runFrom (r.extend world events) = second at hf
      cases hf with
      | whole hW hmore =>
          rw [Recorded.extend_extend]
          exact .whole hW (Streams.replay_append_yields hreplay hmore)
      | @cut before after event error s' hsplit hfails =>
          rw [Recorded.extend_extend, ← List.append_assoc]
          have hmore : events ++ more = (events ++ before) ++ event :: after := by
            rw [hsplit, List.append_assoc]
          exact .cut hmore (hfails.append hreplay)
  | @cut before after event error s' hsplit hfails =>
      -- The second side goes on, with a value that is related to itself.
      obtain ⟨c, world', more, hg, _⟩ := hfg b b (hV b) (r.extend world events)
      rw [Recorded.extend_extend] at hg
      refine ⟨c, world', events ++ more, Effect.bind_yields_iff.mpr ⟨b, _, hy, hg⟩, ?_⟩
      have hmore : events ++ more = before ++ event :: (after ++ more) := by
        rw [hsplit, List.append_assoc, List.cons_append]
      exact .cut hmore hfails

/-- Being cut short by failing calls, as a simulation. -/
def simulation (streams : Streams (Effect ε σ)) :
    Simulation (Effect ε (Recorded σ)) (Effect ε (Recorded σ)) where
  Rel := Truncates streams
  pure := Truncates.pure
  bind := Truncates.bind

/-- A recorded call that succeeds leaves what the other one leaves, and one that fails
leaves its event. -/
theorem truncates_call {event : Event} {x : Effect ε σ Unit} {y : StateM σ Unit}
    (hcall : streams.call event = x) (hfailed : event.failed = event) (h : x.Interrupts y) :
    Truncates streams Eq (Recorded.note event >>= fun _ => Recorded.lift x)
      (Recorded.note event >>= fun _ => Recorded.lift (ExceptT.lift y)) := by
  intro r
  rw [Recorded.runFrom_note_lift, Recorded.runFrom_note_lift]
  refine ⟨(), (y r.world).2, [event], rfl, ?_⟩
  rcases hx : x.runFrom r.world with ⟨error | _, s'⟩
  · have hfails : streams.FailsAfter r.world [] event error s' :=
      Streams.failsAfter_nil (by rw [hcall, hx])
    have hcut : Compares streams Eq r () (y r.world).2 [event]
        (.error error, r.extend s' ([] ++ [event.failed])) :=
      .cut (show [event] = [] ++ event :: [] from rfl) hfails
    rwa [hfailed] at hcut
  · have hy := h _ _ _ hx
    rw [hy]
    exact .whole rfl (Streams.replay_singleton (by rw [hcall, hx]))

theorem truncates_read {y : StateM σ (Option Int)} (h : streams.read.Interrupts y) (w : Nat) :
    Truncates streams (SameCell w) (Recorded.read streams.read)
      (Recorded.read (ExceptT.lift y)) := by
  intro r
  rw [Recorded.runFrom_read, Recorded.runFrom_read]
  refine ⟨(y r.world).1, (y r.world).2, [.read (y r.world).1], rfl, ?_⟩
  rcases hx : streams.read.runFrom r.world with ⟨error | value, s'⟩
  · have hcall : (streams.call (.read (y r.world).1)).runFrom r.world = (.error error, s') := by
      unfold Streams.call
      rw [Effect.runFrom_bind, hx]
    exact .cut (show _ = [] ++ Event.read (y r.world).1 :: [] from rfl)
      (Streams.failsAfter_nil hcall)
  · have hy := h _ _ _ hx
    rw [hy]
    refine .whole (SameCell.refl w value) (Streams.replay_singleton ?_)
    exact Effect.bind_yields_iff.mpr ⟨_, _, hx, rfl⟩

theorem related_sink {write : List UInt8 → Event} {flush : Event} {s : Sink (Effect ε σ)}
    {t : Sink (StateM σ)} (h : s.Interrupts t)
    (hwrite : ∀ bytes, streams.call (write bytes) = s.write bytes)
    (hwritten : ∀ bytes, (write bytes).failed = write bytes)
    (hflush : streams.call flush = s.flush) (hflushed : flush.failed = flush) :
    (Recorded.sink write flush s).Related (simulation streams)
      (Recorded.sink write flush (Sink.ofState t)) where
  write bytes := truncates_call (hwrite bytes) (hwritten bytes) (h.write bytes)
  flush := by
    have hcall := h.flush
    have hsome := h.flushable
    unfold Sink.flush at hcall hflush ⊢
    unfold Recorded.sink Sink.ofState
    cases hs : s.flush? with
    | none =>
        rw [hs] at hsome
        cases ht : t.flush? with
        | none => exact Truncates.pure rfl
        | some action => simp [ht] at hsome
    | some action =>
        rw [hs] at hcall hflush hsome
        cases ht : t.flush? with
        | none => simp [ht] at hsome
        | some action' =>
            rw [ht] at hcall
            exact truncates_call hflush hflushed hcall

section
variable {total : Streams (StateM σ)}

theorem related_streams (h : streams.Interrupts total) (w : Nat) :
    (Recorded.streams streams).Related (simulation streams) w
      (Recorded.streams (Streams.ofState total)) where
  read := truncates_read h.read w
  out := related_sink h.out (fun _ => rfl) (fun _ => rfl) rfl rfl

theorem related_log (h : streams.Interrupts total) :
    (Recorded.streams streams).log.Related (simulation streams)
      (Recorded.streams (Streams.ofState total)).log :=
  related_sink h.log (fun _ => rfl) (fun _ => rfl) rfl rfl

theorem outFlushes_ofState (h : streams.Interrupts total) :
    (Streams.ofState total : Streams (Effect ε σ)).outFlushes = streams.outFlushes := by
  unfold Streams.outFlushes Sink.flushEvents
  rw [h.out.flushable]
  simp [Streams.ofState]

theorem runFrom_flush_ofState (sink : Sink (StateM σ)) (s : σ) :
    (Sink.ofState sink : Sink (Effect ε σ)).flush.runFrom s = (.ok (), (sink.flush s).2) := by
  unfold Sink.flush Sink.ofState
  cases sink.flush? with
  | none => rfl
  | some action => exact Effect.lift_yields action s

/-- An execution is its attempt and one more flush of the output. -/
theorem runFrom_interpret_recorded (streams : Streams (Effect ε σ)) {settings : Settings}
    {options : Options} (hoptions : settings.prepare host = .ok options) {p : Program} {k : Nat}
    {world s : σ} {events : List Event} {outcome : Except ε (Option Verdict)}
    (h : (Execution.attempt (Recorded.streams streams) options p k).runFrom (.start world) =
      (outcome, (Recorded.start world).extend s events)) :
    (interpret host (Recorded.streams streams) settings p k).runFrom (.start world) =
      match streams.out.flush.runFrom s with
      | (.ok _, s') =>
        (outcome.map .ok, (Recorded.start world).extend s' (events ++ streams.outFlushes))
      | (.error error, s') =>
        (.error error, (Recorded.start world).extend s' (events ++ streams.outFlushes)) := by
  have hflush : (Recorded.streams streams).out.flush.runFrom
      ((Recorded.start world).extend s events) = ((streams.out.flush.runFrom s).1,
        ((Recorded.start world).extend s events).extend (streams.out.flush.runFrom s).2
          streams.outFlushes) :=
    Recorded.runFrom_flush .outWrite .outFlush streams.out _
  rw [Execution.runFrom_interpret _ hoptions, h, hflush, Recorded.extend_extend]
  rcases streams.out.flush.runFrom s with ⟨_ | _, s'⟩ <;> rfl

/-- An attempt that has ended leads to the same with every larger budget. -/
theorem attempt_of_le {options : Options} {p : Program} {n k : Nat} {world s : σ}
    {events : List Event} {outcome : Except ε (Option Verdict)}
    (h : (Execution.attempt (Recorded.streams streams) options p n).runFrom (.start world) =
      (outcome, (Recorded.start world).extend s events))
    (hk : n ≤ k) (hended : k = n ∨ outcome ≠ .ok none) :
    (Execution.attempt (Recorded.streams streams) options p k).runFrom (.start world) =
      (outcome, (Recorded.start world).extend s events) := by
  rcases hended with rfl | hended
  · exact h
  · obtain ⟨j, rfl⟩ := Nat.exists_eq_add_of_le hk
    rw [Execution.attempt_add (by rw [h]; exact hended), h]

theorem replay_outFlushes {s s' : σ} (h : streams.out.flush.runFrom s = (.ok (), s')) :
    (streams.replay streams.outFlushes).runFrom s = (.ok (), s') := by
  unfold Streams.outFlushes Sink.flushEvents
  unfold Sink.flush at h
  cases hflush : streams.out.flush? with
  | some action =>
      rw [hflush] at h
      refine Streams.replay_singleton ?_
      unfold Streams.call Sink.flush
      rwa [hflush]
  | none =>
      rw [hflush] at h
      exact h

/-- A flush that fails is a call, and leaves its event. -/
theorem outFlushes_of_error {s s' : σ} {error : ε}
    (h : streams.out.flush.runFrom s = (.error error, s')) :
    streams.outFlushes = [.outFlush] := by
  unfold Streams.outFlushes Sink.flushEvents
  unfold Sink.flush at h
  cases hflush : streams.out.flush? with
  | some action => rfl
  | none => simp [hflush] at h

/-- A call that fails during an attempt cuts the execution short, whatever the budget. -/
theorem interpret_of_cut {settings : Settings} {options : Options}
    (hoptions : settings.prepare host = .ok options) {p : Program} {n k : Nat} {world s' : σ}
    {before after : List Event} {event : Event} {error : ε}
    (hrun : (Execution.attempt (Recorded.streams streams) options p n).runFrom (.start world) =
      (.error error, (Recorded.start world).extend s' (before ++ [event.failed])))
    (hk : n ≤ k) (hafter : streams.outFlushes.length ≤ after.length) :
    (interpret host (Recorded.streams streams) settings p k).runFrom (.start world) =
      streams.cutShort world before event after error s' := by
  have hlarger := attempt_of_le hrun hk (.inr (by simp))
  rw [runFrom_interpret_recorded streams hoptions hlarger]
  unfold Streams.cutShort Streams.abandon
  rw [if_neg (Nat.not_lt_of_le hafter)]
  rcases streams.out.flush.runFrom s' with ⟨_ | _, s₁⟩ <;> rfl

/-- A last flush that fails is followed by no other one. -/
theorem interpret_of_lastFlush {settings : Settings} {options : Options}
    (hoptions : settings.prepare host = .ok options) {p : Program} {n k : Nat} {world s s' : σ}
    {events : List Event} {result : Option Verdict} {error : ε}
    (hrun : (Execution.attempt (Recorded.streams streams) options p n).runFrom (.start world) =
      (.ok result, (Recorded.start world).extend s events))
    (hflush : streams.out.flush.runFrom s = (.error error, s')) (hk : n ≤ k)
    (hended : k = n ∨ result.isSome) :
    (interpret host (Recorded.streams streams) settings p k).runFrom (.start world) =
      streams.cutShort world events .outFlush [] error s' := by
  have hended' : k = n ∨ (Except.ok result : Except ε (Option Verdict)) ≠ .ok none := by
    refine hended.imp_right fun hsome => ?_
    rintro ⟨⟩
    cases hsome
  have hlarger := attempt_of_le hrun hk hended'
  have hout := outFlushes_of_error hflush
  rw [runFrom_interpret_recorded streams hoptions hlarger, hflush]
  unfold Streams.cutShort
  rw [hout, if_pos (by simp)]
  rfl

end

end Interruption

namespace Script

/-- The streams that follow the same script and never fail. The end of input takes the
place of a reply that is a failure. -/
def forgiving (out log : SinkPlan) : Streams (StateM Script) where
  read := fun script =>
    match script.replies with
    | [] => (none, script)
    | .value value :: replies => (value, { script with replies })
    | .failure :: replies => (none, { script with replies })
  out :=
    { write := fun _ s => ((), { s with outWrites := s.outWrites + 1 })
      flush? :=
        if out.flushes then some fun s => ((), { s with outFlushes := s.outFlushes + 1 })
        else none }
  log :=
    { write := fun _ s => ((), { s with logWrites := s.logWrites + 1 })
      flush? :=
        if log.flushes then some fun s => ((), { s with logFlushes := s.logFlushes + 1 })
        else none }

theorem interrupts_count (bump : Script → Nat × Script) (failAt : Option Nat)
    (error : StreamError) :
    (count bump failAt error).Interrupts fun s => ((), (bump s).2) := by
  intro s _ s' h
  unfold count at h
  obtain ⟨n, s₁, hbump, h⟩ := Effect.bind_yields_iff.mp h
  obtain ⟨rfl, rfl⟩ : (bump s).1 = n ∧ (bump s).2 = s₁ := by
    have hcall : Effect.runFrom (modifyGet bump : Effect StreamError Script Nat) s =
        (.ok (bump s).1, (bump s).2) := rfl
    rw [hcall] at hbump
    simpa using hbump
  split at h
  · cases (Prod.mk.inj h).1
  · exact Prod.ext rfl (Prod.mk.inj h).2

theorem interrupts_forgiving (out log : SinkPlan) :
    (streams out log).Interrupts (forgiving out log) where
  read := by
    intro script value script' h
    obtain ⟨replies, outWrites, outFlushes, logWrites, logFlushes⟩ := script
    cases replies with
    | nil => exact Prod.ext (Except.ok.inj (Prod.mk.inj h).1) (Prod.mk.inj h).2
    | cons reply rest =>
        cases reply with
        | value reply => exact Prod.ext (Except.ok.inj (Prod.mk.inj h).1) (Prod.mk.inj h).2
        | failure => exact nomatch (Prod.mk.inj h).1
  out :=
    { write := fun _ => interrupts_count _ _ _
      flush := by
        unfold Sink.flush streams forgiving
        cases out.flushes with
        | true => exact interrupts_count _ _ _
        | false =>
            intro s _ s' h
            exact Prod.ext rfl (Prod.mk.inj h).2
      flushable := by
        unfold streams forgiving
        cases out.flushes <;> rfl }
  log :=
    { write := fun _ => interrupts_count _ _ _
      flush := by
        unfold Sink.flush streams forgiving
        cases log.flushes with
        | true => exact interrupts_count _ _ _
        | false =>
            intro s _ s' h
            exact Prod.ext rfl (Prod.mk.inj h).2
      flushable := by
        unfold streams forgiving
        cases log.flushes <;> rfl }

end Script

/-- Streams that may fail against streams that do the same and never fail. Either no call
of the uninterrupted trace fails, and both executions are the same; or the calls of the
trace are made up to and including the first one that fails, and no verdict is returned.
Then the output is flushed once more, unless the failed call was the last flush. A larger
budget changes nothing, so a failure in the middle of a run that never ends is covered. -/
theorem interpret_cut_short {ε σ : Type} {streams : Streams (Effect ε σ)}
    {total : Streams (StateM σ)} (h : streams.Interrupts total) {settings : Settings}
    {options : Options} (hoptions : settings.prepare host = .ok options) (p : Program) (n : Nat)
    (world : σ) :
    ∃ result r,
      (interpret host (Recorded.streams (Streams.ofState total : Streams (Effect ε σ))) settings p
        n).runFrom (.start world) = (.ok (.ok result), r) ∧
      (((streams.replay r.trace.toList).runFrom world = (.ok (), r.world) ∧
          (interpret host (Recorded.streams streams) settings p n).runFrom (.start world) =
            (.ok (.ok result), r)) ∨
        ∃ before event after error s', r.trace.toList = before ++ event :: after ∧
          streams.FailsAfter world before event error s' ∧
          ∀ k, n ≤ k → (k = n ∨ result.isSome ∨ streams.outFlushes.length ≤ after.length) →
            (interpret host (Recorded.streams streams) settings p k).runFrom (.start world) =
              streams.cutShort world before event after error s') := by
  obtain ⟨result, s, events, htotal, hattempt⟩ :=
    Execution.rel_attempt (Interruption.related_streams h options.cellWidth.bits)
      (Interruption.related_log h) p n (.start world)
  have hreturns := Interruption.runFrom_interpret_recorded _ hoptions htotal
  rw [show (Streams.ofState total : Streams (Effect ε σ)).out = Sink.ofState total.out from rfl,
    Interruption.runFrom_flush_ofState, Interruption.outFlushes_ofState h] at hreturns
  refine ⟨result, _, hreturns, ?_⟩
  have htrace : ((Recorded.start world).extend (total.out.flush s).2
      (events ++ streams.outFlushes)).trace.toList = events ++ streams.outFlushes := by
    rw [Recorded.trace_extend]
    rfl
  rw [htrace]
  generalize hrun : (Execution.attempt (Recorded.streams streams) options p n).runFrom
    (.start world) = run at hattempt
  cases hattempt with
  | @whole a heq hreplay =>
      subst heq
      rcases hflush : streams.out.flush.runFrom s with ⟨error | _, s'⟩
      · right
        have hout := Interruption.outFlushes_of_error hflush
        refine ⟨events, .outFlush, [], error, s', by rw [hout], ⟨s, hreplay, hflush⟩, ?_⟩
        intro k hk hended
        refine Interruption.interpret_of_lastFlush hoptions hrun hflush hk ?_
        exact hended.imp_right fun h => h.resolve_right (by simp [hout])
      · left
        have hsame : total.out.flush s = ((), s') := h.out.flush s () s' hflush
        rw [hsame]
        refine ⟨Streams.replay_append_yields hreplay (Interruption.replay_outFlushes hflush), ?_⟩
        rw [Interruption.runFrom_interpret_recorded streams hoptions hrun, hflush]
        rfl
  | @cut before after event error s' hsplit hfails =>
      right
      refine ⟨before, event, after ++ streams.outFlushes, error, s', ?_, hfails, ?_⟩
      · rw [hsplit, List.append_assoc, List.cons_append]
      · intro k hk _
        exact Interruption.interpret_of_cut hoptions hrun hk (by simp)

/-- The log fails while a fault is reported, and the flush behind it fails as well. -/
theorem cut_short_while_reporting :
    (Script.streams ⟨true, none, some 2⟩ ⟨false, some 1, none⟩).Interrupts
        (Script.forgiving ⟨true, none, some 2⟩ ⟨false, some 1, none⟩) ∧
      (Settings.empty.withTapeLength 2).prepare (.upTo 1024) = .ok ⟨2, .bits32, .scan⟩ ∧
      ∃ before event after error s',
        [.outWrite [0], .outFlush, .logWrite (Utf8.encode (Fault.outOfBounds 1 .left).line),
          .outFlush] = before ++ event :: after ∧
        (Script.streams ⟨true, none, some 2⟩ ⟨false, some 1, none⟩).FailsAfter ⟨[], 0, 0, 0, 0⟩
          before event error s' ∧
        (interpret (.upTo 1024)
          (Recorded.streams (Script.streams ⟨true, none, some 2⟩ ⟨false, some 1, none⟩))
          (Settings.empty.withTapeLength 2) (Program.ofBytes [0x2E, 0x3C]) 5).runFrom
            (.start ⟨[], 0, 0, 0, 0⟩) =
          (Script.streams ⟨true, none, some 2⟩ ⟨false, some 1, none⟩).cutShort ⟨[], 0, 0, 0, 0⟩
            before event after error s' := by
  have hscript := Script.interrupts_forgiving ⟨true, none, some 2⟩ ⟨false, some 1, none⟩
  refine ⟨hscript, rfl, ?_⟩
  obtain ⟨result, r, hreturns, hcut⟩ := interpret_cut_short hscript
    (show (Settings.empty.withTapeLength 2).prepare (.upTo 1024) = .ok ⟨2, .bits32, .scan⟩ from rfl)
    (Program.ofBytes [0x2E, 0x3C]) 5 ⟨[], 0, 0, 0, 0⟩
  obtain rfl := (Prod.mk.inj hreturns).2
  rcases hcut with ⟨_, hsame⟩ | ⟨before, event, after, error, s', htrace, hfails, hcut⟩
  · exact nomatch (congrArg Prod.fst hsame : Except.error StreamError.outFlush = _)
  · exact ⟨before, event, after, error, s', htrace, hfails, hcut 5 (Nat.le_refl 5) (.inl rfl)⟩

end Brainfuck
