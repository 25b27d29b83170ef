import Brainfuck.Proofs.Runs
import Brainfuck.Stream.Buffer

/-!
# Recorded calls

A recorded call does what the call itself does and adds its event to the trace. A flush of
a sink that cannot be flushed is no call and adds nothing. Recording makes no call fail, so
recorded streams never fail if the streams below them do not.

Whether it fails or not, a computation only adds to the trace, and what a run adds are
writes of one byte, flushes of the output and reads.

Streams over a plain state cannot fail at all. They are the common source of streams that
never do; the streams in memory are an example.
-/
namespace Brainfuck

/-- The event of flushing a sink, if it can be flushed. -/
def Sink.flushEvents {m : Type → Type} (event : Event) (sink : Sink m) : List Event :=
  if sink.flush?.isSome then [event] else []

/-- The flush of the output as it shows in a trace. -/
def Streams.outFlushes {m : Type → Type} (streams : Streams m) : List Event :=
  streams.out.flushEvents .outFlush

/-- The flush of the error log as it shows in a trace. -/
def Streams.logFlushes {m : Type → Type} (streams : Streams m) : List Event :=
  streams.log.flushEvents .logFlush

namespace Recorded

variable {ε σ : Type}

/-- The record after some calls. -/
def extend (r : Recorded σ) (world : σ) (events : List Event) : Recorded σ :=
  ⟨world, r.trace ++ events⟩

@[simp] theorem trace_extend (r : Recorded σ) (world : σ) (events : List Event) :
    (r.extend world events).trace.toList = r.trace.toList ++ events := by
  simp [extend]

@[simp] theorem world_extend (r : Recorded σ) (world : σ) (events : List Event) :
    (r.extend world events).world = world := rfl

theorem extend_nil (r : Recorded σ) : r.extend r.world [] = r := by
  simp [extend]

theorem extend_extend (r : Recorded σ) (world world' : σ) (first second : List Event) :
    (r.extend world first).extend world' second = r.extend world' (first ++ second) := by
  refine congrArg (Recorded.mk world') (Array.ext' ?_)
  simp [extend]

theorem runFrom_note (event : Event) (r : Recorded σ) :
    (note event : Effect ε (Recorded σ) Unit).runFrom r = (.ok (), r.extend r.world [event]) := by
  obtain ⟨world, trace⟩ := r
  change ((.ok (), ⟨world, trace.push event⟩) : Except ε Unit × Recorded σ) = _
  simp [extend]

theorem runFrom_lift {α : Type} (x : Effect ε σ α) (r : Recorded σ) :
    (lift x).runFrom r = ((x.runFrom r.world).1, ⟨(x.runFrom r.world).2, r.trace⟩) := rfl

/-- The one shape of a recorded call: its event first, and then the call. -/
theorem runFrom_note_lift {α : Type} (event : Event) (x : Effect ε σ α) (r : Recorded σ) :
    (note event >>= fun _ => lift x).runFrom r =
      ((x.runFrom r.world).1, r.extend (x.runFrom r.world).2 [event]) := by
  rw [Effect.runFrom_bind, runFrom_note]
  exact runFrom_lift x _

theorem runFrom_flush (write : List UInt8 → Event) (flush : Event) (s : Sink (Effect ε σ))
    (r : Recorded σ) :
    (sink write flush s).flush.runFrom r =
      ((s.flush.runFrom r.world).1,
        r.extend (s.flush.runFrom r.world).2 (s.flushEvents flush)) := by
  unfold Sink.flush sink Sink.flushEvents
  cases s.flush? with
  | none => simp [extend]
  | some action => exact runFrom_note_lift flush action r

theorem runFrom_read (x : Effect ε σ (Option Int)) (r : Recorded σ) :
    (read x).runFrom r =
      match x.runFrom r.world with
      | (.ok value, world) => (.ok value, r.extend world [.read value])
      | (.error error, world) => (.error error, r.extend world [.readFailed]) := by
  obtain ⟨world, trace⟩ := r
  change (read x : Effect ε (Recorded σ) (Option Int)) ⟨world, trace⟩ = _
  simp only [read, ExceptT.mk]
  rcases x.runFrom world with ⟨_ | value, world'⟩ <;> simp [extend]

section
variable {s : Streams (Effect ε σ)} {r r' : Recorded σ}

theorem outWrite_yields {bytes : List UInt8}
    (h : ((streams s).out.write bytes).runFrom r = (.ok (), r')) :
    r'.trace.toList = r.trace.toList ++ [.outWrite bytes] := by
  rw [show (streams s).out.write bytes =
    note (.outWrite bytes) >>= fun _ => lift (s.out.write bytes) from rfl, runFrom_note_lift] at h
  rw [← (Prod.mk.inj h).2, trace_extend]

theorem logWrite_yields {bytes : List UInt8}
    (h : ((streams s).log.write bytes).runFrom r = (.ok (), r')) :
    r'.trace.toList = r.trace.toList ++ [.logWrite bytes] := by
  rw [show (streams s).log.write bytes =
    note (.logWrite bytes) >>= fun _ => lift (s.log.write bytes) from rfl, runFrom_note_lift] at h
  rw [← (Prod.mk.inj h).2, trace_extend]

theorem outFlush_yields (h : (streams s).out.flush.runFrom r = (.ok (), r')) :
    r'.trace.toList = r.trace.toList ++ s.outFlushes := by
  rw [show (streams s).out = sink .outWrite .outFlush s.out from rfl, runFrom_flush] at h
  rw [← (Prod.mk.inj h).2, trace_extend]
  rfl

theorem logFlush_yields (h : (streams s).log.flush.runFrom r = (.ok (), r')) :
    r'.trace.toList = r.trace.toList ++ s.logFlushes := by
  rw [show (streams s).log = sink .logWrite .logFlush s.log from rfl, runFrom_flush] at h
  rw [← (Prod.mk.inj h).2, trace_extend]
  rfl

theorem read_yields {value : Option Int} (h : (streams s).read.runFrom r = (.ok value, r')) :
    r'.trace.toList = r.trace.toList ++ [.read value] := by
  rw [show (streams s).read = read s.read from rfl, runFrom_read] at h
  rcases hread : s.read.runFrom r.world with ⟨_ | value', world⟩
  · simp [hread] at h
  · obtain ⟨rfl, rfl⟩ : value' = value ∧ r.extend world [.read value'] = r' := by
      simpa [hread] using h
    exact trace_extend r world _

end

theorem neverFails {s : Streams (Effect ε σ)} (h : s.NeverFails) : (streams s).NeverFails where
  read r := by
    obtain ⟨value, world, hread⟩ := h.read r.world
    refine ⟨value, r.extend world [.read value], ?_⟩
    have hcall := runFrom_read s.read r
    rwa [hread] at hcall
  outWrite bytes r := by
    obtain ⟨world, hwrite⟩ := h.outWrite bytes r.world
    refine ⟨r.extend world [.outWrite bytes], ?_⟩
    have hcall := runFrom_note_lift (.outWrite bytes) (s.out.write bytes) r
    rwa [hwrite] at hcall
  outFlush r := by
    obtain ⟨world, hflush⟩ := h.outFlush r.world
    refine ⟨r.extend world s.outFlushes, ?_⟩
    have hcall := runFrom_flush .outWrite .outFlush s.out r
    rwa [hflush] at hcall
  logWrite bytes r := by
    obtain ⟨world, hwrite⟩ := h.logWrite bytes r.world
    refine ⟨r.extend world [.logWrite bytes], ?_⟩
    have hcall := runFrom_note_lift (.logWrite bytes) (s.log.write bytes) r
    rwa [hwrite] at hcall
  logFlush r := by
    obtain ⟨world, hflush⟩ := h.logFlush r.world
    refine ⟨r.extend world s.logFlushes, ?_⟩
    have hcall := runFrom_flush .logWrite .logFlush s.log r
    rwa [hflush] at hcall

/-- A computation adds only events of a kind to the trace, also if it fails. -/
def AddsOnly {α : Type} (kind : Event → Prop) (x : Effect ε (Recorded σ) α) : Prop :=
  ∀ r, ∃ outcome world events, x.runFrom r = (outcome, r.extend world events) ∧
    ∀ event ∈ events, kind event

section
variable {α β : Type} {kind kind' : Event → Prop} {x : Effect ε (Recorded σ) α}

theorem AddsOnly.mono (h : AddsOnly kind x) (hkind : ∀ event, kind event → kind' event) :
    AddsOnly kind' x := by
  intro r
  obtain ⟨outcome, world, events, hx, hevents⟩ := h r
  exact ⟨outcome, world, events, hx, fun event hevent => hkind event (hevents event hevent)⟩

theorem addsOnly_pure (a : α) : AddsOnly kind (pure a : Effect ε (Recorded σ) α) := by
  intro r
  exact ⟨.ok a, r.world, [], by rw [extend_nil]; rfl, by simp⟩

theorem AddsOnly.bind {f : α → Effect ε (Recorded σ) β} (h : AddsOnly kind x)
    (hf : ∀ a, AddsOnly kind (f a)) : AddsOnly kind (x >>= f) := by
  intro r
  obtain ⟨outcome, world, events, hx, hevents⟩ := h r
  rw [Effect.runFrom_bind, hx]
  cases outcome with
  | error error => exact ⟨.error error, world, events, rfl, hevents⟩
  | ok a =>
      obtain ⟨outcome, world', more, hfa, hmore⟩ := hf a (r.extend world events)
      refine ⟨outcome, world', events ++ more, ?_, List.forall_mem_append.mpr ⟨hevents, hmore⟩⟩
      dsimp only
      rw [hfa, extend_extend]

theorem AddsOnly.tryFinally {y : Effect ε (Recorded σ) Unit} (h : AddsOnly kind x)
    (hy : AddsOnly kind y) : AddsOnly kind (tryFinally x y) := by
  intro r
  obtain ⟨outcome, world, events, hx, hevents⟩ := h r
  obtain ⟨last, world', more, hlast, hmore⟩ := hy (r.extend world events)
  have hall := List.forall_mem_append.mpr ⟨hevents, hmore⟩
  rw [extend_extend] at hlast
  rw [Effect.runFrom_tryFinally, hx, hlast]
  cases last with
  | ok _ => exact ⟨outcome, world', events ++ more, rfl, hall⟩
  | error error => exact ⟨.error error, world', events ++ more, rfl, hall⟩

variable (s : Streams (Effect ε σ)) (bytes : List UInt8)

theorem addsOnly_outWrite : AddsOnly (· = .outWrite bytes) ((streams s).out.write bytes) :=
  fun r => ⟨_, _, [.outWrite bytes],
    runFrom_note_lift (.outWrite bytes) (s.out.write bytes) r, by simp⟩

theorem addsOnly_logWrite : AddsOnly (· = .logWrite bytes) ((streams s).log.write bytes) :=
  fun r => ⟨_, _, [.logWrite bytes],
    runFrom_note_lift (.logWrite bytes) (s.log.write bytes) r, by simp⟩

theorem addsOnly_outFlush : AddsOnly (· = .outFlush) (streams s).out.flush :=
  fun r => ⟨_, _, s.outFlushes, runFrom_flush .outWrite .outFlush s.out r,
    by simp [Streams.outFlushes, Sink.flushEvents]⟩

theorem addsOnly_logFlush : AddsOnly (· = .logFlush) (streams s).log.flush :=
  fun r => ⟨_, _, s.logFlushes, runFrom_flush .logWrite .logFlush s.log r,
    by simp [Streams.logFlushes, Sink.flushEvents]⟩

theorem addsOnly_read :
    AddsOnly (fun event => event = .readFailed ∨ ∃ value, event = .read value)
      (streams s).read := by
  intro r
  have hcall := runFrom_read s.read r
  rcases hread : s.read.runFrom r.world with ⟨error | value, world⟩
  · rw [hread] at hcall
    exact ⟨_, world, [.readFailed], hcall, by simp⟩
  · rw [hread] at hcall
    exact ⟨_, world, [.read value], hcall, by simp⟩

end

end Recorded

/-- The events of a run: one byte is written, the output is flushed, or a value is read. -/
inductive Event.OfRun : Event → Prop
  | outWrite (byte : UInt8) : OfRun (.outWrite [byte])
  | outFlush : OfRun .outFlush
  | read (value : Option Int) : OfRun (.read value)
  | readFailed : OfRun .readFailed

/-- A run adds only such events, up to the call that fails if one does. -/
theorem Execution.addsOnly_runFor {ε σ : Type} {w : Nat} (s : Streams (Effect ε σ))
    (p : Program) (brackets : Bracket.Matcher) (n : Nat) (machine : Machine w) :
    Recorded.AddsOnly Event.OfRun (runFor (Recorded.streams s) p brackets n machine) := by
  induction n generalizing machine with
  | zero => exact Recorded.addsOnly_pure _
  | succ n ih =>
      rw [runFor]
      cases machine.step p brackets with
      | advance next => exact ih next
      | write byte next =>
          apply ((Recorded.addsOnly_outWrite s [byte]).mono _).bind
          · intro _
            exact ih next
          · rintro _ rfl
            exact .outWrite byte
      | read next =>
          apply ((Recorded.addsOnly_outFlush s).mono _).bind
          · intro _
            apply ((Recorded.addsOnly_read s).mono _).bind
            · intro value
              exact ih (next.supply (value.getD 0))
            · rintro _ (rfl | ⟨value, rfl⟩)
              · exact .readFailed
              · exact .read value
          · rintro _ rfl
            exact .outFlush
      | stop verdict final => exact Recorded.addsOnly_pure _

/-- Streams over a state, among effects that may fail. -/
def Streams.ofState {ε σ : Type} (streams : Streams (StateM σ)) : Streams (Effect ε σ) where
  read := ExceptT.lift streams.read
  out :=
    { write := fun bytes => ExceptT.lift (streams.out.write bytes)
      flush? := streams.out.flush?.map ExceptT.lift }
  log :=
    { write := fun bytes => ExceptT.lift (streams.log.write bytes)
      flush? := streams.log.flush?.map ExceptT.lift }

theorem Effect.lift_yields {ε σ α : Type} (x : StateM σ α) (s : σ) :
    Effect.runFrom (ExceptT.lift x : Effect ε σ α) s = (.ok (x s).1, (x s).2) := rfl

theorem Streams.neverFails_ofState {ε σ : Type} (streams : Streams (StateM σ)) :
    (ofState streams : Streams (Effect ε σ)).NeverFails where
  read s := ⟨_, _, Effect.lift_yields streams.read s⟩
  outWrite bytes s := ⟨_, Effect.lift_yields (streams.out.write bytes) s⟩
  outFlush s := by
    unfold Sink.flush ofState
    cases streams.out.flush? with
    | none => exact ⟨s, rfl⟩
    | some action => exact ⟨_, Effect.lift_yields action s⟩
  logWrite bytes s := ⟨_, Effect.lift_yields (streams.log.write bytes) s⟩
  logFlush s := by
    unfold Sink.flush ofState
    cases streams.log.flush? with
    | none => exact ⟨s, rfl⟩
    | some action => exact ⟨_, Effect.lift_yields action s⟩

end Brainfuck
