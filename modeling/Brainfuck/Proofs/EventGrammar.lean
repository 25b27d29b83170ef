import Brainfuck.Proofs.Recording

/-!
# The grammar of a trace

The calls of a run come in exchanges: one byte is written, or the output is flushed and one
value is read. A step makes at most one exchange, so the trace of a run is a sequence of
them. Behind the run stands the closing part, which is a flush after a completed program,
and after a fault a flush, the one line of the error log, the flush of the log and the last
flush. An execution that does not start makes no call at all.

The flushes are those of sinks that have one; a sink without a flush leaves no event. The
streams are any that never fail.
-/
namespace Brainfuck

open Brainfuck.Bracket

variable {host : Host}

/-- What a single step can ask of the streams. -/
inductive Exchange where
  | write (byte : UInt8)
  | read (value : Option Int)
  deriving DecidableEq, Repr

/-- The calls of an exchange, with the given flush of the output. -/
def Exchange.events (flush : List Event) : Exchange → List Event
  | .write byte => [.outWrite [byte]]
  | .read value => flush ++ [.read value]

/-- The calls behind a run, with the given flushes of the output and of the error log. -/
def Verdict.closingEvents (flush logFlush : List Event) : Verdict → List Event
  | .completed => flush
  | .faulted fault => flush ++ .logWrite (Utf8.encode fault.line) :: logFlush ++ flush

/-- The bytes that a call hands to the error log. -/
def Event.logged? : Event → Option (List UInt8)
  | .logWrite bytes => some bytes
  | _ => none

/-- The writes to the error log that a verdict calls for. -/
def Verdict.logged : Verdict → List (List UInt8)
  | .completed => []
  | .faulted fault => [Utf8.encode fault.line]

namespace Execution

variable {ε σ : Type} {w : Nat} {streams : Streams (Effect ε σ)} {p : Program}
variable {brackets : Matcher} {n : Nat} {c c' : Configuration w (Recorded σ)}

theorem Tick.trace (h : Tick (Recorded.streams streams) p brackets c c') :
    ∃ exchanges : List Exchange, c'.world.trace.toList =
      c.world.trace.toList ++ exchanges.flatMap (Exchange.events streams.outFlushes) := by
  cases h with
  | advance _ => exact ⟨[], by simp⟩
  | @write _ _ _ _ byte _ hwrite =>
      refine ⟨[.write byte], ?_⟩
      rw [Recorded.outWrite_yields hwrite]
      rfl
  | @read _ _ _ _ _ value _ hflush hread =>
      refine ⟨[.read value], ?_⟩
      rw [Recorded.read_yields hread, Recorded.outFlush_yields hflush]
      simp [Exchange.events]

theorem Reaches.trace (h : Reaches (Recorded.streams streams) p brackets n c c') :
    ∃ exchanges : List Exchange, c'.world.trace.toList =
      c.world.trace.toList ++ exchanges.flatMap (Exchange.events streams.outFlushes) := by
  induction n generalizing c with
  | zero =>
      obtain rfl := reaches_zero_iff.mp h
      exact ⟨[], by simp⟩
  | succ n ih =>
      obtain ⟨c₁, htick, h⟩ := reaches_succ_iff.mp h
      obtain ⟨first, hfirst⟩ := htick.trace
      obtain ⟨rest, hrest⟩ := ih h
      refine ⟨first ++ rest, ?_⟩
      rw [hrest, hfirst, List.flatMap_append, List.append_assoc]

theorem closing_trace {verdict : Verdict} {r r' : Recorded σ}
    (h : (closing (Recorded.streams streams) verdict).runFrom r = (.ok (), r')) :
    r'.trace.toList =
      r.trace.toList ++ verdict.closingEvents streams.outFlushes streams.logFlushes := by
  cases verdict with
  | completed => exact Recorded.outFlush_yields h
  | faulted fault =>
      obtain ⟨_, r₃, hreport, hlast⟩ := Effect.bind_yields_iff.mp h
      obtain ⟨_, r₁, hflush, hreport⟩ := Effect.bind_yields_iff.mp hreport
      obtain ⟨_, r₂, hwrite, hlog⟩ := Effect.bind_yields_iff.mp hreport
      rw [Recorded.outFlush_yields hlast, Recorded.logFlush_yields hlog,
        Recorded.logWrite_yields hwrite, Recorded.outFlush_yields hflush]
      simp [Verdict.closingEvents]

end Execution

section
variable {m : Type → Type} (streams : Streams m) (exchanges : List Exchange) (verdict : Verdict)

theorem Streams.filterMap_outFlushes : streams.outFlushes.filterMap Event.logged? = [] := by
  unfold outFlushes Sink.flushEvents
  split <;> rfl

theorem Streams.filterMap_logFlushes : streams.logFlushes.filterMap Event.logged? = [] := by
  unfold logFlushes Sink.flushEvents
  split <;> rfl

/-- The exchanges of a run leave the error log alone. -/
theorem Exchange.filterMap_logged :
    (exchanges.flatMap (events streams.outFlushes)).filterMap Event.logged? = [] := by
  induction exchanges with
  | nil => rfl
  | cons exchange rest ih =>
      rw [List.flatMap_cons, List.filterMap_append, ih]
      cases exchange with
      | write byte => rfl
      | read value => simp [events, streams.filterMap_outFlushes, Event.logged?]

theorem Verdict.filterMap_logged :
    (verdict.closingEvents streams.outFlushes streams.logFlushes).filterMap Event.logged? =
      verdict.logged := by
  cases verdict with
  | completed => exact streams.filterMap_outFlushes
  | faulted fault =>
      simp [closingEvents, logged, Event.logged?, streams.filterMap_outFlushes,
        streams.filterMap_logFlushes]

theorem Verdict.read_not_mem_closingEvents (value : Option Int) :
    .read value ∉ verdict.closingEvents streams.outFlushes streams.logFlushes := by
  have hout : .read value ∉ streams.outFlushes := by
    unfold Streams.outFlushes Sink.flushEvents
    split <;> simp
  have hlog : .read value ∉ streams.logFlushes := by
    unfold Streams.logFlushes Sink.flushEvents
    split <;> simp
  cases verdict with
  | completed => exact hout
  | faulted fault => simp [closingEvents, hout, hlog]

end

/-- Right before each read among exchanges and a part without reads stands a flush. -/
theorem Exchange.flushed_before_read {exchanges : List Exchange} {last before after : List Event}
    {value : Option Int} (hlast : .read value ∉ last)
    (h : exchanges.flatMap (events [.outFlush]) ++ last = before ++ .read value :: after) :
    ∃ earlier, before = earlier ++ [.outFlush] := by
  induction exchanges generalizing before with
  | nil =>
      have hmem : .read value ∈ last := by
        rw [show last = before ++ .read value :: after from h]
        simp
      exact (hlast hmem).elim
  | cons exchange rest ih =>
      rw [List.flatMap_cons, List.append_assoc] at h
      cases exchange with
      | write byte =>
          cases before with
          | nil => simp [events] at h
          | cons event before =>
              obtain ⟨earlier, rfl⟩ := ih (List.cons.inj h).2
              exact ⟨event :: earlier, rfl⟩
      | read value' =>
          cases before with
          | nil => simp [events] at h
          | cons event before =>
              have hevent : Event.outFlush = event := (List.cons.inj h).1
              have htail := (List.cons.inj h).2
              cases before with
              | nil => exact ⟨[], by rw [hevent]; rfl⟩
              | cons event' before =>
                  obtain ⟨earlier, rfl⟩ := ih (List.cons.inj htail).2
                  exact ⟨event :: event' :: earlier, rfl⟩

/-- With streams that never fail, an execution is still going or has ended, and the trace
of one that has ended is a sequence of exchanges and the closing part of its verdict. So
every read comes right behind a flush, and the error log receives the line of a fault and
nothing else. Refused settings, and a tape that is not given, leave the trace empty. -/
theorem trace_of_interpret {ε σ : Type} {streams : Streams (Effect ε σ)}
    (hstreams : streams.NeverFails) (settings : Settings) (p : Program) (world : σ) :
    (∀ error, settings.resolve = .error error → ∀ n,
      (interpret host (Recorded.streams streams) settings p n).runFrom (.start world) =
        (.ok (.error (.config error)), .start world)) ∧
    (∀ error, settings.prepare host = .error error → ∀ n,
      (interpret host (Recorded.streams streams) settings p n).runFrom (.start world) =
        (.ok (.error error), .start world)) ∧
    ∀ options, settings.prepare host = .ok options → ∀ n,
      ∃ result r,
        (interpret host (Recorded.streams streams) settings p n).runFrom (.start world) =
          (.ok (.ok result), r) ∧
        ∀ verdict, result = some verdict →
          (∃ exchanges : List Exchange, r.trace.toList =
            exchanges.flatMap (Exchange.events streams.outFlushes) ++
              verdict.closingEvents streams.outFlushes streams.logFlushes) ∧
          (streams.out.flush?.isSome → ∀ before value after,
            r.trace.toList = before ++ .read value :: after →
              ∃ earlier, before = earlier ++ [.outFlush]) ∧
          r.trace.toList.filterMap Event.logged? = verdict.logged := by
  have hrefused : ∀ error, settings.prepare host = .error error → ∀ n,
      (interpret host (Recorded.streams streams) settings p n).runFrom (.start world) =
        (.ok (.error error), .start world) := by
    intro error herror n
    rw [interpret_of_error herror, Effect.runFrom_pure]
  refine ⟨?_, hrefused, ?_⟩
  · intro error herror
    exact hrefused (.config error) (Settings.prepare_of_refused herror)
  · intro options hoptions n
    obtain ⟨result, r, h⟩ :=
      Execution.exists_interpret (Recorded.neverFails hstreams) hoptions p n (.start world)
    refine ⟨result, r, h, ?_⟩
    intro verdict hresult
    subst hresult
    obtain ⟨c, hhalts, hclose⟩ := (Execution.interpret_yields_iff hoptions).mp h
    obtain ⟨_, _, _, hreach⟩ := hhalts.exists_reaches
    obtain ⟨exchanges, hexchanges⟩ := hreach.trace
    have htrace : r.trace.toList = exchanges.flatMap (Exchange.events streams.outFlushes) ++
        verdict.closingEvents streams.outFlushes streams.logFlushes := by
      rw [Execution.closing_trace hclose, hexchanges]
      rfl
    refine ⟨⟨exchanges, htrace⟩, ?_, ?_⟩
    · intro hflush before value after hsplit
      have hout : streams.outFlushes = [.outFlush] := if_pos hflush
      have hread := verdict.read_not_mem_closingEvents streams value
      rw [htrace, hout] at hsplit
      rw [hout] at hread
      exact Exchange.flushed_before_read hread hsplit
    · rw [htrace, List.filterMap_append, Exchange.filterMap_logged, Verdict.filterMap_logged,
        List.nil_append]

/-- Streams in memory whose output can be flushed and whose error log cannot. -/
def Memory.flushable : Streams (StateM Memory) :=
  { Memory.streams with out := { Memory.streams.out with flush? := some (pure ()) } }

/-- One byte is written, one value is read, and then the pointer leaves the tape. -/
theorem trace_of_read_and_fault :
    (Streams.ofState Memory.flushable : Streams (Effect Empty Memory)).NeverFails ∧
      (Settings.empty.withTapeLength 2).prepare (.upTo 1024) = .ok ⟨2, .bits32, .scan⟩ ∧
      ∃ r : Recorded Memory,
        (interpret (.upTo 1024)
          (Recorded.streams (Streams.ofState Memory.flushable : Streams (Effect Empty Memory)))
          (Settings.empty.withTapeLength 2) (Program.ofBytes [0x2E, 0x2C, 0x3C]) 10).runFrom
            (.start (.ofInput [65])) =
          (.ok (.ok (some (.faulted (.outOfBounds 2 .left)))), r) ∧
        (∃ exchanges : List Exchange, r.trace.toList =
          exchanges.flatMap (Exchange.events [.outFlush]) ++
            (Verdict.faulted (.outOfBounds 2 .left)).closingEvents [.outFlush] []) ∧
        ∀ before value after, r.trace.toList = before ++ .read value :: after →
          ∃ earlier, before = earlier ++ [.outFlush] := by
  have hstreams :
      (Streams.ofState Memory.flushable : Streams (Effect Empty Memory)).NeverFails :=
    Streams.neverFails_ofState _
  have hoptions : (Settings.empty.withTapeLength 2).prepare (.upTo 1024) =
      .ok ⟨2, .bits32, .scan⟩ := rfl
  refine ⟨hstreams, hoptions, ?_⟩
  obtain ⟨result, r, h, hresult⟩ := (trace_of_interpret hstreams
    (Settings.empty.withTapeLength 2) (Program.ofBytes [0x2E, 0x2C, 0x3C]) (.ofInput [65])).2.2
    ⟨2, .bits32, .scan⟩ hoptions 10
  have hverdict : result = some (.faulted (.outOfBounds 2 .left)) :=
    Except.ok.inj (Except.ok.inj (Prod.mk.inj h).1.symm)
  obtain ⟨hexchanges, hflushed, _⟩ := hresult _ hverdict
  rw [hverdict] at h
  exact ⟨r, h, hexchanges, hflushed rfl⟩

end Brainfuck
