import Brainfuck.Proofs.FaultLines
import Brainfuck.Proofs.Relocation
import Brainfuck.Proofs.Sessions

/-!
# Reading an error log

The faults that calls of the interpreter have reported can be read from the error log that they
share. A call adds at most one line to the log, whatever its streams do: the line of the fault
that it returns if it returns one, and none if it returns without a fault. A call that fails may
have reported the fault at which its run stopped, or have failed before that.

In a session the log is a buffer in memory. What is read from its text are the faults that the
programs have returned, in order.
-/
namespace Brainfuck

open Brainfuck.Bracket

variable {host : Host}

namespace Recorded

variable {ε σ α : Type}

/-- The bytes that the error log has been handed. -/
def logged (r : Recorded σ) : List UInt8 := r.trace.toList.flatMap Event.logged

@[simp] theorem logged_extend (r : Recorded σ) (world : σ) (events : List Event) :
    (r.extend world events).logged = r.logged ++ events.flatMap Event.logged := by
  simp [logged]

theorem AddsOnly.logged_eq {kind : Event → Prop} {x : Effect ε (Recorded σ) α}
    (h : AddsOnly kind x) (hkind : ∀ event, kind event → event.logged = []) (r : Recorded σ) :
    (x.runFrom r).2.logged = r.logged := by
  obtain ⟨outcome, world, events, hx, hevents⟩ := h r
  rw [hx, logged_extend, List.flatMap_eq_nil_iff.mpr fun event hevent =>
    hkind event (hevents event hevent), List.append_nil]

theorem logged_outFlush (s : Streams (Effect ε σ)) (r : Recorded σ) :
    ((streams s).out.flush.runFrom r).2.logged = r.logged :=
  (addsOnly_outFlush s).logged_eq (by rintro _ rfl; rfl) r

theorem logged_runFor {w : Nat} (s : Streams (Effect ε σ)) (p : Program) (brackets : Matcher)
    (n : Nat) (machine : Machine w) (r : Recorded σ) :
    ((Execution.runFor (streams s) p brackets n machine).runFrom r).2.logged = r.logged :=
  (Execution.addsOnly_runFor s p brackets n machine).logged_eq (by rintro _ ⟨⟩ <;> rfl) r

/-- The line is handed over before any of the calls behind it can fail. -/
theorem logged_report {s : Streams (Effect ε σ)} {r r₁ : Recorded σ}
    (h : (streams s).out.flush.runFrom r = (.ok (), r₁)) (fault : Fault) :
    ((Execution.report (streams s) fault).runFrom r).2.logged =
      r.logged ++ Utf8.encode fault.line := by
  have hflush := logged_outFlush s r
  rw [h] at hflush
  unfold Execution.report
  rw [Effect.runFrom_bind, h]
  dsimp only
  rw [← hflush, show (streams s).log.write (Utf8.encode fault.line) =
    note (.logWrite _) >>= fun _ => lift (s.log.write _) from rfl, Effect.runFrom_bind,
    runFrom_note_lift]
  rcases (s.log.write (Utf8.encode fault.line)).runFrom r₁.world with ⟨error | _, world⟩
  · simp [Event.logged]
  · dsimp only
    rw [(addsOnly_logFlush s).logged_eq (by rintro _ rfl; rfl), logged_extend]
    simp [Event.logged]

/-- What a computation reports: the fault that it returns, whose line is all that it hands to the
error log. If it fails, it may have reported a fault or none. -/
structure Reports (x : Effect ε (Recorded σ) α) (fault? : α → Option Fault) (r : Recorded σ)
    (report : Option Fault) : Prop where
  returned : ∀ a, (x.runFrom r).1 = .ok a → report = fault? a
  logged : (x.runFrom r).2.logged = r.logged ++ Utf8.encode (Fault.log report.toList)

section
variable {x : Effect ε (Recorded σ) α} {fault? : α → Option Fault} {r r₁ : Recorded σ}

theorem reports_none {outcome : Except ε α} (hx : x.runFrom r = (outcome, r₁))
    (hlogged : r₁.logged = r.logged) (hreturned : ∀ a, outcome = .ok a → fault? a = none) :
    Reports x fault? r none where
  returned a ha := by
    rw [hx] at ha
    exact (hreturned a ha).symm
  logged := by simp [hx, hlogged, Fault.log]

theorem Reports.tryFinally {report : Option Fault} {y : Effect ε (Recorded σ) Unit}
    (h : Reports x fault? r report) (hy : ∀ r, (y.runFrom r).2.logged = r.logged) :
    Reports (tryFinally x y) fault? r report where
  returned a ha := by
    apply h.returned a
    rw [Effect.runFrom_tryFinally] at ha
    rcases hlast : y.runFrom (x.runFrom r).2 with ⟨error | _, r₂⟩
    · simp [hlast] at ha
    · simpa [hlast] using ha
  logged := by rw [Effect.state_tryFinally, hy, h.logged]

theorem Reports.map {β : Type} {report : Option Fault} {f : α → β} {fault? : β → Option Fault}
    (h : Reports x (fun a => fault? (f a)) r report) :
    Reports (f <$> x) fault? r report where
  returned b hb := by
    rw [Effect.runFrom_map] at hb
    rcases hx : (x.runFrom r).1 with error | a
    · simp [hx, Except.map] at hb
    · obtain rfl : f a = b := by simpa [hx, Except.map] using hb
      exact h.returned a hx
  logged := by rw [Effect.runFrom_map, h.logged]

end

end Recorded

/-- The fault of a verdict, if there is one. -/
def Verdict.fault? : Verdict → Option Fault
  | .completed => none
  | .faulted fault => some fault

/-- The fault that the interpreter returns, if it returns one. -/
def faultOf? (result : Except StartError (Option Verdict)) : Option Fault :=
  result.toOption.join.bind Verdict.fault?

namespace Execution

variable {ε σ : Type}

section
variable {s : Streams (Effect ε σ)} {options : Options} {p : Program} {n : Nat}
variable {r r₁ : Recorded σ} {fault : Fault} {final : Machine options.cellWidth.bits}

/-- The fault at which a run stops is reported unless the flush before that fails. -/
theorem exists_reports_of_fault
    (hrun : (runFor (Recorded.streams s) p (options.brackets.matcher p) n
      (Machine.initial options.tape)).runFrom r =
        (.ok (.stopped (.faulted fault) final), r₁)) (hlogged : r₁.logged = r.logged) :
    ∃ report, Recorded.Reports (attempt (Recorded.streams s) options p n)
        (fun verdict => verdict.bind Verdict.fault?) r report ∧
      ∀ reported, report = some reported → reported = fault := by
  have hattempt := runFrom_attempt_of_fault hrun
  have hflushLogged := Recorded.logged_outFlush s r₁
  rcases hflush : (Recorded.streams s).out.flush.runFrom r₁ with ⟨error | _, r₂⟩
  · have hreport : (report (Recorded.streams s) fault).runFrom r₁ = (.error error, r₂) := by
      unfold report
      rw [Effect.runFrom_bind, hflush]
    rw [hreport] at hattempt
    rw [hflush] at hflushLogged
    exact ⟨none, Recorded.reports_none hattempt (hflushLogged.trans hlogged)
      (by simp [Except.map]), by simp⟩
  · refine ⟨some fault, ⟨?_, ?_⟩, fun _ h => (Option.some.inj h).symm⟩
    · intro verdict hverdict
      rw [hattempt] at hverdict
      rcases hreport : ((report (Recorded.streams s) fault).runFrom r₁).1 with error | _
      · simp [hreport, Except.map] at hverdict
      · obtain rfl : some (.faulted fault) = verdict := by
          simpa [hreport, Except.map] using hverdict
        rfl
    · rw [hattempt, Recorded.logged_report hflush, hlogged]
      simp [Fault.log]

end

/-- Whatever an attempt reports is the fault at which its run stops. -/
theorem exists_reports_attempt (s : Streams (Effect ε σ)) (options : Options) (p : Program)
    (n : Nat) (r : Recorded σ) :
    ∃ report, Recorded.Reports (attempt (Recorded.streams s) options p n)
        (fun verdict => verdict.bind Verdict.fault?) r report ∧
      ∀ fault, report = some fault → ∃ c, Halts (Recorded.streams s) p
        (options.brackets.matcher p) n (start options r) (.faulted fault) c := by
  have hlogged := Recorded.logged_runFor s p (options.brackets.matcher p) n
    (Machine.initial options.tape) r
  rcases hrun : (runFor (Recorded.streams s) p (options.brackets.matcher p) n
    (Machine.initial options.tape)).runFrom r with
    ⟨error | progress, r₁⟩
  · rw [hrun] at hlogged
    exact ⟨none, Recorded.reports_none (runFrom_attempt hrun) hlogged (by simp), by simp⟩
  rw [hrun] at hlogged
  have hattempt := runFrom_attempt hrun
  cases progress with
  | running machine => exact ⟨none, Recorded.reports_none hattempt hlogged (by simp), by simp⟩
  | stopped verdict final =>
      cases verdict with
      | completed =>
          exact ⟨none, Recorded.reports_none hattempt hlogged (by simp [Verdict.fault?]), by simp⟩
      | faulted fault =>
          obtain ⟨report, hreports, hfault⟩ := exists_reports_of_fault hrun hlogged
          refine ⟨report, hreports, ?_⟩
          intro reported hreported
          rw [hfault reported hreported]
          exact ⟨⟨final, r₁⟩, hrun⟩

end Execution

/-- A call of the interpreter on an input and an output of its own. -/
structure Call (ε σ : Type) where
  read : Effect ε σ (Option Int)
  out : Sink (Effect ε σ)
  settings : Settings
  program : Program
  budget : Nat

namespace Call

variable {ε σ : Type}

/-- The recorded streams of a call that shares the error log with others. -/
def streams (log : Sink (Effect ε σ)) (call : Call ε σ) : Streams (Effect ε (Recorded σ)) :=
  Recorded.streams ⟨call.read, call.out, log⟩

def perform (host : Host) (log : Sink (Effect ε σ)) (call : Call ε σ) :
    Effect ε (Recorded σ) (Except StartError (Option Verdict)) :=
  interpret host (call.streams log) call.settings call.program call.budget

/-- What a call reports. It is the fault that the call returns. A call that fails reports the
fault at which its run stops, or nothing. -/
structure Reports (host : Host) (log : Sink (Effect ε σ)) (call : Call ε σ) (r : Recorded σ)
    (report : Option Fault) : Prop
    extends Recorded.Reports (call.perform host log) faultOf? r report where
  stopped : ∀ fault, report = some fault → ∃ options c, call.settings.prepare host = .ok options ∧
    Execution.Halts (call.streams log) call.program (options.brackets.matcher call.program)
      call.budget (Execution.start options r) (.faulted fault) c

variable {log : Sink (Effect ε σ)} {call : Call ε σ} {r : Recorded σ}

/-- A fault is reported at an octet of the program. -/
theorem Reports.inRange {report : Option Fault} {fault : Fault} (h : call.Reports host log r report)
    (hsize : call.program.size ≤ 2 ^ 53) (hfault : report = some fault) : fault.InRange := by
  obtain ⟨options, c, hoptions, hhalts⟩ := h.stopped fault hfault
  obtain ⟨hstep, _, _, hreach⟩ := hhalts.exists_reaches
  rw [Machine.step_matcher] at hstep
  obtain ⟨hposition, hlt, _⟩ := (hreach.inBounds hoptions).justified hstep
  rw [Fault.InRange, hposition]
  omega

theorem exists_report (host : Host) (log : Sink (Effect ε σ)) (call : Call ε σ) (r : Recorded σ) :
    ∃ report, call.Reports host log r report := by
  cases hoptions : call.settings.prepare host with
  | error error =>
      have hperform : call.perform host log = pure (.error error) := interpret_of_error hoptions ..
      refine ⟨none, Recorded.reports_none (congrArg (Effect.runFrom · r) hperform) rfl ?_, by simp⟩
      rintro _ ⟨⟩
      rfl
  | ok options =>
      obtain ⟨report, hreports, hstopped⟩ := Execution.exists_reports_attempt
        ⟨call.read, call.out, log⟩ options call.program call.budget r
      have hperform : call.perform host log = .ok <$> tryFinally
          (Execution.attempt (call.streams log) options call.program call.budget)
          (call.streams log).out.flush := by
        unfold perform interpret
        rw [hoptions]
        rfl
      refine ⟨report, ?_, ?_⟩
      · rw [hperform]
        exact (hreports.tryFinally (Recorded.logged_outFlush _)).map
      · intro fault hfault
        obtain ⟨c, hhalts⟩ := hstopped fault hfault
        exact ⟨options, c, hoptions, hhalts⟩

/-- Each of some calls with the record that it starts from. -/
def starts (host : Host) (log : Sink (Effect ε σ)) :
    List (Call ε σ) → Recorded σ → List (Call ε σ × Recorded σ)
  | [], _ => []
  | call :: calls, r => (call, r) :: starts host log calls ((call.perform host log).runFrom r).2

/-- The record behind some calls. -/
def performAll (host : Host) (log : Sink (Effect ε σ)) (calls : List (Call ε σ))
    (r : Recorded σ) : Recorded σ :=
  calls.foldl (fun r call => ((call.perform host log).runFrom r).2) r

/-- The lines of what the calls report make up what is added to the log. -/
theorem exists_reports (host : Host) (log : Sink (Effect ε σ)) {calls : List (Call ε σ)}
    (hsize : ∀ call ∈ calls, call.program.size ≤ 2 ^ 53) (r : Recorded σ) :
    ∃ reports, List.Forall₂ (fun start report => start.1.Reports host log start.2 report)
        (starts host log calls r) reports ∧
      (∀ fault ∈ reports.reduceOption, fault.InRange) ∧
      (performAll host log calls r).logged =
        r.logged ++ Utf8.encode (Fault.log reports.reduceOption) := by
  induction calls generalizing r with
  | nil => exact ⟨[], .nil, by simp, by simp [performAll, Fault.log]⟩
  | cons call calls ih =>
      obtain ⟨hcall, hcalls⟩ := List.forall_mem_cons.mp hsize
      obtain ⟨report, hreport⟩ := exists_report host log call r
      obtain ⟨reports, hreports, hrange, hlogged⟩ := ih hcalls ((call.perform host log).runFrom r).2
      refine ⟨report :: reports, .cons hreport hreports, ?_, ?_⟩
      · exact Fault.inRange_reduceOption_cons (fun fault => hreport.inRange hcall) hrange
      · rw [Fault.log_reduceOption_cons, Utf8.encode_append, ← List.append_assoc, ← hreport.logged]
        exact hlogged

end Call

namespace SessionStep

variable (budget : Nat) (program : Settings × Program) (before : Memory)

theorem errors_first : (first host budget program before).memory.errors.bytes =
    before.errors.bytes ++ Utf8.encode (Fault.log (faultOf? (first host budget program before).result).toList) := by
  cases hoptions : program.1.prepare host with
  | error error =>
      rw [first_of_error hoptions]
      exact (List.append_nil _).symm
  | ok options =>
      obtain ⟨result, later, hrun, herrors⟩ :=
        interpretInMemory_of_prepared program.2 budget hoptions before
      have hline : Fault.log (faultOf? (.ok result)).toList = result.elim "" Verdict.line := by
        rcases result with _ | _ | fault
        · rfl
        · rfl
        · simp [faultOf?, Except.toOption, Verdict.fault?, Fault.log, Verdict.line]
      unfold first
      rw [hrun, hline, herrors, OutputBuffer.bytes_write]

variable {budget program before}

theorem inRange_first {fault : Fault} (hsize : program.2.size ≤ 2 ^ 53)
    (h : faultOf? (first host budget program before).result = some fault) : fault.InRange := by
  let streams : Streams (Effect Empty Memory) := .ofState Memory.streams
  let call : Call Empty Memory := ⟨streams.read, streams.out, program.1, program.2, budget⟩
  obtain ⟨report, hreport⟩ := Call.exists_report host streams.log call (.start before)
  obtain ⟨r, hrun, _, _⟩ := exists_interpret_recorded program.1 program.2 budget before
  have hreturned := hreport.returned _ (congrArg Prod.fst hrun)
  exact hreport.inRange hsize (hreturned.trans h)

end SessionStep

/-- The faults that the first programs of a session return, in order. -/
def sessionFaults (host : Host) (budget : Nat) (programs : List (Settings × Program))
    (memory : Memory) (i : Nat) : List Fault :=
  (((session host budget programs memory).take i).map fun step => faultOf? step.result).reduceOption

/-- The lines of these faults make up what is added to the error text. -/
theorem errors_session {budget : Nat} {programs : List (Settings × Program)} {memory later : Memory}
    {i : Nat} (hsize : ∀ program ∈ programs, program.2.size ≤ 2 ^ 53)
    (h : (memories host budget programs memory)[i]? = some later) :
    (∀ fault ∈ sessionFaults host budget programs memory i, fault.InRange) ∧
      later.errors.bytes = memory.errors.bytes ++
        Utf8.encode (Fault.log (sessionFaults host budget programs memory i)) := by
  unfold sessionFaults
  induction programs generalizing memory i with
  | nil =>
      cases i with
      | zero =>
          obtain rfl : memory = later := by simpa [memories] using h
          simp [Fault.log]
      | succ i => simp [memories, session] at h
  | cons program programs ih =>
      obtain ⟨hprogram, hprograms⟩ := List.forall_mem_cons.mp hsize
      rw [memories_cons] at h
      cases i with
      | zero =>
          obtain rfl : memory = later := by simpa using h
          simp [Fault.log]
      | succ i =>
          obtain ⟨hrange, herrors⟩ := ih hprograms h
          rw [session_cons, List.take_succ_cons, List.map_cons]
          refine ⟨Fault.inRange_reduceOption_cons ?_ hrange, ?_⟩
          · intro fault hfault
            exact SessionStep.inRange_first hprogram hfault
          · rw [Fault.log_reduceOption_cons, Utf8.encode_append, ← List.append_assoc,
              ← SessionStep.errors_first]
            exact herrors

/-- Different lists of faults have different logs. Every line is in ASCII and ends in its only
newline. The log that calls of the interpreter share has one line for each call that reports a
fault, in order, and these faults can be read from it; in a session they are the faults that the
programs have returned. -/
theorem error_log_uniquely_decodable {ε σ : Type} :
    (∀ faults others : List Fault, (∀ fault ∈ faults, fault.InRange) →
      (∀ fault ∈ others, fault.InRange) →
      String.join (faults.map Fault.line) = String.join (others.map Fault.line) →
      faults = others) ∧
    (∀ fault : Fault, ∃ body, fault.line.toList = body ++ ['\n'] ∧ '\n' ∉ body ∧
      ∀ c ∈ fault.line.toList, c.toNat ≤ 127) ∧
    (∀ (host : Host) (log : Sink (Effect ε σ)) (calls : List (Call ε σ)) (world : σ),
      (∀ call ∈ calls, call.program.size ≤ 2 ^ 53) →
      ∃ reports : List (Option Fault),
        List.Forall₂ (fun start report => start.1.Reports host log start.2 report)
          (Call.starts host log calls (.start world)) reports ∧
        (Call.performAll host log calls (.start world)).logged =
          Utf8.encode (String.join (reports.reduceOption.map Fault.line)) ∧
        Fault.reportedIn (Utf8.decode (Call.performAll host log calls (.start world)).logged) =
          reports.reduceOption) ∧
    ∀ (host : Host) (budget : Nat) (programs : List (Settings × Program)) (input : List UInt8)
      (i : Nat) (later : Memory), (∀ program ∈ programs, program.2.size ≤ 2 ^ 53) →
      (memories host budget programs (.ofInput input))[i]? = some later →
      Fault.reportedIn later.errors.text =
        sessionFaults host budget programs (.ofInput input) i := by
  refine ⟨?_, ?_, ?_, ?_⟩
  · intro faults others hfaults hothers hlogs
    calc faults = Fault.reportedIn (Fault.log faults) := (Fault.reportedIn_log hfaults).symm
      _ = Fault.reportedIn (Fault.log others) := congrArg Fault.reportedIn hlogs
      _ = others := Fault.reportedIn_log hothers
  · intro fault
    refine ⟨fault.body, fault.toList_line, fault.plainText_body.newline_notMem, ?_⟩
    intro c hc
    rw [fault.toList_line, List.mem_append, List.mem_singleton] at hc
    rcases hc with hbody | rfl
    · exact (fault.plainText_body c hbody).1
    · decide
  · intro host log calls world hsize
    obtain ⟨reports, hreports, hrange, hlogged⟩ :=
      Call.exists_reports host log hsize (Recorded.start world)
    have hall : (Call.performAll host log calls (.start world)).logged =
        Utf8.encode (Fault.log reports.reduceOption) := hlogged
    refine ⟨reports, hreports, hall, ?_⟩
    rw [hall, Utf8.decode_encode, Fault.reportedIn_log hrange]
  · intro host budget programs input i later hsize hlater
    obtain ⟨hrange, herrors⟩ := errors_session hsize hlater
    have htext : later.errors.bytes =
        Utf8.encode (Fault.log (sessionFaults host budget programs (.ofInput input) i)) := herrors
    rw [OutputBuffer.text, htext, Utf8.decode_encode, Fault.reportedIn_log hrange]

/-- Three programs on one log, two of which report a fault, as calls and as a session; and two
logs that share a front. -/
theorem error_log_of_two_faults :
    let host := Host.upTo 1024
    let streams := Script.streams {} {}
    let settings := Settings.empty.withTapeLength 1
    let programs := [(settings, Program.ofBytes [0x2B, 0x5D]), (settings, Program.ofBytes [0x2E]),
      (settings, Program.ofBytes [0x3C])]
    let calls : List (Call StreamError Script) :=
      programs.map fun program => ⟨streams.read, streams.out, program.1, program.2, 9⟩
    (∀ call ∈ calls, call.program.size ≤ 2 ^ 53) ∧
      Fault.reportedIn (Utf8.decode
          (Call.performAll host streams.log calls (.start (.ofInput []))).logged) =
        [.missingOpening 1, .outOfBounds 0 .left] ∧
      (∃ later, (memories host 9 programs (.ofInput []))[3]? = some later ∧
        Fault.reportedIn later.errors.text = [.missingOpening 1, .outOfBounds 0 .left]) ∧
      String.join ([Fault.missingClosing 11].map Fault.line) ≠
        String.join ([Fault.missingClosing 1, .missingClosing 1].map Fault.line) := by
  intro host streams settings programs calls
  have hsize : ∀ call ∈ calls, call.program.size ≤ 2 ^ 53 := by decide
  obtain ⟨hinjective, _, hcalls, hsession⟩ := @error_log_uniquely_decodable StreamError Script
  refine ⟨hsize, ?_, ?_, ?_⟩
  · obtain ⟨reports, hreports, _, hread⟩ := hcalls host streams.log calls (.ofInput []) hsize
    rw [hread]
    rcases hreports with _ | ⟨hfirst, hreports⟩
    rcases hreports with _ | ⟨hsecond, hreports⟩
    rcases hreports with _ | ⟨hthird, hreports⟩
    cases hreports
    rw [hfirst.returned (.ok (some (.faulted (.missingOpening 1)))) rfl,
      hsecond.returned (.ok (some .completed)) rfl,
      hthird.returned (.ok (some (.faulted (.outOfBounds 0 .left)))) rfl]
    rfl
  · exact ⟨_, rfl, hsession host 9 programs [] 3 _ (by decide) rfl⟩
  · intro hlogs
    have hsame := hinjective _ _ (by simp [Fault.InRange, Fault.position])
      (by simp [Fault.InRange, Fault.position]) hlogs
    cases hsame

end Brainfuck
