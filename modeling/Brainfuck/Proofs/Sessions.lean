import Brainfuck.InMemory
import Brainfuck.Proofs.Decoding
import Brainfuck.Proofs.Noninterference

/-!
# Sessions

The programs of a session share an input, an output and an error log, and nothing else is
handed on from one to the next. Each of them does what it would do alone on the input that
it finds: it returns the same, adds the same bytes to the output and to the error log, and
takes as many bytes of the input as it makes reads, as far as there are any. A program that
does not start leaves the memory as it was.

What earlier programs have written is a frame around the buffers that a program sees, and no
call looks at it. The error log is compared as text, which is possible because only whole
lines are written to it.
-/
namespace Brainfuck

open Brainfuck.Bracket

variable {host : Host}

namespace OutputBuffer

theorem ext_bytes {a b : OutputBuffer} (h : a.bytes = b.bytes) : a = b := by
  obtain ⟨contents⟩ := a
  obtain ⟨contents'⟩ := b
  exact congrArg mk (Array.toList_inj.mp h)

@[simp] theorem write_nil (buffer : OutputBuffer) : buffer.write [] = buffer :=
  ext_bytes (by simp)

@[simp] theorem write_write (buffer : OutputBuffer) (bs bs' : List UInt8) :
    (buffer.write bs).write bs' = buffer.write (bs ++ bs') :=
  ext_bytes (by simp)

end OutputBuffer

namespace Memory

/-- A memory behind another one: the input is its own, and what it holds has been written
behind what the other one holds. -/
def after (first memory : Memory) : Memory :=
  ⟨memory.input, first.output.write memory.output.bytes, first.errors.write memory.errors.bytes⟩

theorem after_ofInput (memory : Memory) : memory.after (.ofInput memory.input.unread) = memory := by
  simp [after, ofInput]

/-- What happens on a memory happens in the same way behind another one. -/
def behind (first : Memory) : Simulation (StateM Memory) (StateM Memory) where
  Rel V x y := ∀ memory, V (x memory).1 (y (first.after memory)).1 ∧
    (y (first.after memory)).2 = first.after (x memory).2
  pure h _ := ⟨h, rfl⟩
  bind {_ _ _ _ x _ _ _} _ hx hfg := by
    intro memory
    obtain ⟨hvalue, hstate⟩ := hx memory
    have hnext := hfg _ _ hvalue (x memory).2
    rw [← hstate] at hnext
    exact hnext

theorem behind_streams (first : Memory) (w : Nat) : streams.Related (behind first) w streams where
  read _ := ⟨rfl, rfl⟩
  out :=
    { write := fun bytes memory => ⟨rfl, by simp [streams_out_write, after]⟩
      flush := fun _ => ⟨rfl, rfl⟩ }

theorem behind_log (first : Memory) : streams.log.Related (behind first) streams.log where
  write bytes memory := ⟨rfl, by simp [streams_log_write, after]⟩
  flush _ := ⟨rfl, rfl⟩

/-- The streams over a memory, with their calls recorded. -/
def recorded : Streams (Effect Empty (Recorded Memory)) :=
  Recorded.streams (Streams.ofState streams)

/-- Recorded calls on a memory do what the calls do, and one byte of the input is gone for
each read among them, as far as there are any. -/
def counting : Simulation (Effect Empty (Recorded Memory)) (StateM Memory) where
  Rel V x y := ∀ r, ∃ a events, x.runFrom r = (.ok a, r.extend (y r.world).2 events) ∧
    V a (y r.world).1 ∧
    (y r.world).2.input.unread = r.world.input.unread.drop (events.countP Event.isRead)
  pure h r := ⟨_, [], congrArg (Prod.mk _) r.extend_nil.symm, h, rfl⟩
  bind {_ _ _ _ _ y _ _} _ hx hfg := by
    intro r
    obtain ⟨a, events, hx, hab, hunread⟩ := hx r
    obtain ⟨b, events', hf, hb, hunread'⟩ := hfg a _ hab (r.extend (y r.world).2 events)
    refine ⟨b, events ++ events', ?_, hb, ?_⟩
    · rw [Recorded.extend_extend] at hf
      exact Effect.bind_yields_iff.mpr ⟨a, _, hx, hf⟩
    · rw [List.countP_append, ← List.drop_drop, ← hunread]
      exact hunread'

theorem counting_streams (w : Nat) : recorded.Related counting w streams where
  read r := by
    refine ⟨_, [.read (streams.read r.world).1], ?_, SameCell.refl w _, ?_⟩
    · exact Recorded.runFrom_read (ExceptT.lift streams.read) r
    · rw [streams_read]
      exact congrArg (fun read => read.2.unread) (read_drop r.world.input.unread 0)
  out :=
    { write := fun bytes r =>
        ⟨(), [.outWrite bytes], Recorded.runFrom_note_lift (.outWrite bytes) _ r, rfl, rfl⟩
      flush := fun r => ⟨(), [], Recorded.runFrom_flush .outWrite .outFlush _ r, rfl, rfl⟩ }

theorem counting_log : recorded.log.Related counting streams.log where
  write bytes r :=
    ⟨(), [.logWrite bytes], Recorded.runFrom_note_lift (.logWrite bytes) _ r, rfl, rfl⟩
  flush r := ⟨(), [], Recorded.runFrom_flush .logWrite .logFlush _ r, rfl, rfl⟩

end Memory

/-- The line that the error log receives for a verdict, and nothing without a fault. -/
def Verdict.line : Verdict → String
  | .completed => ""
  | .faulted fault => fault.line

namespace Execution

/-- The end of an execution writes the line of its verdict to the error log. -/
theorem errors_conclude {w : Nat} (progress : Progress w) (memory : Memory) :
    (conclude Memory.streams progress memory).2.errors = memory.errors.write
      (Utf8.encode ((conclude Memory.streams progress memory).1.elim "" Verdict.line)) := by
  cases progress with
  | running machine => exact memory.errors.write_nil.symm
  | stopped verdict final =>
      cases verdict with
      | completed => exact memory.errors.write_nil.symm
      | faulted fault => rfl

/-- A run writes nothing to the error log. -/
theorem errors_runFor {w : Nat} (p : Program) (brackets : Matcher) (n : Nat) (machine : Machine w)
    (memory : Memory) :
    (runFor Memory.streams p brackets n machine memory).2.errors = memory.errors := by
  induction n generalizing machine memory with
  | zero => rfl
  | succ n ih =>
      simp only [runFor]
      cases machine.step p brackets with
      | advance next => exact ih next memory
      | write byte next => exact ih next (Memory.streams.out.write [byte] memory).2
      | read next => exact ih _ (Memory.streams.read memory).2
      | stop verdict final => rfl

end Execution

section
variable (settings : Settings) (p : Program) (n : Nat)

variable (host) in
/-- An execution does not look at what has been written before. -/
theorem interpretInMemory_after (first memory : Memory) :
    (interpretInMemory host settings p n).run (first.after memory) =
      (((interpretInMemory host settings p n).run memory).1,
        first.after ((interpretInMemory host settings p n).run memory).2) := by
  have hrelated : (Memory.behind first).Rel Eq (interpretInMemory host settings p n)
      (interpretInMemory host settings p n) :=
    Execution.rel_interpret (fun hxy => hxy) (fun _ _ => Memory.behind_streams first _)
      (Memory.behind_log first) p n
  obtain ⟨hvalue, hstate⟩ := hrelated memory
  exact Prod.ext hvalue.symm hstate

theorem interpretInMemory_of_error {settings : Settings} {error : StartError}
    (h : settings.prepare host = .error error) (memory : Memory) :
    (interpretInMemory host settings p n).run memory = (.error error, memory) := by
  unfold interpretInMemory
  rw [interpret_of_error h]
  rfl

theorem exists_prepare_of_memory {settings : Settings} {result : Option Verdict}
    {memory later : Memory}
    (h : (interpretInMemory host settings p n).run memory = (.ok result, later)) :
    ∃ options, settings.prepare host = .ok options := by
  cases hprepare : settings.prepare host with
  | ok options => exact ⟨options, rfl⟩
  | error error =>
      rw [interpretInMemory_of_error p n hprepare] at h
      cases h

/-- There is nothing to flush in memory, so an execution is a run and its end. -/
theorem interpretInMemory_of_runFor {settings : Settings} {options : Options}
    (h : settings.prepare host = .ok options) {memory later : Memory}
    {progress : Progress options.cellWidth.bits}
    (hrun : Execution.runFor Memory.streams p (options.brackets.matcher p) n
      (Machine.initial options.tape) memory = (progress, later)) :
    (interpretInMemory host settings p n).run memory =
      (.ok (Execution.conclude Memory.streams progress later).1,
        (Execution.conclude Memory.streams progress later).2) := by
  obtain ⟨rfl, rfl⟩ := Prod.mk.inj hrun
  unfold interpretInMemory interpret
  rw [h]
  rfl

/-- An execution writes the line of its verdict to the error log. -/
theorem interpretInMemory_of_prepared {settings : Settings} {options : Options}
    (h : settings.prepare host = .ok options) (memory : Memory) :
    ∃ result later, (interpretInMemory host settings p n).run memory = (.ok result, later) ∧
      later.errors = memory.errors.write (Utf8.encode (result.elim "" Verdict.line)) := by
  let run := Execution.runFor Memory.streams p (options.brackets.matcher p) n
    (Machine.initial options.tape) memory
  have herrors : run.2.errors = memory.errors := Execution.errors_runFor ..
  exact ⟨_, _, interpretInMemory_of_runFor p n h rfl,
    herrors ▸ Execution.errors_conclude run.1 run.2⟩

/-- The error text of a report is the line of its verdict. -/
theorem exists_run_of_prepared {settings : Settings} {options : Options}
    (h : settings.prepare host = .ok options) (input : List UInt8) :
    ∃ result later,
      (interpretInMemory host settings p n).run (.ofInput input) = (.ok result, later) ∧
      later.errors.bytes = Utf8.encode (result.elim "" Verdict.line) ∧
      run host p input settings n =
        .ok ⟨result, later.output.bytes, result.elim "" Verdict.line⟩ := by
  obtain ⟨result, later, hlater, herrors⟩ := interpretInMemory_of_prepared p n h (.ofInput input)
  have hbytes : later.errors.bytes = Utf8.encode (result.elim "" Verdict.line) := by
    rw [herrors, OutputBuffer.bytes_write]
    rfl
  refine ⟨result, later, hlater, hbytes, ?_⟩
  unfold run OutputBuffer.text
  rw [hlater]
  simp [Except.map, hbytes]

/-- An execution takes one byte of the input for each of its reads. -/
theorem exists_interpret_recorded (before : Memory) :
    ∃ r, (interpret host Memory.recorded settings p n).runFrom (.start before) =
        (.ok ((interpretInMemory host settings p n).run before).1, r) ∧
      r.world = ((interpretInMemory host settings p n).run before).2 ∧
      ((interpretInMemory host settings p n).run before).2.input.unread =
        before.input.unread.drop r.reads.length := by
  have hrelated : Memory.counting.Rel Eq (interpret host Memory.recorded settings p n)
      (interpretInMemory host settings p n) := by
    refine Execution.rel_interpret ?_ (fun _ _ => Memory.counting_streams _)
      Memory.counting_log p n
    intro x y hxy r
    obtain ⟨a, events, hx, hab, hunread⟩ := hxy r
    exact ⟨a, events, Effect.tryFinally_yields_iff.mpr ⟨_, hx, rfl⟩, hab, hunread⟩
  obtain ⟨result, events, hrun, rfl, hunread⟩ := hrelated (.start before)
  refine ⟨_, hrun, rfl, ?_⟩
  rw [Recorded.reads_extend, List.length_append, ← List.countP_eq_length_filter,
    show (Recorded.start before).reads.length = 0 from rfl, Nat.zero_add]
  exact hunread

end

namespace Report

/-- The bytes that an execution has written, none if it did not start. -/
def outputOf : Except StartError Report → List UInt8
  | .ok report => report.output
  | .error _ => []

/-- The text that an execution has logged, none if it did not start. -/
def errorsOf : Except StartError Report → String
  | .ok report => report.errors
  | .error _ => ""

end Report

/-- One program of a session, in the memory that it finds. -/
def SessionStep.first (host : Host) (budget : Nat) (program : Settings × Program)
    (before : Memory) : SessionStep :=
  ⟨((interpretInMemory host program.1 program.2 budget).run before).1,
    ((interpretInMemory host program.1 program.2 budget).run before).2⟩

theorem SessionStep.first_of_error {budget : Nat} {program : Settings × Program}
    {error : StartError} (h : program.1.prepare host = .error error) (before : Memory) :
    first host budget program before = ⟨.error error, before⟩ := by
  unfold first
  rw [interpretInMemory_of_error program.2 budget h]

/-- A step returns what a report says, and adds the output and the errors of the report. -/
structure SessionStep.Adds (before : Memory) (report : Except StartError Report)
    (step : SessionStep) : Prop where
  result : step.result = report.map Report.verdict
  output : step.memory.output.bytes = before.output.bytes ++ Report.outputOf report
  errors : step.memory.errors.bytes =
    before.errors.bytes ++ Utf8.encode (Report.errorsOf report)
  unread : step.memory.input.unread <:+ before.input.unread

/-- A program adds to the memory what it writes alone on the input that it finds. -/
theorem SessionStep.adds_first (host : Host) (budget : Nat) (program : Settings × Program)
    (before : Memory) :
    Adds before (run host program.2 before.input.unread program.1 budget)
      (first host budget program before) := by
  obtain ⟨settings, p⟩ := program
  cases hoptions : settings.prepare host with
  | error error =>
      have hrun : run host p before.input.unread settings budget = .error error := by
        unfold run
        rw [interpretInMemory_of_error p budget hoptions]
        rfl
      rw [hrun, first_of_error hoptions]
      exact ⟨rfl, (List.append_nil _).symm, (List.append_nil _).symm, List.suffix_rfl⟩
  | ok options =>
      obtain ⟨result, alone, halone, hbytes, hrun⟩ :=
        exists_run_of_prepared p budget hoptions before.input.unread
      -- The memory is its own frame around one that holds the same input and nothing else.
      have hshared : (interpretInMemory host settings p budget).run before =
          (.ok result, before.after alone) := by
        have hframe := interpretInMemory_after host settings p budget before
          (.ofInput before.input.unread)
        rwa [before.after_ofInput, halone] at hframe
      obtain ⟨r, _, _, hunread⟩ := exists_interpret_recorded settings p budget before
      rw [hrun]
      refine ⟨?_, ?_, ?_, ?_⟩ <;> unfold first
      · rw [hshared]
        rfl
      · rw [hshared]
        exact OutputBuffer.bytes_write _ _
      · rw [hshared]
        exact (OutputBuffer.bytes_write _ _).trans (congrArg (before.errors.bytes ++ ·) hbytes)
      · rw [hunread]
        exact List.drop_suffix _ _

/-- The memories of a session: the one that it starts with, and the one after each program. -/
def memories (host : Host) (budget : Nat) (programs : List (Settings × Program)) (memory : Memory) :
    List Memory :=
  memory :: (session host budget programs memory).map SessionStep.memory

/-- The programs of a session, each of them alone on the input that it finds. -/
def standalone (host : Host) (budget : Nat) (programs : List (Settings × Program))
    (memory : Memory) : List (Except StartError Report) :=
  programs.zipWith (fun program before => run host program.2 before.input.unread program.1 budget)
    (memories host budget programs memory)

section
variable {budget : Nat} {program : Settings × Program} {programs : List (Settings × Program)}
variable {memory : Memory}

theorem session_cons : session host budget (program :: programs) memory =
    SessionStep.first host budget program memory ::
      session host budget programs (SessionStep.first host budget program memory).memory := rfl

theorem memories_cons : memories host budget (program :: programs) memory =
    memory ::
      memories host budget programs (SessionStep.first host budget program memory).memory := rfl

theorem standalone_cons : standalone host budget (program :: programs) memory =
    run host program.2 memory.input.unread program.1 budget ::
      standalone host budget programs (SessionStep.first host budget program memory).memory := rfl

/-- Each program is interpreted in the memory that the earlier ones have left. -/
theorem session_getElem? {before : Memory} {i : Nat} (hprogram : programs[i]? = some program)
    (hbefore : (memories host budget programs memory)[i]? = some before) :
    (session host budget programs memory)[i]? =
      some (SessionStep.first host budget program before) := by
  induction programs generalizing memory i with
  | nil => simp at hprogram
  | cons head programs ih =>
      rw [memories_cons] at hbefore
      rw [session_cons]
      cases i with
      | zero =>
          obtain rfl : head = program := by simpa using hprogram
          obtain rfl : memory = before := by simpa using hbefore
          rfl
      | succ i => exact ih hprogram hbefore

theorem result_session (budget : Nat) (programs : List (Settings × Program)) (memory : Memory) :
    (session host budget programs memory).map SessionStep.result =
      (standalone host budget programs memory).map (Except.map Report.verdict) := by
  induction programs generalizing memory with
  | nil => rfl
  | cons program programs ih =>
      rw [session_cons, standalone_cons, List.map_cons, List.map_cons, ih,
        (SessionStep.adds_first host budget program memory).result]

/-- The shared memory after some programs holds what they would have written alone. -/
theorem memory_session {later : Memory} {i : Nat}
    (h : (memories host budget programs memory)[i]? = some later) :
    later.output.bytes = memory.output.bytes ++
        ((standalone host budget programs memory).take i).flatMap Report.outputOf ∧
      later.errors.bytes = memory.errors.bytes ++ Utf8.encode
        (String.join (((standalone host budget programs memory).take i).map Report.errorsOf)) ∧
      later.input.unread <:+ memory.input.unread := by
  induction programs generalizing memory i with
  | nil =>
      cases i with
      | zero =>
          obtain rfl : memory = later := by simpa [memories] using h
          simp
      | succ i => simp [memories, session] at h
  | cons program programs ih =>
      rw [memories_cons] at h
      cases i with
      | zero =>
          obtain rfl : memory = later := by simpa using h
          simp
      | succ i =>
          have hfirst := SessionStep.adds_first host budget program memory
          obtain ⟨houtput, herrors, hunread⟩ := ih h
          rw [standalone_cons, List.take_succ_cons]
          refine ⟨?_, ?_, hunread.trans hfirst.unread⟩
          · rw [houtput, hfirst.output, List.flatMap_cons, List.append_assoc]
          · rw [herrors, hfirst.errors, List.map_cons, String.join_cons, Utf8.encode_append,
              List.append_assoc]

end

/-- The programs of a session do not notice one another. Each returns what it would return
alone on the input that the earlier ones have left unread. After any number of them the
output is what these programs write alone, one after another, and so is the text of the
error log. A program takes one byte for each of its reads, as long as there is one, and one
that does not start changes nothing. -/
theorem session_eq_standalone (host : Host) (budget : Nat) (programs : List (Settings × Program))
    (input : List UInt8) :
    (session host budget programs (.ofInput input)).map SessionStep.result =
      (standalone host budget programs (.ofInput input)).map (Except.map Report.verdict) ∧
    (∀ i memory, (memories host budget programs (.ofInput input))[i]? = some memory →
      memory.output.bytes =
        ((standalone host budget programs (.ofInput input)).take i).flatMap Report.outputOf ∧
      memory.errors.text = String.join
        (((standalone host budget programs (.ofInput input)).take i).map Report.errorsOf) ∧
      memory.input.unread <:+ input) ∧
    ∀ i settings p before, programs[i]? = some (settings, p) →
      (memories host budget programs (.ofInput input))[i]? = some before →
      ∃ step, (session host budget programs (.ofInput input))[i]? = some step ∧
        (memories host budget programs (.ofInput input))[i + 1]? = some step.memory ∧
        (∃ r, (interpret host Memory.recorded settings p budget).runFrom (.start before) =
            (.ok step.result, r) ∧ r.world = step.memory ∧
          step.memory.input.unread = before.input.unread.drop r.reads.length ∧
          step.memory.input.remaining + min r.reads.length before.input.remaining =
            before.input.remaining) ∧
        (∀ error, settings.resolve = .error error →
          step.result = .error (.config error) ∧ step.memory = before) ∧
        ∀ error, settings.prepare host = .error error →
          step.result = .error error ∧ step.memory = before := by
  refine ⟨result_session budget programs _, ?_, ?_⟩
  · intro i memory hmemory
    obtain ⟨houtput, herrors, hunread⟩ := memory_session hmemory
    refine ⟨houtput, ?_, hunread⟩
    rw [OutputBuffer.text, herrors]
    exact Utf8.decode_encode _
  · intro i settings p before hprogram hbefore
    have hstep := session_getElem? hprogram hbefore
    have herror : ∀ error, settings.prepare host = .error error →
        (SessionStep.first host budget (settings, p) before).result = .error error ∧
          (SessionStep.first host budget (settings, p) before).memory = before := by
      intro error herror
      rw [SessionStep.first_of_error herror]
      exact ⟨rfl, rfl⟩
    refine ⟨_, hstep, ?_, ?_, ?_, herror⟩
    · rw [memories, List.getElem?_cons_succ, List.getElem?_map, hstep]
      rfl
    · obtain ⟨r, hrun, hworld, hunread⟩ := exists_interpret_recorded settings p budget before
      refine ⟨r, hrun, hworld, hunread, ?_⟩
      rw [InputBuffer.remaining, InputBuffer.remaining, SessionStep.first, hunread,
        List.length_drop]
      omega
    · intro error hrefused
      exact herror _ (Settings.prepare_of_refused hrefused)

/-- One byte is echoed, settings are refused, and the last program reads the other byte and
the end of input before it leaves the tape. -/
theorem session_of_echo_refusal_and_fault :
    let host := Host.upTo 1024
    let programs := [(Settings.empty.withTapeLength 1, Program.ofBytes [0x2C, 0x2E]),
      ({ brackets := some "none" }, Program.ofBytes [0x2C]),
      (Settings.empty.withTapeLength 1, Program.ofBytes [0x2C, 0x2C, 0x3C])]
    ∃ before step last, (memories host 9 programs (.ofInput [65, 66]))[1]? = some before ∧
      (session host 9 programs (.ofInput [65, 66]))[1]? = some step ∧ step.memory = before ∧
      (memories host 9 programs (.ofInput [65, 66]))[3]? = some last ∧ last.output.bytes = [65] ∧
      last.errors.text = (Fault.outOfBounds 2 .left).line ∧ last.input.unread = [] := by
  intro host programs
  have hsession := session_eq_standalone host 9 programs [65, 66]
  obtain ⟨step, hstep, _, _, hrefused, _⟩ := hsession.2.2 1 _ _ _ rfl rfl
  obtain ⟨houtput, herrors, _⟩ := hsession.2.1 3 _ rfl
  exact ⟨_, step, _, rfl, hstep, (hrefused _ rfl).2, rfl, houtput, herrors, rfl⟩

end Brainfuck
