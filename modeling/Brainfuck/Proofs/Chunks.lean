import Brainfuck.Proofs.Sessions

/-!
# Text in chunks

An output buffer decodes all of its contents at once. However the octets of a text are cut into
the chunks of successive writes, also inside of a character, the buffer gives the text back.

An execution in memory depends on this. Its output arrives one byte at a time, so that every
character of more than one octet is cut, and the error log has the line of the verdict.
-/
namespace Brainfuck

variable {host : Host}

namespace OutputBuffer

/-- A buffer that has received some chunks, one write for each. -/
def ofChunks (chunks : List (List UInt8)) : OutputBuffer :=
  chunks.foldl (fun buffer chunk => buffer.write chunk) .empty

@[simp] theorem bytes_ofChunks (chunks : List (List UInt8)) :
    (ofChunks chunks).bytes = chunks.flatten := by
  have hwrites : ∀ buffer : OutputBuffer,
      (chunks.foldl (fun buffer chunk => buffer.write chunk) buffer).bytes =
        buffer.bytes ++ chunks.flatten := by
    induction chunks with
    | nil => simp
    | cons chunk chunks ih =>
        intro buffer
        rw [List.foldl_cons, ih, bytes_write, List.flatten_cons, List.append_assoc]
  exact hwrites .empty

theorem text_of_bytes {buffer : OutputBuffer} {text : String}
    (h : buffer.bytes = Utf8.encode text) : buffer.text = text := by
  rw [OutputBuffer.text, h, Utf8.decode_encode]

end OutputBuffer

/-- The chunk that a call hands to the output. -/
def Event.written? : Event → Option (List UInt8)
  | .outWrite bytes => some bytes
  | _ => none

/-- A call that hands one byte to the output, if it hands anything to it. -/
def Event.OneByte (event : Event) : Prop :=
  ∀ bytes, event = .outWrite bytes → ∃ byte, bytes = [byte]

namespace Recorded

variable {ε σ : Type}

/-- The chunks that the output has been handed. -/
def outChunks (r : Recorded σ) : List (List UInt8) := r.trace.toList.filterMap Event.written?

theorem flatten_outChunks (r : Recorded σ) :
    r.outChunks.flatten = r.calls.flatMap Event.written := by
  unfold outChunks calls
  induction r.trace.toList with
  | nil => rfl
  | cons event events ih =>
      cases event <;>
        simp [List.filterMap_cons, Event.written?, Event.written, Event.erased, ih]

theorem addsOnly_report (s : Streams (Effect ε σ)) (fault : Fault) :
    AddsOnly Event.OneByte (Execution.report (streams s) fault) := by
  apply ((addsOnly_outFlush s).mono _).bind
  · intro _
    apply ((addsOnly_logWrite s _).mono _).bind
    · intro _
      exact (addsOnly_logFlush s).mono (by rintro _ rfl _ ⟨⟩)
    · rintro _ rfl _ ⟨⟩
  · rintro _ rfl _ ⟨⟩

theorem addsOnly_conclude {w : Nat} (s : Streams (Effect ε σ)) (progress : Progress w) :
    AddsOnly Event.OneByte (Execution.conclude (streams s) progress) := by
  cases progress with
  | running machine => exact addsOnly_pure _
  | stopped verdict final =>
      cases verdict with
      | completed => exact addsOnly_pure _
      | faulted fault => exact (addsOnly_report s fault).bind fun _ => addsOnly_pure _

theorem addsOnly_interpret (s : Streams (Effect ε σ)) (settings : Settings) (p : Program)
    (n : Nat) : AddsOnly Event.OneByte (interpret host (streams s) settings p n) := by
  unfold interpret
  cases settings.prepare host with
  | error error => exact addsOnly_pure _
  | ok options =>
      dsimp only
      rw [map_eq_pure_bind]
      refine AddsOnly.bind (AddsOnly.tryFinally ?_ ?_) fun _ => addsOnly_pure _
      · apply ((Execution.addsOnly_runFor s p _ n _).mono _).bind
        · exact addsOnly_conclude s
        · rintro _ ⟨byte⟩ bytes hbytes <;> cases hbytes
          exact ⟨byte, rfl⟩
      · exact (addsOnly_outFlush s).mono (by rintro _ rfl _ ⟨⟩)

end Recorded

theorem eq_map_of_singletons {chunks : List (List UInt8)}
    (h : ∀ chunk ∈ chunks, ∃ byte, chunk = [byte]) :
    chunks = chunks.flatten.map fun byte => [byte] := by
  induction chunks with
  | nil => rfl
  | cons chunk chunks ih =>
      obtain ⟨⟨byte, rfl⟩, hchunks⟩ := List.forall_mem_cons.mp h
      rw [List.flatten_cons, List.map_append, ← ih hchunks]
      rfl

/-- An execution hands its output over one byte at a time. -/
theorem outChunks_of_recorded {settings : Settings} {p : Program} {input : List UInt8} {n : Nat}
    {outcome : Except Empty (Except StartError (Option Verdict))} {r : Recorded Memory}
    (h : interpretRecorded host settings p input n = (outcome, r)) :
    r.outChunks = r.outChunks.flatten.map fun byte => [byte] := by
  obtain ⟨_, world, events, hrun, hevents⟩ := Recorded.addsOnly_interpret
    (Streams.ofState Memory.streams : Streams (Effect Empty Memory)) settings p n
    (.start (.ofInput input))
  obtain ⟨rfl, rfl⟩ := Prod.mk.inj (h.symm.trans hrun)
  apply eq_map_of_singletons
  intro chunk hchunk
  obtain ⟨event, hevent, hwritten⟩ := List.mem_filterMap.mp hchunk
  rw [Recorded.trace_extend] at hevent
  cases event with
  | outWrite bytes =>
      obtain rfl : bytes = chunk := Option.some.inj hwritten
      exact hevents _ (by simpa [Recorded.start] using hevent) bytes rfl
  | _ => cases hwritten

/-- A buffer gives back a text that it has received in chunks of any sizes. The error text of an
execution is the line of its verdict, and a text that a program prints arrives one byte at a time
and is given back. -/
theorem text_survives_chunking :
    (∀ (text : String) (chunks : List (List UInt8)), chunks.flatten = Utf8.encode text →
      (OutputBuffer.ofChunks chunks).bytes = Utf8.encode text ∧
        (OutputBuffer.ofChunks chunks).text = text) ∧
    ∀ (host : Host) (p : Program) (input : List UInt8) (settings : Settings) (options : Options)
      (n : Nat), settings.prepare host = .ok options →
      ∃ report r, run host p input settings n = .ok report ∧
        interpretRecorded host settings p input n = (.ok (.ok report.verdict), r) ∧
        report.errors = report.verdict.elim "" Verdict.line ∧
        r.outChunks = (report.output.map fun byte => [byte]) ∧
        r.world.output = .ofChunks r.outChunks ∧
        ∀ text, report.output = Utf8.encode text → r.world.output.text = text := by
  constructor
  · intro text chunks hchunks
    have hbytes := (OutputBuffer.bytes_ofChunks chunks).trans hchunks
    exact ⟨hbytes, OutputBuffer.text_of_bytes hbytes⟩
  · intro host p input settings options n hoptions
    obtain ⟨result, r, hrecorded, hmemory, haccounts⟩ := exists_accounts settings p input n
    obtain ⟨verdict, later, hlater, _, hrun⟩ := exists_run_of_prepared p n hoptions input
    obtain ⟨rfl, rfl⟩ := Prod.mk.inj (hmemory.symm.trans hlater)
    have houtput : r.world.output.bytes = r.outChunks.flatten := by
      rw [haccounts.output, Recorded.flatten_outChunks]
    refine ⟨_, r, hrun, hrecorded, rfl, ?_, ?_, ?_⟩
    · rw [houtput]
      exact outChunks_of_recorded hrecorded
    · exact OutputBuffer.ext_bytes (by rw [houtput, OutputBuffer.bytes_ofChunks])
    · intro text htext
      exact OutputBuffer.text_of_bytes htext

/-- A byte order mark and characters of two, three and four octets, all of them cut, and a program
that prints a character of two octets before it faults. -/
theorem text_survives_cuts_inside_characters :
    let chunks : List (List UInt8) := [[0xEF], [], [0xBB, 0xBF, 0xC3], [0xA9, 0xE2, 0x82],
      [0xAC, 0xF0, 0x9F], [0x98], [0x80]]
    let p := Program.ofBytes [0x2C, 0x2E, 0x2C, 0x2E, 0x3C]
    let settings := Settings.empty.withTapeLength 1
    chunks.flatten = Utf8.encode "\uFEFFé€😀" ∧
      (OutputBuffer.ofChunks chunks).text = "\uFEFFé€😀" ∧
      settings.prepare (.upTo 1024) = .ok ⟨1, .bits32, .scan⟩ ∧
      ∃ r : Recorded Memory, run (.upTo 1024) p [0xC3, 0xA9] settings 9 = .ok
          ⟨some (.faulted (.outOfBounds 4 .left)), [0xC3, 0xA9], (Fault.outOfBounds 4 .left).line⟩ ∧
        r.outChunks = [[0xC3], [0xA9]] ∧ r.world.output.text = "é" := by
  intro chunks p settings
  have hchunks : chunks.flatten = Utf8.encode "\uFEFFé€😀" := by decide
  have hoptions : settings.prepare (.upTo 1024) = .ok ⟨1, .bits32, .scan⟩ := rfl
  obtain ⟨hcuts, hruns⟩ := text_survives_chunking
  obtain ⟨⟨verdict, output, errors⟩, r, hrun, _, herrors, hparts, _, htext⟩ :=
    hruns (.upTo 1024) p [0xC3, 0xA9] settings _ 9 hoptions
  have hreport : (run (.upTo 1024) p [0xC3, 0xA9] settings 9).map (fun report =>
      (report.verdict, report.output)) = .ok (some (.faulted (.outOfBounds 4 .left)), _) := rfl
  rw [hrun] at hreport
  obtain ⟨rfl, rfl⟩ := Prod.mk.inj (Except.ok.inj hreport)
  obtain rfl : errors = (Fault.outOfBounds 4 .left).line := herrors
  exact ⟨hchunks, (hcuts _ chunks hchunks).2, hoptions, r, hrun, hparts, htext "é" (by decide)⟩

end Brainfuck
