import Brainfuck.Proofs.Descriptors

/-!
# What becomes of written bytes

A writer is followed through any calls on a file whose system writes are answered as one
likes: with everything accepted, with a part accepted, or with a failure that stores
nothing. Every system write is remembered. An accepted write carries the bytes that were
accepted, and a failed one carries all that it was offered, because none of it is ever
offered again.

The bytes carried by the system writes, in their order, and behind them the bytes that are
still pending, are the bytes that were written to the writer. So nothing is repeated or put
out of order, whatever the writer waits for before it hands over, and nothing is lost
but what a failed system write carried.
-/
namespace Brainfuck

variable {ε : Type}

/-- How the system answers a write. -/
inductive WriteAnswer (ε : Type) where
  | everything
  /-- At most so many bytes are accepted, and at least one. -/
  | upTo (count : Nat)
  /-- Nothing is stored. -/
  | failure (error : ε)

/-- The reply to a write of some bytes. -/
def WriteAnswer.reply {offered : List UInt8} (h : offered ≠ []) :
    WriteAnswer ε → Except ε (Accepted offered)
  | .everything => .ok (.everything h)
  | .upTo count =>
    have hlength : 0 < offered.length := List.length_pos_iff.mpr h
    .ok ⟨max 1 (min count offered.length), by omega, by omega⟩
  | .failure error => .error error

/-- A system write that has been made: what was offered, and how much was accepted. -/
structure SystemWrite (ε : Type) where
  offered : List UInt8
  reply : Except ε Nat

namespace SystemWrite

/-- The bytes that a write disposes of: the accepted ones, or all of them if it failed. -/
def carried (write : SystemWrite ε) : List UInt8 :=
  match write.reply with
  | .ok count => write.offered.take count
  | .error _ => write.offered

def succeeded (write : SystemWrite ε) : Bool :=
  match write.reply with
  | .ok _ => true
  | .error _ => false

end SystemWrite

/-- A file and the system writes that have been made to it. -/
structure LoggedFile (ε : Type) where
  contents : List UInt8 := []
  writes : List (SystemWrite ε) := []

namespace LoggedFile

/-- The file after a write. Accepted bytes are appended. -/
def record {offered : List UInt8} (reply : Except ε (Accepted offered)) (file : LoggedFile ε) :
    LoggedFile ε :=
  match reply with
  | .ok accepted =>
    ⟨file.contents ++ offered.take accepted.val, file.writes ++ [⟨offered, .ok accepted.val⟩]⟩
  | .error error => ⟨file.contents, file.writes ++ [⟨offered, .error error⟩]⟩

/-- Offers bytes to a file that gives the answers one after another. -/
def offer (answers : Nat → WriteAnswer ε) : Offer ε (StateM (LoggedFile ε)) :=
  fun _ h file =>
    let reply := (answers file.writes.length).reply h
    (reply, file.record reply)

/-- The file after more writes: the bytes of those that succeeded are appended. -/
def extend (writes : List (SystemWrite ε)) (file : LoggedFile ε) : LoggedFile ε :=
  ⟨file.contents ++ (writes.filter SystemWrite.succeeded).flatMap SystemWrite.carried,
    file.writes ++ writes⟩

theorem extend_nil (file : LoggedFile ε) : file.extend [] = file := by
  simp [extend]

theorem extend_extend (first second : List (SystemWrite ε)) (file : LoggedFile ε) :
    (file.extend first).extend second = file.extend (first ++ second) := by
  simp [extend]

theorem record_ok {offered : List UInt8} (accepted : Accepted offered) (file : LoggedFile ε) :
    file.record (.ok accepted) = file.extend [⟨offered, .ok accepted.val⟩] := by
  simp [record, extend, List.filter_cons, SystemWrite.succeeded, SystemWrite.carried]

theorem record_error {offered : List UInt8} (error : ε) (file : LoggedFile ε) :
    file.record (.error error : Except ε (Accepted offered)) =
      file.extend [⟨offered, .error error⟩] := by
  simp [record, extend, SystemWrite.succeeded]

end LoggedFile

/-- How bytes are handed over: write after write, each with what is left, until nothing is
left or a write fails. -/
inductive HandedOver (answers : Nat → WriteAnswer ε) :
    List UInt8 → List (SystemWrite ε) → Except ε Unit → Prop
  | done : HandedOver answers [] [] (.ok ())
  | accepted {bytes : List UInt8} {h : bytes ≠ []} {n : Nat} {accepted : Accepted bytes}
      {writes : List (SystemWrite ε)} {outcome : Except ε Unit} :
      (answers n).reply h = .ok accepted →
      HandedOver answers (bytes.drop accepted.val) writes outcome →
      HandedOver answers bytes (⟨bytes, .ok accepted.val⟩ :: writes) outcome
  | failed {bytes : List UInt8} {h : bytes ≠ []} {n : Nat} {error : ε} :
      (answers n).reply h = .error error →
      HandedOver answers bytes [⟨bytes, .error error⟩] (.error error)

namespace HandedOver

variable {answers : Nat → WriteAnswer ε} {bytes : List UInt8} {writes : List (SystemWrite ε)}
variable {outcome : Except ε Unit}

/-- The writes carry the bytes, each byte once and in order. -/
theorem carried (h : HandedOver answers bytes writes outcome) :
    writes.flatMap SystemWrite.carried = bytes := by
  induction h with
  | done => rfl
  | accepted _ _ ih => rw [List.flatMap_cons, ih, SystemWrite.carried, List.take_append_drop]
  | failed _ => rw [List.flatMap_singleton, SystemWrite.carried]

/-- The error is that of a failed write. -/
theorem error_iff (h : HandedOver answers bytes writes outcome) (error : ε) :
    outcome = .error error ↔ ∃ write ∈ writes, write.reply = .error error := by
  induction h with
  | done => simp
  | accepted _ _ ih => simp [ih]
  | failed _ => simp

theorem succeeded (hanswers : ∀ n error, answers n ≠ .failure error)
    (h : HandedOver answers bytes writes outcome) : ∀ write ∈ writes, write.succeeded = true := by
  induction h with
  | done => simp
  | accepted _ _ ih => exact List.forall_mem_cons.mpr ⟨rfl, ih⟩
  | @failed _ _ n error hreply =>
      unfold WriteAnswer.reply at hreply
      cases hanswer : answers n with
      | everything => simp [hanswer] at hreply
      | upTo count => simp [hanswer] at hreply
      | failure error => exact absurd hanswer (hanswers n error)

/-- A system that never accepts a part is asked at most once, and offered everything. -/
theorem whole (hanswers : ∀ n count, answers n ≠ .upTo count)
    (h : HandedOver answers bytes writes outcome) :
    writes.length ≤ 1 ∧ ∀ write ∈ writes, write.offered = bytes := by
  cases h with
  | done => simp
  | failed _ => simp
  | @accepted _ h n accepted writes _ hreply hrest =>
      have hall : bytes.drop accepted.val = [] := by
        unfold WriteAnswer.reply at hreply
        cases hanswer : answers n with
        | everything =>
            simp only [hanswer, Except.ok.injEq] at hreply
            rw [← hreply, Accepted.everything, List.drop_length]
        | upTo count => exact absurd hanswer (hanswers n count)
        | failure error => simp [hanswer] at hreply
      rw [hall] at hrest
      cases hrest with
      | done => simp
      | @accepted _ h => exact absurd rfl h
      | @failed _ h => exact absurd rfl h

end HandedOver

/-- The loop of a writer hands its bytes over. -/
theorem LoggedFile.exists_offer_all (answers : Nat → WriteAnswer ε) (bytes : List UInt8)
    (file : LoggedFile ε) :
    ∃ writes outcome, (offer answers).all bytes file = (outcome, file.extend writes) ∧
      HandedOver answers bytes writes outcome := by
  induction hn : bytes.length using Nat.strongRecOn generalizing bytes file with
  | ind n ih =>
      rw [Offer.all]
      by_cases hbytes : bytes = []
      · subst hbytes
        exact ⟨[], .ok (), by rw [extend_nil]; rfl, .done⟩
      · rw [dif_neg hbytes]
        cases hreply : (answers file.writes.length).reply hbytes with
        | ok accepted =>
            have hoffer : offer answers bytes hbytes file =
                (.ok accepted, file.record (.ok accepted)) := by
              unfold offer
              rw [hreply]
            -- At least one byte is accepted, so what is offered next is shorter.
            have haccepted := accepted.property
            have hlt : (bytes.drop accepted.val).length < n := by
              rw [List.length_drop]
              omega
            obtain ⟨writes, outcome, hall, hover⟩ :=
              ih _ hlt (bytes.drop accepted.val) (file.record (.ok accepted)) rfl
            refine ⟨_, outcome, ?_, .accepted hreply hover⟩
            rw [bind_of_yields hoffer]
            refine hall.trans ?_
            rw [record_ok, extend_extend, List.singleton_append]
        | error error =>
            have hoffer : offer answers bytes hbytes file =
                (.error error, file.record (.error error : Except ε (Accepted bytes))) := by
              unfold offer
              rw [hreply]
            refine ⟨_, .error error, ?_, .failed hreply⟩
            rw [bind_of_yields hoffer, record_error]
            rfl

/-- What can be asked of a writer. -/
inductive WriterCall where
  | write (chunk : List UInt8)
  | flush
  deriving DecidableEq, Repr

namespace WriterCall

/-- The bytes that a call writes. -/
def chunk : WriterCall → List UInt8
  | .write chunk => chunk
  | .flush => []

end WriterCall

namespace BlockWriter

variable {n : Type → Type} [Monad n]

def perform (offer : Offer ε n) (call : WriterCall) (writer : BlockWriter) :
    n (Except ε Unit × BlockWriter) :=
  match call with
  | .write chunk => writer.write offer chunk
  | .flush => writer.flush offer

/-- Makes calls one after another, also behind those that fail. -/
def performAll (offer : Offer ε n) : List WriterCall → BlockWriter → n BlockWriter
  | [], writer => pure writer
  | call :: rest, writer => do
    let (_, writer) ← writer.perform offer call
    writer.performAll offer rest

/-- The bytes that system writes have carried and those that are pending are all bytes. -/
structure Accounts (answers : Nat → WriteAnswer ε) (total : List UInt8) (writer : BlockWriter)
    (file : LoggedFile ε) : Prop where
  counted : writer.pendingBytes = writer.batch.length
  split : total = file.writes.flatMap SystemWrite.carried ++ writer.batch
  stored : file.contents =
    (file.writes.filter SystemWrite.succeeded).flatMap SystemWrite.carried
  succeeded : (∀ n error, answers n ≠ .failure error) →
    ∀ write ∈ file.writes, write.succeeded = true

section
variable {answers : Nat → WriteAnswer ε} {total : List UInt8} {writer writer' : BlockWriter}
variable {file : LoggedFile ε} {writes : List (SystemWrite ε)} {outcome : Except ε Unit}

theorem accounts_new (answers : Nat → WriteAnswer ε) (lineBuffered : Bool) (mark : Option Int) :
    Accounts answers [] { lineBuffered, highWaterMark := mark } {} :=
  ⟨rfl, rfl, rfl, by simp⟩

theorem Accounts.add (h : Accounts answers total writer file) (chunk : List UInt8) :
    Accounts answers (total ++ chunk) (writer.add chunk) file where
  counted := by
    rw [batch_add, List.length_append, ← h.counted]
    rfl
  split := by rw [batch_add, ← List.append_assoc, ← h.split]
  stored := h.stored
  succeeded := h.succeeded

/-- Handing everything over leaves nothing pending and accounts for all bytes. -/
theorem Accounts.handOver (h : Accounts answers total writer file) (hidle : writer'.Idle)
    (hover : HandedOver answers writer.batch writes outcome) :
    Accounts answers total writer' (file.extend writes) where
  counted := by rw [hidle.batch, hidle.pendingBytes, List.length_nil]
  split := by
    rw [hidle.batch, List.append_nil, LoggedFile.extend, List.flatMap_append, hover.carried]
    exact h.split
  stored := by
    rw [LoggedFile.extend, List.filter_append, List.flatMap_append, h.stored]
  succeeded hanswers write hwrite := by
    rcases List.mem_append.mp hwrite with hold | hnew
    · exact h.succeeded hanswers write hold
    · exact hover.succeeded hanswers write hnew

/-- A flush hands over what is pending, if that is nothing without a system write. -/
theorem exists_flush (hcounted : writer.pendingBytes = writer.batch.length)
    (answers : Nat → WriteAnswer ε) (file : LoggedFile ε) :
    ∃ outcome writer' writes,
      writer.flush (LoggedFile.offer answers) file = ((outcome, writer'), file.extend writes) ∧
        writer'.Idle ∧ HandedOver answers writer.batch writes outcome := by
  unfold BlockWriter.flush
  by_cases hempty : writer.pendingBytes = 0
  · -- A counter at zero stands for no pending bytes, though there may be empty chunks.
    have hbatch : writer.batch = [] := by
      rw [hcounted] at hempty
      exact List.eq_nil_of_length_eq_zero hempty
    rw [if_pos hempty, hbatch]
    exact ⟨.ok (), writer, [], by rw [LoggedFile.extend_nil]; rfl, ⟨hbatch, hempty⟩, .done⟩
  · obtain ⟨writes, outcome, hall, hover⟩ :=
      LoggedFile.exists_offer_all answers writer.batch file
    rw [if_neg hempty]
    refine ⟨outcome, { writer with pending := #[], pendingBytes := 0 }, writes, ?_,
      ⟨rfl, rfl⟩, hover⟩
    rw [bind_of_yields hall]
    rfl

/-- A call keeps all bytes pending, or it hands all of them over. -/
theorem Accounts.exists_perform (h : Accounts answers total writer file) (call : WriterCall) :
    ∃ outcome writer' writes,
      writer.perform (LoggedFile.offer answers) call file =
          ((outcome, writer'), file.extend writes) ∧
        Accounts answers (total ++ call.chunk) writer' (file.extend writes) ∧
        (outcome = .ok () ∧ writes = [] ∨
          writer'.Idle ∧ HandedOver answers (writer.batch ++ call.chunk) writes outcome) := by
  cases call with
  | flush =>
      obtain ⟨outcome, writer', writes, hflush, hidle, hover⟩ := exists_flush h.counted answers file
      have hafter := h.handOver hidle hover
      simp only [WriterCall.chunk, List.append_nil]
      exact ⟨outcome, writer', writes, hflush, hafter, .inr ⟨hidle, hover⟩⟩
  | write chunk =>
      have hadd := h.add chunk
      simp only [perform, write, WriterCall.chunk]
      by_cases hdue : (writer.add chunk).isDue chunk = true
      · obtain ⟨outcome, writer', writes, hflush, hidle, hover⟩ :=
          exists_flush hadd.counted answers file
        have hafter := hadd.handOver hidle hover
        rw [batch_add] at hover
        rw [if_pos hdue]
        exact ⟨outcome, writer', writes, hflush, hafter, .inr ⟨hidle, hover⟩⟩
      · rw [if_neg hdue]
        refine ⟨.ok (), writer.add chunk, [], ?_, ?_, .inl ⟨rfl, rfl⟩⟩
        · rw [LoggedFile.extend_nil]
          rfl
        · rwa [LoggedFile.extend_nil]

theorem Accounts.exists_performAll (h : Accounts answers total writer file)
    (calls : List WriterCall) :
    ∃ writer' file', writer.performAll (LoggedFile.offer answers) calls file = (writer', file') ∧
      Accounts answers (total ++ calls.flatMap WriterCall.chunk) writer' file' := by
  induction calls generalizing total writer file with
  | nil =>
      rw [List.flatMap_nil, List.append_nil]
      exact ⟨writer, file, rfl, h⟩
  | cons call rest ih =>
      obtain ⟨outcome, writer₁, writes, hcall, hafter, _⟩ := h.exists_perform call
      obtain ⟨writer', file', hrest, hlast⟩ := ih hafter
      rw [List.append_assoc, ← List.flatMap_cons] at hlast
      refine ⟨writer', file', ?_, hlast⟩
      rw [performAll, bind_of_yields hcall]
      exact hrest

end

end BlockWriter

/-- Bytes that are written are carried to the system once and in order, or they are pending.
The file holds what the system writes that succeeded have carried. A call fails if and only
if one of its system writes does, and a call that makes system writes hands everything over,
so that nothing is pending behind it. If the system never accepts a part of what it is
offered, a call makes at most one system write and offers everything to it. -/
theorem writer_accounts_for_bytes {ε : Type} (answers : Nat → WriteAnswer ε) (lineBuffered : Bool)
    (mark : Option Int) (calls : List WriterCall) :
    ∃ writer file,
      BlockWriter.performAll (LoggedFile.offer answers) calls
          { lineBuffered, highWaterMark := mark } {} = (writer, file) ∧
      calls.flatMap WriterCall.chunk =
        file.writes.flatMap SystemWrite.carried ++ writer.batch ∧
      file.contents = (file.writes.filter SystemWrite.succeeded).flatMap SystemWrite.carried ∧
      (∀ call, ∃ outcome writer' file' writes,
        writer.perform (LoggedFile.offer answers) call file = ((outcome, writer'), file') ∧
        file'.writes = file.writes ++ writes ∧
        (∀ error, outcome = .error error ↔ ∃ write ∈ writes, write.reply = .error error) ∧
        (writes = [] ∨
          writes.flatMap SystemWrite.carried = writer.batch ++ call.chunk ∧
            writer'.batch = []) ∧
        ((∀ n count, answers n ≠ .upTo count) →
          writes.length ≤ 1 ∧ ∀ write ∈ writes, write.offered = writer.batch ++ call.chunk)) ∧
      ((∀ n error, answers n ≠ .failure error) →
        file.contents ++ writer.batch = calls.flatMap WriterCall.chunk) := by
  obtain ⟨writer, file, hrun, h⟩ :=
    (BlockWriter.accounts_new answers lineBuffered mark).exists_performAll calls
  rw [List.nil_append] at h
  refine ⟨writer, file, hrun, h.split, h.stored, ?_, ?_⟩
  · intro call
    obtain ⟨outcome, writer', writes, hcall, _, hkept | ⟨hidle, hover⟩⟩ := h.exists_perform call
    · obtain ⟨rfl, rfl⟩ := hkept
      exact ⟨.ok (), writer', _, [], hcall, rfl, by simp, by simp, by simp⟩
    · exact ⟨outcome, writer', _, writes, hcall, rfl, hover.error_iff,
        .inr ⟨hover.carried, hidle.batch⟩, hover.whole⟩
  · intro hanswers
    have hall : file.writes.filter SystemWrite.succeeded = file.writes :=
      List.filter_eq_self.mpr (h.succeeded hanswers)
    rw [h.stored, hall, ← h.split]

/-- Lines on a file that accepts everything: one chunk fills a batch, another one ends a line,
and the last one is pending until a flush. -/
theorem writer_accounts_for_lines :
    (∀ n count, (fun _ => .everything : Nat → WriteAnswer Unit) n ≠ .upTo count) ∧
      (∀ n error, (fun _ => .everything : Nat → WriteAnswer Unit) n ≠ .failure error) ∧
      ∃ writer file,
        BlockWriter.performAll (LoggedFile.offer (fun _ => .everything : Nat → WriteAnswer Unit))
          [.write [1, 2], .write [3, 4, 5], .write [6, 10, 7], .write [], .write [8]]
          { lineBuffered := true, highWaterMark := some 4 } {} = (writer, file) ∧
        file.contents ++ writer.batch = [1, 2, 3, 4, 5, 6, 10, 7, 8] ∧
        ∃ outcome writer' file' writes,
          writer.perform (LoggedFile.offer (fun _ => .everything : Nat → WriteAnswer Unit)) .flush
            file = ((outcome, writer'), file') ∧
          file'.writes = file.writes ++ writes ∧ writes.length ≤ 1 ∧
          ∀ write ∈ writes, write.offered = writer.batch := by
  have hwhole : ∀ n count, (fun _ => .everything : Nat → WriteAnswer Unit) n ≠ .upTo count := by
    simp
  have hwilling : ∀ n error,
      (fun _ => .everything : Nat → WriteAnswer Unit) n ≠ .failure error := by
    simp
  obtain ⟨writer, file, hrun, _, _, hcall, hall⟩ :=
    writer_accounts_for_bytes (fun _ => .everything : Nat → WriteAnswer Unit) true (some 4)
      [.write [1, 2], .write [3, 4, 5], .write [6, 10, 7], .write [], .write [8]]
  obtain ⟨outcome, writer', file', writes, hflush, hwrites, _, _, hone⟩ := hcall .flush
  obtain ⟨hlength, hoffered⟩ := hone hwhole
  rw [WriterCall.chunk, List.append_nil] at hoffered
  exact ⟨hwhole, hwilling, writer, file, hrun, hall hwilling, outcome, writer', file', writes,
    hflush, hwrites, hlength, hoffered⟩

/-- If the second of three system writes fails, its bytes are missing and no others. -/
example : (BlockWriter.performAll
    (LoggedFile.offer fun n => if n = 1 then WriteAnswer.failure () else .everything)
    [.write [1, 2], .write [3, 10], .write [4, 10], .write [5], .flush]
    { lineBuffered := true, highWaterMark := some 4 } {}).2.contents = [1, 2, 3, 10, 5] := by
  decide +kernel

end Brainfuck
