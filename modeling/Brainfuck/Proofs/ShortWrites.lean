import Brainfuck.Proofs.WriterHistory

/-!
# Short writes

The system may take a batch in as many parts as it likes. A flush offers it what is left after
each part, so what has been accepted and what is offered next are together always the batch.
Each part has at least one byte; a flush therefore makes at most as many system writes as there
are bytes, and if none of them fails all bytes have been accepted, each of them once.

A write that fails is the last one. What was accepted before it is a front of the batch, and
the rest of the batch is given up.
-/
namespace Brainfuck

variable {ε : Type}

namespace HandedOver

variable {answers : Nat → WriteAnswer ε} {bytes : List UInt8} {writes : List (SystemWrite ε)}
variable {outcome : Except ε Unit}

/-- Every write is offered at least one byte, and the next one fewer than it. -/
theorem length_le (h : HandedOver answers bytes writes outcome) :
    writes.length ≤ bytes.length := by
  induction h with
  | done => exact Nat.le_refl 0
  | @accepted bytes _ _ accepted _ _ _ _ ih =>
      have haccepted := accepted.property
      rw [List.length_drop] at ih
      rw [List.length_cons]
      omega
  | @failed _ hbytes _ _ _ => exact List.length_pos_iff.mpr hbytes

/-- A write comes behind writes that succeeded, it is offered what they have left, and if it
fails it ends the loop with its error. -/
theorem at_write (h : HandedOver answers bytes writes outcome)
    {before after : List (SystemWrite ε)} {write : SystemWrite ε}
    (hwrites : writes = before ++ write :: after) :
    (∀ earlier ∈ before, earlier.succeeded = true) ∧
      before.flatMap SystemWrite.carried ++ write.offered = bytes ∧
      ∀ error, write.reply = .error error → after = [] ∧ outcome = .error error := by
  induction h generalizing before with
  | done => simp at hwrites
  | accepted _ _ ih =>
      cases before with
      | nil =>
          obtain ⟨rfl, rfl⟩ := List.cons.inj hwrites
          exact ⟨by simp, rfl, nofun⟩
      | cons first before =>
          obtain ⟨rfl, hrest⟩ := List.cons.inj hwrites
          obtain ⟨hsucceeded, hoffered, hfailed⟩ := ih hrest
          refine ⟨List.forall_mem_cons.mpr ⟨rfl, hsucceeded⟩, ?_, hfailed⟩
          rw [List.flatMap_cons, List.append_assoc, hoffered, SystemWrite.carried,
            List.take_append_drop]
  | failed _ =>
      cases before with
      | nil =>
          obtain ⟨rfl, rfl⟩ := List.cons.inj hwrites
          exact ⟨by simp, rfl, fun _ hreply => ⟨rfl, congrArg _ (Except.error.inj hreply)⟩⟩
      | cons first before => simp at hwrites

/-- The loop succeeds if all of its writes do. -/
theorem outcome_ok (h : HandedOver answers bytes writes outcome)
    (hwrites : ∀ write ∈ writes, write.succeeded = true) : outcome = .ok () := by
  cases outcome with
  | ok _ => rfl
  | error error =>
      obtain ⟨write, hmem, hreply⟩ := (h.error_iff error).mp rfl
      have hsucceeded := hwrites write hmem
      rw [SystemWrite.succeeded, hreply] at hsucceeded
      cases hsucceeded

end HandedOver

/-- The bytes that the system has accepted. -/
def SystemWrite.accepted (writes : List (SystemWrite ε)) : List UInt8 :=
  (writes.filter SystemWrite.succeeded).flatMap SystemWrite.carried

theorem SystemWrite.accepted_of_succeeded {writes : List (SystemWrite ε)}
    (h : ∀ write ∈ writes, write.succeeded = true) :
    accepted writes = writes.flatMap SystemWrite.carried := by
  rw [accepted, List.filter_eq_self.mpr h]

/-- A writer with chunks that wait to be handed over. -/
def BlockWriter.withPending (chunks : List (List UInt8)) (lineBuffered : Bool)
    (mark : Option Int) : BlockWriter :=
  ⟨chunks.toArray, chunks.flatten.length, lineBuffered, mark⟩

/-- A flush survives short writes. It ends after at most as many system writes as there are
pending bytes, each of them with the bytes that the earlier ones have left, and nothing is
pending then. If no write fails, the system has accepted exactly the pending bytes in their
order. If a write fails, it is the last one, its error is the error of the flush, and what was
accepted before it is the start of the pending bytes. -/
theorem flush_survives_short_writes {ε : Type} (answers : Nat → WriteAnswer ε)
    (chunks : List (List UInt8)) (lineBuffered : Bool) (mark : Option Int)
    (file : LoggedFile ε) :
    ∃ outcome writer writes,
      (BlockWriter.withPending chunks lineBuffered mark).flush (LoggedFile.offer answers) file =
          ((outcome, writer), file.extend writes) ∧
      (file.extend writes).contents = file.contents ++ SystemWrite.accepted writes ∧
      writes.length ≤ chunks.flatten.length ∧
      (∀ before write after, writes = before ++ write :: after →
        SystemWrite.accepted before ++ write.offered = chunks.flatten) ∧
      writer.Idle ∧
      ((∀ n error, answers n ≠ .failure error) → ∀ write ∈ writes, write.succeeded = true) ∧
      ((∀ write ∈ writes, write.succeeded = true) →
        outcome = .ok () ∧ SystemWrite.accepted writes = chunks.flatten) ∧
      ∀ write ∈ writes, ∀ error, write.reply = .error error →
        outcome = .error error ∧ SystemWrite.accepted writes <+: chunks.flatten ∧
          ∃ before, writes = before ++ [write] ∧
            ∀ earlier ∈ before, earlier.succeeded = true := by
  have hcounted : (BlockWriter.withPending chunks lineBuffered mark).pendingBytes =
      (BlockWriter.withPending chunks lineBuffered mark).batch.length := rfl
  obtain ⟨outcome, writer, writes, hflush, hidle, hover⟩ :=
    BlockWriter.exists_flush hcounted answers file
  change HandedOver answers chunks.flatten writes outcome at hover
  refine ⟨outcome, writer, writes, hflush, rfl, hover.length_le, ?_, hidle,
    fun hanswers => hover.succeeded hanswers, ?_, ?_⟩
  · intro before write after hwrites
    obtain ⟨hsucceeded, hoffered, _⟩ := hover.at_write hwrites
    rw [SystemWrite.accepted_of_succeeded hsucceeded, hoffered]
  · intro hsucceeded
    refine ⟨hover.outcome_ok hsucceeded, ?_⟩
    rw [SystemWrite.accepted_of_succeeded hsucceeded, hover.carried]
  · intro write hmem error hreply
    obtain ⟨before, after, hwrites⟩ := List.append_of_mem hmem
    obtain ⟨hsucceeded, hoffered, hfailed⟩ := hover.at_write hwrites
    obtain ⟨rfl, houtcome⟩ := hfailed error hreply
    have hlast : SystemWrite.accepted (before ++ [write]) = before.flatMap SystemWrite.carried := by
      rw [← SystemWrite.accepted_of_succeeded hsucceeded]
      simp [SystemWrite.accepted, SystemWrite.succeeded, hreply]
    refine ⟨houtcome, ?_, before, hwrites, hsucceeded⟩
    rw [hwrites, hlast]
    exact ⟨write.offered, hoffered⟩

/-- Two chunks with an empty one between them, on a system that takes one byte at a time and on
one that takes two bytes and then fails. -/
theorem flush_survives_single_bytes_and_failure :
    let writer := BlockWriter.withPending [[1, 2], [], [3, 4, 5]] false none
    let single : Nat → WriteAnswer Unit := fun _ => .upTo 1
    let failing : Nat → WriteAnswer Unit := fun n => if n = 0 then .upTo 2 else .failure ()
    (∀ n error, single n ≠ .failure error) ∧
      (∃ writer' writes, writer.flush (LoggedFile.offer single) {} =
          ((.ok (), writer'), LoggedFile.extend writes {}) ∧
        (LoggedFile.extend writes {}).contents = [1, 2, 3, 4, 5] ∧ writes.length ≤ 5) ∧
      ∃ writer' writes, writer.flush (LoggedFile.offer failing) {} =
          ((.error (), writer'), LoggedFile.extend writes {}) ∧
        SystemWrite.accepted writes <+: [1, 2, 3, 4, 5] ∧ writer'.Idle := by
  intro writer single failing
  have hsingle : ∀ n error, single n ≠ .failure error := by simp [single]
  refine ⟨hsingle, ?_, ?_⟩
  · obtain ⟨outcome, writer', writes, hflush, hcontents, hlength, _, _, hwilling, hall, _⟩ :=
      flush_survives_short_writes single [[1, 2], [], [3, 4, 5]] false none {}
    obtain ⟨rfl, haccepted⟩ := hall (hwilling hsingle)
    exact ⟨writer', writes, hflush, hcontents.trans haccepted, hlength⟩
  · obtain ⟨outcome, writer', writes, hflush, _, _, _, hidle, _, _, hfailed⟩ :=
      flush_survives_short_writes failing [[1, 2], [], [3, 4, 5]] false none {}
    have hwrites : (writer.flush (LoggedFile.offer failing) {}).2.writes =
        [⟨[1, 2, 3, 4, 5], .ok 2⟩, ⟨[3, 4, 5], .error ()⟩] := by
      with_unfolding_all rfl
    rw [hflush] at hwrites
    obtain rfl : writes = _ := hwrites
    obtain ⟨rfl, haccepted, _⟩ := hfailed ⟨[3, 4, 5], .error ()⟩ (by simp) () rfl
    exact ⟨writer', _, hflush, haccepted, hidle⟩

end Brainfuck
