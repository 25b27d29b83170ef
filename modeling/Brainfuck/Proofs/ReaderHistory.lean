import Brainfuck.Proofs.Descriptors

/-!
# What a reader makes of a file

A reader is followed through any reads of a file that may grow between them. System reads are
answered as one likes: with some of the bytes behind the offset, at least one unless there are
none and at most a block, or with a failure. Every system read is remembered with its answer.

The bytes that have been returned and the unread part of the last block are together what the
system reads have returned, and that is the start of the file. So nothing is skipped or
repeated, and a file that has grown is read on. The end is final: the read that meets it is
the last one to ask the system, and it has returned everything the system has handed out.
-/
namespace Brainfuck

variable {ε : Type}

/-- How the system answers a read. -/
inductive ReadAnswer (ε : Type) where
  /-- At most so many of the bytes that are left, and at least one if any are. -/
  | upTo (count : Nat)
  | failure (error : ε)

namespace ReadAnswer

/-- The reply to a read in front of the given bytes. -/
def reply (unread : List UInt8) : ReadAnswer ε → Except ε (List UInt8)
  | .upTo count => .ok (unread.take (max 1 (min count BlockReader.blockSize)))
  | .failure error => .error error

variable {answer : ReadAnswer ε} {unread block : List UInt8}

theorem reply_isPrefix (h : answer.reply unread = .ok block) : block <+: unread := by
  cases answer with
  | upTo count => exact Except.ok.inj h ▸ List.take_prefix _ unread
  | failure error => cases h

/-- An empty block is the end of the file. -/
theorem unread_of_reply_nil (h : answer.reply unread = .ok []) : unread = [] := by
  cases answer with
  | upTo count =>
      rcases List.take_eq_nil_iff.mp (Except.ok.inj h) with hnone | hend
      · omega
      · exact hend
  | failure error => cases h

end ReadAnswer

/-- The block that a system read has returned; a failed read has returned none. -/
def blockOf : Except ε (List UInt8) → List UInt8
  | .ok block => block
  | .error _ => []

/-- A file that may grow, the offset of the next system read, and the replies to those that
have been made. -/
structure SharedFile (ε : Type) where
  contents : List UInt8
  offset : Nat := 0
  reads : List (Except ε (List UInt8)) := []

namespace SharedFile

def unread (file : SharedFile ε) : List UInt8 := file.contents.drop file.offset

/-- What the system reads have returned. -/
def fetched (file : SharedFile ε) : List UInt8 := file.reads.flatMap blockOf

/-- The file after a system read. -/
def record (reply : Except ε (List UInt8)) (file : SharedFile ε) : SharedFile ε :=
  { file with offset := file.offset + (blockOf reply).length, reads := file.reads ++ [reply] }

/-- Reads from a file that gives the answers one after another. -/
def fetch (answers : Nat → ReadAnswer ε) : StateM (SharedFile ε) (Except ε (List UInt8)) :=
  fun file =>
    let reply := (answers file.reads.length).reply file.unread
    (reply, file.record reply)

def append (bytes : List UInt8) (file : SharedFile ε) : SharedFile ε :=
  { file with contents := file.contents ++ bytes }

@[simp] theorem fetched_record (reply : Except ε (List UInt8)) (file : SharedFile ε) :
    (file.record reply).fetched = file.fetched ++ blockOf reply := by
  simp [fetched, record]

/-- The system reads have returned the start of the file, up to the offset. -/
structure InOrder (file : SharedFile ε) : Prop where
  offset : file.offset = file.fetched.length
  fetched : file.fetched <+: file.contents

theorem InOrder.contents {file : SharedFile ε} (h : file.InOrder) :
    file.contents = file.fetched ++ file.unread := by
  rw [unread, h.offset]
  exact List.prefix_iff_eq_append.mp h.fetched |>.symm

theorem InOrder.append {file : SharedFile ε} (h : file.InOrder) (bytes : List UInt8) :
    (file.append bytes).InOrder :=
  ⟨h.offset, h.fetched.trans (List.prefix_append _ _)⟩

theorem InOrder.record {file : SharedFile ε} (h : file.InOrder) {answer : ReadAnswer ε}
    {reply : Except ε (List UInt8)} (hreply : answer.reply file.unread = reply) :
    (file.record reply).InOrder := by
  have hblock : blockOf reply <+: file.unread := by
    cases reply with
    | ok block => exact ReadAnswer.reply_isPrefix hreply
    | error error => exact List.nil_prefix
  constructor
  · rw [fetched_record, List.length_append, ← h.offset]
    rfl
  · rw [fetched_record]
    change _ <+: file.contents
    rw [h.contents]
    exact (List.prefix_append_right_inj _).mpr hblock

end SharedFile

/-- What can happen to a file that is being read. -/
inductive ReaderCall where
  /-- The reader is asked for a byte. -/
  | read
  /-- Bytes are appended behind the reader's back. -/
  | append (bytes : List UInt8)
  deriving DecidableEq, Repr

/-- A reader and its file, with what the reads have returned so far. -/
structure Reading (ε : Type) where
  returned : List (Option UInt8)
  reader : BlockReader ε
  file : SharedFile ε

namespace Reading

/-- A new reader in front of a file. -/
def ofFile (contents : List UInt8) : Reading ε := ⟨[], {}, { contents }⟩

/-- The bytes that the reads have returned. -/
def bytes (reading : Reading ε) : List UInt8 := reading.returned.filterMap id

def perform (answers : Nat → ReadAnswer ε) (reading : Reading ε) : ReaderCall → Reading ε
  | .read =>
      let ((answer, reader), file) := reading.reader.read (SharedFile.fetch answers) reading.file
      ⟨reading.returned ++ [answer], reader, file⟩
  | .append bytes => { reading with file := reading.file.append bytes }

def performAll (answers : Nat → ReadAnswer ε) (reading : Reading ε) (calls : List ReaderCall) :
    Reading ε :=
  calls.foldl (perform answers) reading

/-- All that a read can do. -/
inductive Reads (answers : Nat → ReadAnswer ε) : Reading ε → Reading ε → Prop
  /-- The next byte of the block is returned. -/
  | handOut {returned : List (Option UInt8)} {byte : UInt8} {block : List UInt8}
      {exhausted : Bool} {lastError : Option ε} {file : SharedFile ε} :
      Reads answers ⟨returned, ⟨byte :: block, exhausted, lastError⟩, file⟩
        ⟨returned ++ [some byte], ⟨block, exhausted, lastError⟩, file⟩
  /-- The end was met before, and nothing is asked of the system. -/
  | endAgain {returned : List (Option UInt8)} {lastError : Option ε} {file : SharedFile ε} :
      Reads answers ⟨returned, ⟨[], true, lastError⟩, file⟩
        ⟨returned ++ [none], ⟨[], true, lastError⟩, file⟩
  /-- The system returns a block, and its first byte is returned. -/
  | refill {returned : List (Option UInt8)} {lastError : Option ε} {file : SharedFile ε}
      {byte : UInt8} {block : List UInt8} :
      (answers file.reads.length).reply file.unread = .ok (byte :: block) →
      Reads answers ⟨returned, ⟨[], false, lastError⟩, file⟩
        ⟨returned ++ [some byte], ⟨block, false, lastError⟩, file.record (.ok (byte :: block))⟩
  /-- The system has no more bytes. -/
  | finish {returned : List (Option UInt8)} {lastError : Option ε} {file : SharedFile ε} :
      (answers file.reads.length).reply file.unread = .ok [] →
      Reads answers ⟨returned, ⟨[], false, lastError⟩, file⟩
        ⟨returned ++ [none], ⟨[], true, lastError⟩, file.record (.ok [])⟩
  /-- The system fails. -/
  | fail {returned : List (Option UInt8)} {lastError : Option ε} {file : SharedFile ε}
      {error : ε} : (answers file.reads.length).reply file.unread = .error error →
      Reads answers ⟨returned, ⟨[], false, lastError⟩, file⟩
        ⟨returned ++ [none], ⟨[], true, some error⟩, file.record (.error error)⟩

theorem reads_perform (answers : Nat → ReadAnswer ε) (reading : Reading ε) :
    Reads answers reading (reading.perform answers .read) := by
  obtain ⟨returned, ⟨block, exhausted, lastError⟩, file⟩ := reading
  cases block with
  | cons byte block => exact .handOut
  | nil =>
      cases exhausted with
      | true => exact .endAgain
      | false =>
          have hfetch : SharedFile.fetch answers file =
            ((answers file.reads.length).reply file.unread,
              file.record ((answers file.reads.length).reply file.unread)) := rfl
          unfold perform BlockReader.read
          dsimp only
          rw [if_neg Bool.false_ne_true, bind_of_yields hfetch]
          cases hreply : (answers file.reads.length).reply file.unread with
          | error error => exact .fail hreply
          | ok block =>
              cases block with
              | nil => exact .finish hreply
              | cons byte block => exact .refill hreply

/-- What holds between a reader, its file and what has been returned. -/
structure Delivers (reading : Reading ε) : Prop where
  inOrder : reading.file.InOrder
  delivered : reading.bytes ++ reading.reader.block = reading.file.fetched
  ended : none ∈ reading.returned ↔ reading.reader.exhausted = true
  emptied : reading.reader.exhausted = true → reading.reader.block = []
  failed : ∀ error, reading.reader.lastError = some error ↔ .error error ∈ reading.file.reads
  unfailed : reading.reader.exhausted = false → reading.reader.lastError = none

theorem delivers_ofFile (contents : List UInt8) : (ofFile contents : Reading ε).Delivers where
  inOrder := ⟨rfl, List.nil_prefix⟩
  delivered := rfl
  ended := by simp [ofFile]
  emptied _ := rfl
  failed := by simp [ofFile]
  unfailed _ := rfl

section
variable {answers : Nat → ReadAnswer ε} {reading next : Reading ε}

theorem Delivers.read (h : reading.Delivers) (hread : Reads answers reading next) :
    next.Delivers := by
  obtain ⟨hinOrder, hdelivered, hended, hemptied, hfailed, hunfailed⟩ := h
  cases hread with
  | handOut =>
      refine ⟨hinOrder, ?_, ?_, ?_, hfailed, hunfailed⟩
      · simpa [bytes] using hdelivered
      · simpa using hended
      · intro hexhausted
        cases hemptied hexhausted
  | endAgain =>
      exact ⟨hinOrder, by simpa [bytes] using hdelivered, by simp, hemptied, hfailed, nofun⟩
  | @refill returned lastError file byte block hreply =>
      refine ⟨hinOrder.record hreply, ?_, ?_, nofun, ?_, hunfailed⟩
      · rw [SharedFile.fetched_record, ← hdelivered]
        simp [bytes, blockOf]
      · simpa using hended
      · simpa [SharedFile.record] using hfailed
  | finish hreply =>
      refine ⟨hinOrder.record hreply, ?_, by simp, fun _ => rfl, ?_, nofun⟩
      · rw [SharedFile.fetched_record, ← hdelivered]
        simp [bytes, blockOf]
      · simpa [SharedFile.record] using hfailed
  | @fail returned lastError file error hreply =>
      refine ⟨hinOrder.record hreply, ?_, by simp, fun _ => rfl, ?_, nofun⟩
      · rw [SharedFile.fetched_record, ← hdelivered]
        simp [bytes, blockOf]
      · -- No system read has failed before: the reader would have stopped there.
        obtain rfl : lastError = none := hunfailed rfl
        intro other
        have hother : .error other ∉ file.reads := fun hmem => nomatch (hfailed other).mpr hmem
        simp [SharedFile.record, hother, eq_comm]

theorem Delivers.perform (h : reading.Delivers) (call : ReaderCall) :
    (reading.perform answers call).Delivers := by
  cases call with
  | read => exact h.read (reads_perform answers reading)
  | append bytes =>
      exact ⟨h.inOrder.append bytes, h.delivered, h.ended, h.emptied, h.failed, h.unfailed⟩

theorem Delivers.performAll (h : reading.Delivers) (calls : List ReaderCall) :
    (reading.performAll answers calls).Delivers := by
  induction calls generalizing reading with
  | nil => exact h
  | cons call rest ih => exact ih (h.perform call)

theorem Delivers.bytes_isPrefix (h : reading.Delivers) :
    reading.bytes <+: reading.file.contents := by
  have hfetched : reading.bytes <+: reading.file.fetched := by
    rw [← h.delivered]
    exact List.prefix_append _ _
  exact hfetched.trans h.inOrder.fetched

/-- The read that meets the end. -/
theorem Delivers.first_end (h : reading.Delivers) (hread : Reads answers reading next)
    (hopen : none ∉ reading.returned) (hend : next.returned = reading.returned ++ [none]) :
    next.file.reads = reading.file.reads ++ [.ok []] ∧ reading.bytes = reading.file.contents ∨
      ∃ error, next.file.reads = reading.file.reads ++ [.error error] ∧
        next.reader.lastError = some error ∧ reading.bytes = reading.file.fetched := by
  have hdelivered := h.delivered
  cases hread with
  | handOut => simp at hend
  | endAgain => exact (hopen (h.ended.mpr rfl)).elim
  | refill hreply => simp at hend
  | finish hreply =>
      refine .inl ⟨rfl, ?_⟩
      rw [h.inOrder.contents, ReadAnswer.unread_of_reply_nil hreply]
      simpa using hdelivered
  | fail hreply => exact .inr ⟨_, rfl, rfl, by simpa using hdelivered⟩

/-- Behind the end the system is not asked again. -/
theorem Delivers.later_end (h : reading.Delivers) (hread : Reads answers reading next)
    (hended : none ∈ reading.returned) :
    next.returned = reading.returned ++ [none] ∧ next.file = reading.file := by
  have hexhausted := h.ended.mp hended
  cases hread with
  | handOut => cases h.emptied hexhausted
  | endAgain => exact ⟨rfl, rfl⟩
  | refill hreply => cases hexhausted
  | finish hreply => cases hexhausted
  | fail hreply => cases hexhausted

end

end Reading

/-- The answers to a number of reads from a buffer. -/
def InputBuffer.readAll : Nat → InputBuffer → List (Option UInt8)
  | 0, _ => []
  | n + 1, buffer => buffer.read.1 :: buffer.read.2.readAll n

/-- A system that does not fail takes the next bytes of its file. -/
theorem SharedFile.fetches {answers : Nat → ReadAnswer ε}
    (hanswers : ∀ n error, answers n ≠ .failure error) :
    Fetches (fetch answers) fun file rest => file.unread = rest := by
  rintro file _ rfl
  obtain ⟨block, hreply⟩ : ∃ block, (answers file.reads.length).reply file.unread = .ok block := by
    cases hanswer : answers file.reads.length with
    | upTo count => exact ⟨_, rfl⟩
    | failure error => exact (hanswers _ _ hanswer).elim
  have hfetch : fetch answers file = (.ok block, file.record (.ok block)) := by
    unfold fetch
    rw [hreply]
  refine ⟨block, file.unread.drop block.length, _, hfetch, ?_, ?_, ?_⟩
  · exact List.prefix_iff_eq_append.mp (ReadAnswer.reply_isPrefix hreply) |>.symm
  · rintro rfl
    exact ReadAnswer.unread_of_reply_nil hreply
  · exact List.drop_drop.symm

/-- A reader hands out what a buffer with the same bytes does. -/
theorem Reading.returned_of_leads {answers : Nat → ReadAnswer ε}
    (hanswers : ∀ n error, answers n ≠ .failure error) {reading : Reading ε}
    {buffer : InputBuffer} (h : reading.reader.Leads reading.file.unread buffer.unread)
    {calls : List ReaderCall} (hcalls : ∀ call ∈ calls, call = .read) :
    (reading.performAll answers calls).returned =
      reading.returned ++ buffer.readAll calls.length := by
  induction calls generalizing reading buffer with
  | nil => exact (List.append_nil _).symm
  | cons call rest ih =>
      obtain ⟨rfl, hrest⟩ := List.forall_mem_cons.mp hcalls
      obtain ⟨reader, _, file, hread, hleads, rfl⟩ := h.read (SharedFile.fetches hanswers) rfl
      have hperform : reading.perform answers .read =
          ⟨reading.returned ++ [buffer.read.1], reader, file⟩ := by
        unfold perform
        rw [hread]
      unfold performAll at ih ⊢
      rw [List.foldl_cons, hperform, ih hleads hrest, List.append_assoc]
      rfl

/-- A reader delivers its file. What its reads have returned so far is the start of the file as
it is now. The first read to return nothing has met the end of the file, with everything in it
returned, or a system read that failed, whose error is kept, with everything returned that
earlier system reads have handed out. Later reads return nothing and ask for nothing, even if
the file has grown. An error is kept if and only if a system read has failed with it. If none
fails and the file does not grow, the reads return what reads from a buffer do. -/
theorem reader_delivers_file {ε : Type} (answers : Nat → ReadAnswer ε) (contents : List UInt8)
    (calls : List ReaderCall) :
    let reading := (Reading.ofFile contents).performAll answers calls
    let next := reading.perform answers .read
    reading.bytes <+: reading.file.contents ∧
    (none ∉ reading.returned → next.returned = reading.returned ++ [none] →
      next.file.reads = reading.file.reads ++ [.ok []] ∧ reading.bytes = reading.file.contents ∨
      ∃ error, next.file.reads = reading.file.reads ++ [.error error] ∧
        next.reader.lastError = some error ∧ reading.bytes = reading.file.fetched) ∧
    (none ∈ reading.returned →
      next.returned = reading.returned ++ [none] ∧ next.file = reading.file) ∧
    (∀ error, reading.reader.lastError = some error ↔ .error error ∈ reading.file.reads) ∧
    ((∀ n error, answers n ≠ .failure error) → (∀ call ∈ calls, call = .read) →
      reading.returned = InputBuffer.readAll calls.length ⟨contents⟩) := by
  intro reading next
  have hdelivers : reading.Delivers := (Reading.delivers_ofFile contents).performAll calls
  have hread : Reading.Reads answers reading next := Reading.reads_perform answers reading
  refine ⟨hdelivers.bytes_isPrefix, hdelivers.first_end hread, hdelivers.later_end hread,
    hdelivers.failed, ?_⟩
  intro hanswers hcalls
  exact Reading.returned_of_leads hanswers ⟨rfl, fun h => (Bool.false_ne_true h).elim⟩ hcalls

/-- A file grows while its first block is being handed out, and again before a system read
fails and behind that. A file that is left alone is read like a buffer. -/
theorem reader_delivers_until_failure :
    let answers : Nat → ReadAnswer String := fun n => if n = 2 then .failure "EIO" else .upTo 2
    let calls : List ReaderCall := [.read, .append [7], .read, .read, .append [8, 9]]
    let reading := (Reading.ofFile [5, 6]).performAll answers calls
    let next := reading.perform answers .read
    let later := (Reading.ofFile [5, 6]).performAll answers (calls ++ [.read, .append [1]])
    (none ∉ reading.returned ∧ next.returned = reading.returned ++ [none] ∧
      ∃ error, next.reader.lastError = some error ∧ reading.bytes = reading.file.fetched) ∧
    (none ∈ later.returned ∧ (later.perform answers .read).file = later.file) ∧
    ((Reading.ofFile [5, 6, 7] : Reading String).performAll (fun _ => .upTo 2)
      [.read, .read, .read, .read]).returned = InputBuffer.readAll 4 ⟨[5, 6, 7]⟩ := by
  intro answers calls reading next later
  have hopen : none ∉ reading.returned := by decide
  have hend : next.returned = reading.returned ++ [none] := rfl
  have hlater : none ∈ later.returned := by decide
  obtain ⟨_, hfirst, _⟩ := reader_delivers_file answers [5, 6] calls
  obtain ⟨_, _, hover, _⟩ :=
    reader_delivers_file answers [5, 6] (calls ++ [.read, .append [1]])
  obtain ⟨_, _, _, _, hbuffer⟩ := reader_delivers_file (fun _ => .upTo 2 : Nat → ReadAnswer String)
    [5, 6, 7] [.read, .read, .read, .read]
  refine ⟨⟨hopen, hend, ?_⟩, ⟨hlater, (hover hlater).2⟩, hbuffer nofun (by decide)⟩
  rcases hfirst hopen hend with ⟨_, hall⟩ | ⟨error, _, herror, hbytes⟩
  · exact absurd hall (by decide)
  · exact ⟨error, herror, hbytes⟩

end Brainfuck
