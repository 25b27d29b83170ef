import Brainfuck.Console
import Brainfuck.Stream.Buffer

/-!
# Descriptors over a system that serves

What the block reader and the block writer make of a system whose calls succeed. The
system is any state; a relation says which bytes are still to be read from it and which
have been written to it. A read returns some of the bytes that are left, at least one
unless none are, and a write appends what it accepts, at least one byte.

Through a reader the bytes come out one by one as they stand in the input. Through a
writer nothing is lost, repeated or put out of order: what has reached the system and what
is pending together are what was written, and after a flush nothing is pending.
-/
namespace Brainfuck

variable {ε τ : Type}

theorem bind_of_yields {α β : Type} {x : StateM τ α} {f : α → StateM τ β} {s s' : τ} {a : α}
    (h : x s = (a, s')) : (x >>= f) s = f a s' := by
  change f (x s).1 (x s).2 = f a s'
  rw [h]

/-- Every offer succeeds and appends the bytes that it accepts. -/
def Offer.Appends (offer : Offer ε (StateM τ)) (At : τ → List UInt8 → Prop) : Prop :=
  ∀ (offered : List UInt8) (h : offered ≠ []) (s : τ) (transcript : List UInt8), At s transcript →
    ∃ (accepted : Accepted offered) (s' : τ), offer offered h s = (.ok accepted, s') ∧
      At s' (transcript ++ offered.take accepted.val)

/-- Offering the rest again until nothing is left appends everything. -/
theorem Offer.Appends.all {offer : Offer ε (StateM τ)} {At : τ → List UInt8 → Prop}
    (h : offer.Appends At) (bytes : List UInt8) {s : τ} {transcript : List UInt8}
    (hs : At s transcript) :
    ∃ s', offer.all bytes s = (.ok (), s') ∧ At s' (transcript ++ bytes) := by
  induction hn : bytes.length using Nat.strongRecOn generalizing bytes s transcript with
  | ind n ih =>
      rw [Offer.all]
      by_cases hbytes : bytes = []
      · subst hbytes
        refine ⟨s, rfl, ?_⟩
        rwa [List.append_nil]
      · obtain ⟨accepted, s₁, hoffer, hs₁⟩ := h bytes hbytes s transcript hs
        have haccepted := accepted.property
        have hlt : (bytes.drop accepted.val).length < n := by
          rw [List.length_drop]
          omega
        obtain ⟨s₂, hall, hs₂⟩ := ih _ hlt (bytes.drop accepted.val) hs₁ rfl
        rw [List.append_assoc, List.take_append_drop] at hs₂
        refine ⟨s₂, ?_, hs₂⟩
        rw [dif_neg hbytes, bind_of_yields hoffer]
        exact hall

namespace BlockWriter

/-- Nothing is pending. -/
structure Idle (writer : BlockWriter) : Prop where
  batch : writer.batch = []
  pendingBytes : writer.pendingBytes = 0

/-- What has reached the system and what is pending are together the given bytes. -/
structure Holds (writer : BlockWriter) (At : τ → List UInt8 → Prop) (s : τ)
    (total : List UInt8) : Prop where
  counted : writer.pendingBytes = writer.batch.length
  written : ∃ transcript, At s transcript ∧ transcript ++ writer.batch = total

variable {offer : Offer ε (StateM τ)} {At : τ → List UInt8 → Prop} {writer : BlockWriter}
variable {s : τ} {total : List UInt8}

theorem Idle.holds (h : writer.Idle) (hs : At s total) : writer.Holds At s total where
  counted := by rw [h.pendingBytes, h.batch, List.length_nil]
  written := ⟨total, hs, by rw [h.batch, List.append_nil]⟩

theorem batch_add (bytes : List UInt8) (writer : BlockWriter) :
    (writer.add bytes).batch = writer.batch ++ bytes := by
  simp [batch, add]

theorem Holds.add (h : writer.Holds At s total) (bytes : List UInt8) :
    (writer.add bytes).Holds At s (total ++ bytes) := by
  obtain ⟨transcript, hs, htotal⟩ := h.written
  refine ⟨?_, transcript, hs, ?_⟩
  · rw [batch_add, List.length_append, ← h.counted]
    rfl
  · rw [batch_add, ← List.append_assoc, htotal]

theorem Holds.flush (hoffer : offer.Appends At) (h : writer.Holds At s total) :
    ∃ writer' s', writer.flush offer s = ((.ok (), writer'), s') ∧ writer'.Idle ∧
      At s' total := by
  obtain ⟨transcript, hs, htotal⟩ := h.written
  unfold BlockWriter.flush
  by_cases hempty : writer.pendingBytes = 0
  · rw [if_pos hempty]
    have hbatch : writer.batch = [] := by
      rw [h.counted] at hempty
      exact List.eq_nil_of_length_eq_zero hempty
    rw [hbatch, List.append_nil] at htotal
    exact ⟨writer, s, rfl, ⟨hbatch, hempty⟩, htotal ▸ hs⟩
  · rw [if_neg hempty]
    obtain ⟨s₁, hall, hs₁⟩ := hoffer.all writer.batch hs
    rw [htotal] at hs₁
    refine ⟨{ writer with pending := #[], pendingBytes := 0 }, s₁, ?_, ⟨rfl, rfl⟩, hs₁⟩
    rw [bind_of_yields hall]
    rfl

theorem Holds.write (hoffer : offer.Appends At) (h : writer.Holds At s total)
    (bytes : List UInt8) :
    ∃ writer' s', writer.write offer bytes s = ((.ok (), writer'), s') ∧
      writer'.Holds At s' (total ++ bytes) := by
  unfold BlockWriter.write
  by_cases hdue : (writer.add bytes).isDue bytes = true
  · obtain ⟨writer', s', hflush, hidle, hs'⟩ := (h.add bytes).flush hoffer
    refine ⟨writer', s', ?_, hidle.holds hs'⟩
    rw [if_pos hdue]
    exact hflush
  · refine ⟨writer.add bytes, s, ?_, h.add bytes⟩
    rw [if_neg hdue]
    rfl

end BlockWriter

/-- Every fetch succeeds and takes the next bytes, none of them only at the end. -/
def Fetches (fetch : StateM τ (Except ε (List UInt8))) (At : τ → List UInt8 → Prop) : Prop :=
  ∀ (s : τ) (rest : List UInt8), At s rest →
    ∃ (block rest' : List UInt8) (s' : τ), fetch s = (.ok block, s') ∧ rest = block ++ rest' ∧
      (block = [] → rest = []) ∧ At s' rest'

/-- A reader in front of the given rest of the input has the given bytes to hand out. -/
structure BlockReader.Leads (reader : BlockReader ε) (rest unread : List UInt8) : Prop where
  unread : unread = reader.block ++ rest
  exhausted : reader.exhausted = true → rest = []

/-- A reader hands out what a buffer that holds the input would. -/
theorem BlockReader.Leads.read {fetch : StateM τ (Except ε (List UInt8))}
    {At : τ → List UInt8 → Prop} (hfetch : Fetches fetch At) {reader : BlockReader ε} {s : τ}
    {rest : List UInt8} {input : InputBuffer} (h : reader.Leads rest input.unread)
    (hs : At s rest) :
    ∃ reader' rest' s', reader.read fetch s = ((input.read.1, reader'), s') ∧
      reader'.Leads rest' input.read.2.unread ∧ At s' rest' := by
  obtain ⟨unread⟩ := input
  obtain ⟨block, exhausted, lastError⟩ := reader
  obtain ⟨hunread, hexhausted⟩ := h
  unfold BlockReader.read
  cases block with
  | cons byte block =>
      subst hunread
      exact ⟨⟨block, exhausted, lastError⟩, rest, s, rfl, ⟨rfl, hexhausted⟩, hs⟩
  | nil =>
      obtain rfl : unread = rest := hunread
      cases exhausted with
      | true =>
          obtain rfl := hexhausted rfl
          exact ⟨⟨[], true, lastError⟩, [], s, rfl, ⟨rfl, fun _ => rfl⟩, hs⟩
      | false =>
          obtain ⟨block, rest', s', hblock, rfl, hend, hs'⟩ := hfetch s unread hs
          cases block with
          | nil =>
              obtain rfl : rest' = [] := hend rfl
              exact ⟨⟨[], true, lastError⟩, [], s', bind_of_yields hblock, ⟨rfl, fun _ => rfl⟩, hs'⟩
          | cons byte block =>
              exact ⟨⟨block, false, lastError⟩, rest', s', bind_of_yields hblock, ⟨rfl, nofun⟩, hs'⟩

/-- A system whose calls succeed. `At s unread transcript` says that in the state `s` the
bytes `unread` are still to be read and the bytes `transcript` have been written, be it as
output or as diagnostics. -/
structure ConsoleSystem.Serves (system : ConsoleSystem ε (StateM τ))
    (At : τ → List UInt8 → List UInt8 → Prop) : Prop where
  fetch : ∀ transcript, Fetches system.fetch fun s unread => At s unread transcript
  output : ∀ unread, system.output.Appends fun s transcript => At s unread transcript
  errors : ∀ unread, system.errors.Appends fun s transcript => At s unread transcript

/-- A read returns what lies behind the offset, up to a block, and moves the offset on. -/
theorem OpenFile.fetch_eq (contents : Array UInt8) (offset : Nat) :
    fetch ⟨contents, offset, .reading⟩ =
      (.ok ((contents.toList.drop offset).take BlockReader.blockSize),
        ⟨contents, offset + ((contents.toList.drop offset).take BlockReader.blockSize).length,
          .reading⟩) := by
  have hblock : (contents.extract offset (offset + BlockReader.blockSize)).toList =
      (contents.toList.drop offset).take BlockReader.blockSize := by
    rw [Array.toList_extract, List.extract_eq_take_drop, Nat.add_sub_cancel_left]
  rw [← hblock, Array.length_toList]
  rfl

/-- The files of a process in memory, with their contents. -/
structure Terminal.Shows (terminal : Terminal) (unread transcript : List UInt8) : Prop where
  reading : terminal.input.access = .reading
  unread : terminal.input.contents.toList.drop terminal.input.offset = unread
  appending : terminal.transcript.access = .appending
  transcript : terminal.transcript.contents.toList = transcript

theorem Terminal.shows_ofInput (input : List UInt8) : (ofInput input).Shows input [] :=
  ⟨rfl, rfl, rfl, rfl⟩

theorem Terminal.append_appends (unread : List UInt8) :
    append.Appends fun terminal transcript => terminal.Shows unread transcript := by
  intro offered h terminal transcript hshows
  obtain ⟨input, ⟨contents, offset, access⟩⟩ := terminal
  obtain ⟨hreading, hunread, happending, htranscript⟩ := hshows
  obtain rfl : access = .appending := happending
  refine ⟨Accepted.everything h, _, rfl, hreading, hunread, rfl, ?_⟩
  rw [show (Accepted.everything h).val = offered.length from rfl, List.take_length,
    ← htranscript]
  exact Array.toList_appendList

theorem Terminal.serves : system.Serves Shows where
  fetch transcript := by
    intro terminal unread hshows
    obtain ⟨⟨contents, offset, access⟩, file⟩ := terminal
    obtain ⟨hreading, hunread, happending, htranscript⟩ := hshows
    obtain rfl : access = .reading := hreading
    obtain rfl : contents.toList.drop offset = unread := hunread
    have hfetch := congrArg (fun r => (r.1, Terminal.mk r.2 file))
      (OpenFile.fetch_eq contents offset)
    have hsplit := List.prefix_iff_eq_append.mp
      (List.take_prefix BlockReader.blockSize (contents.toList.drop offset))
    refine ⟨(contents.toList.drop offset).take BlockReader.blockSize, _, _,
      hfetch, ?_, ?_, rfl, rfl, happending, htranscript⟩
    · rw [← List.drop_drop]
      exact hsplit.symm
    · intro hempty
      exact (List.take_eq_nil_iff.mp hempty).resolve_left (by decide)
  output := append_appends
  errors := append_appends

end Brainfuck
