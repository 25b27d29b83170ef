import Brainfuck.Location
import Brainfuck.Proofs.WriterHistory
import Mathlib.Algebra.Ring.Nat

/-!
# How much a writer holds back

A writer forgets its pending chunks and their count before it asks the system for anything, so
what it holds behind a call depends on the call and not on the system's answers. The bounds on
what is pending are therefore facts about a pure function, and they hold behind a call that
fails as they do behind any other.

Less than the high-water mark is ever pending, or nothing at all, and a writer that is line
buffered holds back no newline. Pending bytes without a newline are behind the last newline
that was written, so every complete line has been handed to the system.
-/
namespace Brainfuck

namespace BlockWriter

variable {ε τ : Type} {writer : BlockWriter}

/-- The writer behind a flush. Chunks without bytes are no reason to ask the system. -/
def emptied (writer : BlockWriter) : BlockWriter :=
  if writer.pendingBytes = 0 then writer else { writer with pending := #[], pendingBytes := 0 }

/-- The writer behind a call. -/
def after (writer : BlockWriter) : WriterCall → BlockWriter
  | .write chunk =>
      if (writer.add chunk).isDue chunk then (writer.add chunk).emptied else writer.add chunk
  | .flush => writer.emptied

theorem flush_leaves (offer : Offer ε (StateM τ)) (writer : BlockWriter) (s : τ) :
    (writer.flush offer s).1.2 = writer.emptied := by
  unfold flush emptied
  split
  · rfl
  · rfl

/-- The system has no say in what a call leaves pending. -/
theorem perform_leaves (offer : Offer ε (StateM τ)) (call : WriterCall) (writer : BlockWriter)
    (s : τ) : (writer.perform offer call s).1.2 = writer.after call := by
  cases call with
  | flush => exact flush_leaves offer writer s
  | write chunk =>
      unfold perform write after
      dsimp only
      split
      · exact flush_leaves offer (writer.add chunk) s
      · rfl

theorem performAll_leaves (offer : Offer ε (StateM τ)) (calls : List WriterCall)
    (writer : BlockWriter) (s : τ) :
    (writer.performAll offer calls s).1 = calls.foldl after writer := by
  induction calls generalizing writer s with
  | nil => rfl
  | cons call rest ih =>
      have hcall := perform_leaves offer call writer s
      rw [performAll, List.foldl_cons, ← hcall, ← ih]
      rfl

/-- The settings of a writer: no call changes them. -/
def settings (writer : BlockWriter) : Bool × Option Int :=
  (writer.lineBuffered, writer.highWaterMark)

theorem settings_emptied (writer : BlockWriter) : writer.emptied.settings = writer.settings := by
  unfold emptied
  split <;> rfl

theorem settings_after (writer : BlockWriter) (call : WriterCall) :
    (writer.after call).settings = writer.settings := by
  cases call with
  | flush => exact settings_emptied writer
  | write chunk =>
      unfold after
      dsimp only
      split
      · exact settings_emptied (writer.add chunk)
      · rfl

/-- The count of the pending bytes is right, and they are within the bounds that the settings
of the writer put on them. -/
structure Restrained (writer : BlockWriter) : Prop where
  counted : writer.pendingBytes = writer.batch.length
  below : writer.batch = [] ∨
    ∀ mark, writer.highWaterMark = some mark → (writer.batch.length : Int) < mark
  noNewline : writer.lineBuffered = true → newline ∉ writer.batch

theorem Idle.restrained (h : writer.Idle) : writer.Restrained where
  counted := by rw [h.pendingBytes, h.batch, List.length_nil]
  below := .inl h.batch
  noNewline _ := by
    rw [h.batch]
    exact List.not_mem_nil

theorem idle_emptied (h : writer.pendingBytes = writer.batch.length) : writer.emptied.Idle := by
  unfold emptied
  by_cases hzero : writer.pendingBytes = 0
  · rw [if_pos hzero]
    exact ⟨List.eq_nil_of_length_eq_zero (h ▸ hzero), hzero⟩
  · rw [if_neg hzero]
    exact ⟨rfl, rfl⟩

theorem counted_add (h : writer.pendingBytes = writer.batch.length) (chunk : List UInt8) :
    (writer.add chunk).pendingBytes = (writer.add chunk).batch.length := by
  rw [batch_add, List.length_append, ← h]
  rfl

/-- A chunk that does not make the writer hand over leaves it below its mark, and a line
buffered writer without a newline. -/
theorem Restrained.add (h : writer.Restrained) {chunk : List UInt8}
    (hdue : ¬ (writer.add chunk).isDue chunk = true) : (writer.add chunk).Restrained := by
  have hcounted := counted_add h.counted chunk
  unfold isDue at hdue
  simp only [Bool.or_eq_true, Bool.and_eq_true, not_or, not_and, List.contains_iff_mem] at hdue
  obtain ⟨hmark, hchunk⟩ := hdue
  refine ⟨hcounted, .inr ?_, ?_⟩
  · intro mark hsome
    rw [hsome, hcounted] at hmark
    simpa using hmark
  · intro hlines hmem
    rw [batch_add] at hmem
    rcases List.mem_append.mp hmem with hold | hnew
    · exact h.noNewline hlines hold
    · exact hchunk hlines hnew

theorem Restrained.after (h : writer.Restrained) (call : WriterCall) :
    (writer.after call).Restrained := by
  cases call with
  | flush => exact (idle_emptied h.counted).restrained
  | write chunk =>
      unfold BlockWriter.after
      dsimp only
      split
      · exact (idle_emptied (counted_add h.counted chunk)).restrained
      · exact h.add ‹_›

theorem Restrained.foldl_after (h : writer.Restrained) (calls : List WriterCall) :
    (calls.foldl BlockWriter.after writer).Restrained ∧
      (calls.foldl BlockWriter.after writer).settings = writer.settings := by
  induction calls generalizing writer with
  | nil => exact ⟨h, rfl⟩
  | cons call rest ih =>
      obtain ⟨hrest, hsettings⟩ := ih (h.after call)
      exact ⟨hrest, hsettings.trans (settings_after writer call)⟩

theorem Restrained.foldl_after_flush (h : writer.Restrained) (earlier : List WriterCall) :
    ((earlier ++ [WriterCall.flush]).foldl BlockWriter.after writer).Idle := by
  rw [List.foldl_append]
  exact idle_emptied (h.foldl_after earlier).1.counted

end BlockWriter

/-- A part that ends with an element of which the back has none lies in the front. -/
theorem prefix_of_not_mem {α : Type} {part front back : List α} {last : α}
    (h : part ++ [last] <+: front ++ back) (hback : last ∉ back) : part ++ [last] <+: front := by
  obtain ⟨rest, hrest⟩ := h
  rcases List.append_eq_append_iff.mp hrest with ⟨more, hfront, _⟩ | ⟨more, hpart, hmore⟩
  · exact ⟨more, hfront.symm⟩
  · -- The part reaches into the back, so its last element would be there.
    rcases List.eq_nil_or_concat more with rfl | ⟨more, other, rfl⟩
    · exact ⟨[], by rw [hpart, List.append_nil, List.append_nil]⟩
    · rw [List.concat_eq_append, ← List.append_assoc] at hpart
      obtain ⟨_, rfl⟩ := List.append_singleton_inj.mp hpart
      exact (hback (by simp [hmore])).elim

/-- What a writer holds back, behind any calls and whatever the system answers. The count of
the pending bytes is the total length of the pending chunks. Nothing is pending, or less than
the high-water mark. If the writer is line buffered, no newline is pending, and everything up
to the last newline that was written has been carried to the system. Behind a flush nothing
is pending. -/
theorem writer_holds_back_within_bounds {ε : Type} (answers : Nat → WriteAnswer ε)
    (lineBuffered : Bool) (mark : Option Int) (calls : List WriterCall) :
    ∃ writer file,
      BlockWriter.performAll (LoggedFile.offer answers) calls
          { lineBuffered, highWaterMark := mark } {} = (writer, file) ∧
      writer.pendingBytes = (writer.pending.toList.map List.length).sum ∧
      (writer.batch = [] ∨ ∀ limit, mark = some limit → (writer.pendingBytes : Int) < limit) ∧
      (lineBuffered = true → newline ∉ writer.batch ∧
        ∀ lines, lines ++ [newline] <+: calls.flatMap WriterCall.chunk →
          lines ++ [newline] <+: file.writes.flatMap SystemWrite.carried) ∧
      (calls.getLast? = some .flush → writer.batch = [] ∧ writer.pendingBytes = 0) := by
  obtain ⟨writer, file, hrun, haccounts⟩ :=
    (BlockWriter.accounts_new answers lineBuffered mark).exists_performAll calls
  have hidle : ({ lineBuffered, highWaterMark := mark } : BlockWriter).Idle := ⟨rfl, rfl⟩
  have hleaves := BlockWriter.performAll_leaves (LoggedFile.offer answers) calls
    { lineBuffered, highWaterMark := mark } {}
  rw [hrun] at hleaves
  obtain ⟨hbounds, hsettings⟩ := hidle.restrained.foldl_after calls
  rw [← hleaves] at hbounds hsettings
  obtain ⟨hlines, hmark⟩ : writer.lineBuffered = lineBuffered ∧ writer.highWaterMark = mark :=
    Prod.mk.inj hsettings
  refine ⟨writer, file, hrun, ?_, ?_, ?_, ?_⟩
  · rw [hbounds.counted, BlockWriter.batch, List.length_flatten]
  · rw [hbounds.counted, ← hmark]
    exact hbounds.below
  · intro hbuffered
    have hnewline := hbounds.noNewline (hlines.trans hbuffered)
    refine ⟨hnewline, ?_⟩
    intro lines hwritten
    have hsplit := haccounts.split
    rw [List.nil_append] at hsplit
    rw [hsplit] at hwritten
    exact prefix_of_not_mem hwritten hnewline
  · intro hlast
    obtain ⟨earlier, rfl⟩ := List.getLast?_eq_some_iff.mp hlast
    have hflushed := hidle.restrained.foldl_after_flush earlier
    rw [← hleaves] at hflushed
    exact ⟨hflushed.batch, hflushed.pendingBytes⟩

/-- Two lines and the start of a third one. The system write of the second line fails, and the
writer forgets that line all the same. -/
theorem writer_holds_back_unfinished_line :
    let answers : Nat → WriteAnswer Unit := fun n => if n = 1 then .failure () else .everything
    let calls : List WriterCall :=
      [.write [1, 2], .write [3, newline], .write [4, newline], .write [], .write [5]]
    [1, 2, 3, newline, 4] ++ [newline] <+: calls.flatMap WriterCall.chunk ∧
      (∃ writer file,
        BlockWriter.performAll (LoggedFile.offer answers) calls
          { lineBuffered := true, highWaterMark := some 8 } {} = (writer, file) ∧
        (writer.batch = [] ∨ (writer.pendingBytes : Int) < 8) ∧ newline ∉ writer.batch ∧
        [1, 2, 3, newline, 4] ++ [newline] <+: file.writes.flatMap SystemWrite.carried) ∧
      ∃ writer file,
        BlockWriter.performAll (LoggedFile.offer answers) (calls ++ [.flush])
          { lineBuffered := true, highWaterMark := some 8 } {} = (writer, file) ∧
        writer.batch = [] := by
  intro answers calls
  have hlines : [1, 2, 3, newline, 4] ++ [newline] <+: calls.flatMap WriterCall.chunk :=
    ⟨[5], rfl⟩
  refine ⟨hlines, ?_, ?_⟩
  · obtain ⟨writer, file, hrun, _, hbelow, hbuffered, _⟩ :=
      writer_holds_back_within_bounds answers true (some 8) calls
    obtain ⟨hnewline, hcarried⟩ := hbuffered rfl
    exact ⟨writer, file, hrun, hbelow.imp_right fun h => h 8 rfl, hnewline, hcarried _ hlines⟩
  · obtain ⟨writer, file, hrun, _, _, _, hflushed⟩ :=
      writer_holds_back_within_bounds answers true (some 8) (calls ++ [.flush])
    exact ⟨writer, file, hrun, (hflushed rfl).1⟩

end Brainfuck
