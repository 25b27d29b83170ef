import Brainfuck.Proofs.Nesting
import Mathlib.Logic.ExistsUnique

/-!
# Blocks and layouts

A block is the tree of a balanced segment: plain octets in sequence, and loops around
blocks. Every sequence of octets is laid out around balanced segments in one way only. The
closing brackets that open nothing come first, each behind a segment, then one segment in
the middle, and then the opening brackets that nothing closes, each in front of a segment.

Octets are laid out from the right, one at a time. An opening bracket takes the segment in
front of the first unmatched closing bracket for its body, if there is one.
-/
namespace Brainfuck.Bracket

/-- An octet that is no bracket. -/
abbrev PlainByte :=
  { b : UInt8 // b ≠ Instruction.opening.toByte ∧ b ≠ Instruction.closing.toByte }

/-- The structure of a balanced segment. -/
inductive Block where
  | empty
  | plain (byte : PlainByte) (rest : Block)
  | loop (body rest : Block)

namespace Block

def bytes : Block → List UInt8
  | .empty => []
  | .plain byte rest => byte.val :: rest.bytes
  | .loop body rest =>
      Instruction.opening.toByte :: (body.bytes ++ Instruction.closing.toByte :: rest.bytes)

/-- One block after another. -/
def append : Block → Block → Block
  | .empty, last => last
  | .plain byte rest, last => .plain byte (rest.append last)
  | .loop body rest, last => .loop body (rest.append last)

theorem append_empty (block : Block) : block.append .empty = block := by
  induction block with
  | empty => rfl
  | plain byte rest ih => rw [append, ih]
  | loop body rest _ ih => rw [append, ih]

theorem nesting_bytes (block : Block) (d : Nat) : nesting d block.bytes = some d := by
  induction block generalizing d with
  | empty => rfl
  | plain byte rest ih =>
      rw [bytes, nesting_cons, tally_other byte.property.1 byte.property.2]
      exact ih d
  | loop body rest ihBody ihRest =>
      rw [bytes, nesting_cons, tally_opening, Option.bind_some, nesting_append, ihBody,
        Option.bind_some, nesting_cons, tally_closing_succ]
      exact ihRest d

theorem balanced_bytes (block : Block) : Balanced block.bytes :=
  balanced_iff_nesting.mpr (block.nesting_bytes 0)

end Block

/-- Segments around the unmatched brackets: each of the first ones is followed by a closing
bracket, and each of the last ones comes behind an opening bracket. -/
structure Layout (α : Type) where
  closed : List α
  middle : α
  opened : List α

namespace Layout

/-- Segments, each followed by a closing bracket. -/
def closedBytes (segments : List (List UInt8)) : List UInt8 :=
  segments.flatMap fun segment => segment ++ [Instruction.closing.toByte]

/-- Segments, each behind an opening bracket. -/
def openedBytes (segments : List (List UInt8)) : List UInt8 :=
  segments.flatMap fun segment => Instruction.opening.toByte :: segment

def bytes (layout : Layout (List UInt8)) : List UInt8 :=
  closedBytes layout.closed ++ layout.middle ++ openedBytes layout.opened

@[simp] theorem closedBytes_nil : closedBytes [] = [] := rfl

@[simp] theorem closedBytes_cons (segment : List UInt8) (segments : List (List UInt8)) :
    closedBytes (segment :: segments) =
      segment ++ Instruction.closing.toByte :: closedBytes segments := by
  simp [closedBytes]

@[simp] theorem openedBytes_nil : openedBytes [] = [] := rfl

@[simp] theorem openedBytes_cons (segment : List UInt8) (segments : List (List UInt8)) :
    openedBytes (segment :: segments) =
      Instruction.opening.toByte :: (segment ++ openedBytes segments) := rfl

structure All {α : Type} (P : α → Prop) (layout : Layout α) : Prop where
  closed : ∀ segment ∈ layout.closed, P segment
  middle : P layout.middle
  opened : ∀ segment ∈ layout.opened, P segment

/-- The octets of the segments. -/
def texts (layout : Layout Block) : Layout (List UInt8) :=
  ⟨layout.closed.map Block.bytes, layout.middle.bytes, layout.opened.map Block.bytes⟩

theorem all_balanced_texts (layout : Layout Block) : layout.texts.All Balanced where
  closed := by
    intro segment h
    obtain ⟨block, _, rfl⟩ := List.mem_map.mp h
    exact block.balanced_bytes
  middle := layout.middle.balanced_bytes
  opened := by
    intro segment h
    obtain ⟨block, _, rfl⟩ := List.mem_map.mp h
    exact block.balanced_bytes

/-- Changes the first segment. -/
def mapFirst (f : Block → Block) : Layout Block → Layout Block
  | ⟨[], middle, opened⟩ => ⟨[], f middle, opened⟩
  | ⟨first :: closed, middle, opened⟩ => ⟨f first :: closed, middle, opened⟩

theorem bytes_mapFirst {f : Block → Block} (front : List UInt8)
    (hf : ∀ block, (f block).bytes = front ++ block.bytes) (layout : Layout Block) :
    (layout.mapFirst f).texts.bytes = front ++ layout.texts.bytes := by
  obtain ⟨_ | ⟨first, closed⟩, middle, opened⟩ := layout
  · simp [mapFirst, texts, bytes, hf]
  · simp [mapFirst, texts, bytes, hf]

/-- The layout with one more octet in front. -/
def cons (b : UInt8) (layout : Layout Block) : Layout Block :=
  if ho : b = Instruction.opening.toByte then
    match layout with
    | ⟨[], middle, opened⟩ => ⟨[], .empty, middle :: opened⟩
    | ⟨body :: closed, middle, opened⟩ => mapFirst (.loop body) ⟨closed, middle, opened⟩
  else if hc : b = Instruction.closing.toByte then
    ⟨.empty :: layout.closed, layout.middle, layout.opened⟩
  else layout.mapFirst (.plain ⟨b, ho, hc⟩)

def ofBytes (bytes : List UInt8) : Layout Block := bytes.foldr cons ⟨[], .empty, []⟩

theorem cons_opening_nil (middle : Block) (opened : List Block) :
    cons Instruction.opening.toByte ⟨[], middle, opened⟩ = ⟨[], .empty, middle :: opened⟩ := by
  simp [cons]

theorem cons_opening_cons (body middle : Block) (closed opened : List Block) :
    cons Instruction.opening.toByte ⟨body :: closed, middle, opened⟩ =
      mapFirst (.loop body) ⟨closed, middle, opened⟩ := by
  simp [cons]

theorem cons_closing (layout : Layout Block) :
    cons Instruction.closing.toByte layout =
      ⟨.empty :: layout.closed, layout.middle, layout.opened⟩ := by
  simp [cons, Instruction.toByte]

theorem cons_plain (byte : PlainByte) (layout : Layout Block) :
    cons byte.val layout = layout.mapFirst (.plain byte) := by
  simp [cons, byte.property.1, byte.property.2]

theorem bytes_cons (b : UInt8) (layout : Layout Block) :
    (cons b layout).texts.bytes = b :: layout.texts.bytes := by
  by_cases ho : b = Instruction.opening.toByte
  · subst ho
    obtain ⟨_ | ⟨body, closed⟩, middle, opened⟩ := layout
    · rw [cons_opening_nil]
      simp [texts, bytes, Block.bytes]
    · rw [cons_opening_cons, bytes_mapFirst
        (Instruction.opening.toByte :: (body.bytes ++ [Instruction.closing.toByte]))
        (by simp [Block.bytes])]
      simp [texts, bytes]
  · by_cases hc : b = Instruction.closing.toByte
    · subst hc
      rw [cons_closing]
      simp [texts, bytes, Block.bytes]
    · rw [cons_plain ⟨b, ho, hc⟩, bytes_mapFirst [b] (by simp [Block.bytes])]
      rfl

/-- Laying octets out keeps them. -/
theorem bytes_ofBytes (octets : List UInt8) : (ofBytes octets).texts.bytes = octets := by
  induction octets with
  | nil => rfl
  | cons b rest ih =>
      change (cons b (ofBytes rest)).texts.bytes = b :: rest
      rw [bytes_cons, ih]

theorem mapFirst_mapFirst (f g : Block → Block) (layout : Layout Block) :
    (layout.mapFirst f).mapFirst g = layout.mapFirst fun block => g (f block) := by
  obtain ⟨_ | ⟨first, closed⟩, middle, opened⟩ := layout <;> rfl

theorem mapFirst_id (layout : Layout Block) : (layout.mapFirst fun block => block) = layout := by
  obtain ⟨_ | ⟨first, closed⟩, middle, opened⟩ := layout <;> rfl

theorem ofBytes_cons (b : UInt8) (rest : List UInt8) :
    ofBytes (b :: rest) = cons b (ofBytes rest) := rfl

/-- The octets of a block become that block, whatever follows. -/
theorem ofBytes_block_append (block : Block) (rest : List UInt8) :
    ofBytes (block.bytes ++ rest) = (ofBytes rest).mapFirst block.append := by
  induction block generalizing rest with
  | empty => exact (mapFirst_id _).symm
  | plain byte last ih =>
      rw [Block.bytes, List.cons_append, ofBytes_cons, ih, cons_plain, mapFirst_mapFirst]
      rfl
  | loop body last ihBody ihLast =>
      -- The body is in front of an unmatched closing bracket until its opening is read.
      rw [Block.bytes, List.cons_append, List.append_assoc, List.cons_append, ofBytes_cons,
        ihBody, ofBytes_cons, ihLast, cons_closing]
      rw [mapFirst, cons_opening_cons, Block.append_empty, mapFirst_mapFirst]
      rfl

theorem ofBytes_opened (opened : List Block) :
    ofBytes (openedBytes (opened.map Block.bytes)) = ⟨[], .empty, opened⟩ := by
  induction opened with
  | nil => rfl
  | cons block opened ih =>
      rw [List.map_cons, openedBytes_cons, ofBytes_cons, ofBytes_block_append, ih, mapFirst,
        cons_opening_nil, Block.append_empty]

/-- The octets of a layout are laid out as they were. -/
theorem ofBytes_bytes (layout : Layout Block) : ofBytes layout.texts.bytes = layout := by
  obtain ⟨closed, middle, opened⟩ := layout
  have hmiddle : ofBytes (middle.bytes ++ openedBytes (opened.map Block.bytes)) =
      ⟨[], middle, opened⟩ := by
    rw [ofBytes_block_append, ofBytes_opened, mapFirst, Block.append_empty]
  unfold bytes texts
  dsimp only
  rw [List.append_assoc]
  induction closed with
  | nil => exact hmiddle
  | cons block closed ih =>
      rw [List.map_cons, closedBytes_cons, List.append_assoc, List.cons_append,
        ofBytes_block_append, ofBytes_cons, ih, cons_closing, mapFirst, Block.append_empty]

theorem nesting_opened (opened : List Block) (d : Nat) :
    nesting d (openedBytes (opened.map Block.bytes)) = some (d + opened.length) := by
  induction opened generalizing d with
  | nil => rfl
  | cons block opened ih =>
      rw [List.map_cons, openedBytes_cons, nesting_cons, tally_opening, Option.bind_some,
        nesting_append, block.nesting_bytes, Option.bind_some, ih, List.length_cons,
        Nat.add_assoc, Nat.add_comm 1]

/-- A layout of a balanced segment has no unmatched brackets. -/
theorem eq_middle_of_balanced {layout : Layout Block} (h : Balanced layout.texts.bytes) :
    layout.texts.bytes = layout.middle.bytes := by
  obtain ⟨closed, middle, opened⟩ := layout
  have hnesting := balanced_iff_nesting.mp h
  cases closed with
  | nil =>
      have hopened : nesting 0 (middle.bytes ++ openedBytes (opened.map Block.bytes)) =
          some 0 := hnesting
      rw [nesting_append, middle.nesting_bytes, Option.bind_some, nesting_opened] at hopened
      have hlength : opened = [] := by simpa using hopened
      simp [texts, bytes, hlength]
  | cons block closed =>
      rw [bytes, texts, List.map_cons, closedBytes_cons, List.append_assoc, List.append_assoc,
        nesting_append, block.nesting_bytes] at hnesting
      simp [nesting_cons] at hnesting

end Layout

/-- Blocks are the structures of the balanced segments, and of nothing else. -/
theorem balanced_iff_exists_block {octets : List UInt8} :
    Balanced octets ↔ ∃ block : Block, block.bytes = octets := by
  constructor
  · intro h
    have hbytes := Layout.bytes_ofBytes octets
    have hmiddle := Layout.eq_middle_of_balanced (hbytes.symm ▸ h)
    exact ⟨_, hmiddle.symm.trans hbytes⟩
  · intro h
    obtain ⟨block, rfl⟩ := h
    exact block.balanced_bytes

theorem exists_blocks {segments : List (List UInt8)} (h : ∀ segment ∈ segments, Balanced segment) :
    ∃ blocks : List Block, blocks.map Block.bytes = segments := by
  induction segments with
  | nil => exact ⟨[], rfl⟩
  | cons segment segments ih =>
      obtain ⟨block, hblock⟩ := balanced_iff_exists_block.mp (h segment List.mem_cons_self)
      obtain ⟨blocks, hblocks⟩ := ih fun other hmem => h other (List.mem_cons_of_mem _ hmem)
      exact ⟨block :: blocks, by rw [List.map_cons, hblock, hblocks]⟩

/-- Balanced segments can be placed around the unmatched brackets in one way only. -/
theorem existsUnique_layout (octets : List UInt8) :
    ∃! layout : Layout (List UInt8), layout.All Balanced ∧ layout.bytes = octets := by
  refine ⟨(Layout.ofBytes octets).texts,
    ⟨Layout.all_balanced_texts _, Layout.bytes_ofBytes octets⟩, ?_⟩
  intro layout h
  obtain ⟨hall, hbytes⟩ := h
  obtain ⟨closed, middle, opened⟩ := layout
  obtain ⟨closedBlocks, hclosed⟩ := exists_blocks hall.closed
  obtain ⟨middleBlock, hmiddle⟩ := balanced_iff_exists_block.mp hall.middle
  obtain ⟨openedBlocks, hopened⟩ := exists_blocks hall.opened
  have htexts : (⟨closed, middle, opened⟩ : Layout (List UInt8)) =
      Layout.texts ⟨closedBlocks, middleBlock, openedBlocks⟩ := by
    rw [Layout.texts, hclosed, hmiddle, hopened]
  rw [htexts] at hbytes ⊢
  rw [← hbytes, Layout.ofBytes_bytes]

end Brainfuck.Bracket
