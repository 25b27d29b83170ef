import Brainfuck.Proofs.Layout
import Brainfuck.Proofs.Recording

/-!
# Structured meaning of programs

A program means something without a program counter. Its plain octets are commands, its
blocks are sequences of commands and loops, and a loop repeats its body while the current
cell is nonzero. A bracket that the layout of the program leaves unmatched is a test: it
faults if its cell asks for a jump, and otherwise it does nothing. A meaning relates the
tape and the streams before to a verdict and the tape and the streams afterwards, and a
program that runs for ever is related to nothing.

The machine has only jumps, and it never tests an opening bracket again after the first
time. It realizes the structured meaning all the same. What it does between two positions
is put together from its parts by the same operations as the meaning: one after another,
and repetition between the two brackets of a loop, of which either leads to the same place.
-/
namespace Brainfuck

open Brainfuck.Bracket Brainfuck.Execution

variable {host : Host}

/-- What the commands of a program act on. -/
structure Store (w : Nat) (σ : Type) where
  tape : Tape w
  world : σ

/-- A store before, the verdict, and the store afterwards. Here `completed` says that the
end of a part has been reached. -/
abbrev Meaning (w : Nat) (σ : Type) := Store w σ → Verdict → Store w σ → Prop

namespace Meaning

variable {ε σ : Type} {w : Nat}

inductive Skip : Store w σ → Verdict → Store w σ → Prop
  | intro {a : Store w σ} : Skip a .completed a

/-- One part after another, unless the first one faults. -/
inductive Seq (first second : Meaning w σ) : Store w σ → Verdict → Store w σ → Prop
  | stop {a b : Store w σ} {fault : Fault} : first a (.faulted fault) b →
      Seq first second a (.faulted fault) b
  | next {a b c : Store w σ} {verdict : Verdict} : first a .completed b →
      second b verdict c → Seq first second a verdict c

/-- A body is repeated while the current cell is nonzero. -/
inductive Repeat (body : Meaning w σ) : Store w σ → Verdict → Store w σ → Prop
  | leave {a : Store w σ} : a.tape.isZero = true → Repeat body a .completed a
  | stop {a b : Store w σ} {fault : Fault} : a.tape.isZero = false →
      body a (.faulted fault) b → Repeat body a (.faulted fault) b
  | again {a b c : Store w σ} {verdict : Verdict} : a.tape.isZero = false →
      body a .completed b → Repeat body b verdict c → Repeat body a verdict c

/-- The command that an octet other than a bracket writes at a position. -/
inductive Plain (streams : Streams (Effect ε σ)) (position : Nat) (b : UInt8) :
    Store w σ → Verdict → Store w σ → Prop
  | inert {a : Store w σ} : Instruction.ofByte? b = none →
      Plain streams position b a .completed a
  | right {tape tape' : Tape w} {s : σ} : Instruction.ofByte? b = some .right →
      tape.moveRight? = some tape' → Plain streams position b ⟨tape, s⟩ .completed ⟨tape', s⟩
  | rightEnd {a : Store w σ} : Instruction.ofByte? b = some .right →
      a.tape.moveRight? = none →
      Plain streams position b a (.faulted (.outOfBounds position .right)) a
  | left {tape tape' : Tape w} {s : σ} : Instruction.ofByte? b = some .left →
      tape.moveLeft? = some tape' → Plain streams position b ⟨tape, s⟩ .completed ⟨tape', s⟩
  | leftEnd {a : Store w σ} : Instruction.ofByte? b = some .left →
      a.tape.moveLeft? = none →
      Plain streams position b a (.faulted (.outOfBounds position .left)) a
  | increment {tape : Tape w} {s : σ} : Instruction.ofByte? b = some .increment →
      Plain streams position b ⟨tape, s⟩ .completed ⟨tape.increment, s⟩
  | decrement {tape : Tape w} {s : σ} : Instruction.ofByte? b = some .decrement →
      Plain streams position b ⟨tape, s⟩ .completed ⟨tape.decrement, s⟩
  | output {tape : Tape w} {s s' : σ} : Instruction.ofByte? b = some .output →
      (streams.out.write [tape.outputByte]).runFrom s = (.ok (), s') →
      Plain streams position b ⟨tape, s⟩ .completed ⟨tape, s'⟩
  | input {tape : Tape w} {s s₁ s' : σ} {value : Option Int} :
      Instruction.ofByte? b = some .input → streams.out.flush.runFrom s = (.ok (), s₁) →
      streams.read.runFrom s₁ = (.ok value, s') →
      Plain streams position b ⟨tape, s⟩ .completed ⟨tape.store (value.getD 0), s'⟩

/-- The current cell is zero, or nonzero, as demanded, and otherwise it is a fault. -/
inductive Test (zero : Bool) (fault : Fault) : Store w σ → Verdict → Store w σ → Prop
  | pass {a : Store w σ} : a.tape.isZero = zero → Test zero fault a .completed a
  | stop {a : Store w σ} : a.tape.isZero ≠ zero → Test zero fault a (.faulted fault) a

/-- A closing bracket that opens nothing: a nonzero cell is a fault. -/
def Unopened (position : Nat) : Meaning w σ := Test true (.missingOpening position)

/-- An opening bracket that nothing closes: a zero cell is a fault. -/
def Unclosed (position : Nat) : Meaning w σ := Test false (.missingClosing position)

end Meaning

section
variable {ε σ : Type} {w : Nat}

/-- The meaning of a block that starts at a position. -/
def Bracket.Block.meaning (streams : Streams (Effect ε σ)) : Nat → Block → Meaning w σ
  | _, .empty => Meaning.Skip
  | position, .plain byte rest =>
      Meaning.Seq (Meaning.Plain streams position byte.val) (rest.meaning streams (position + 1))
  | position, .loop body rest =>
      Meaning.Seq (Meaning.Repeat (body.meaning streams (position + 1)))
        (rest.meaning streams (position + 1 + body.bytes.length + 1))

/-- Blocks that are each followed by an unmatched closing bracket. -/
def Bracket.Layout.closedMeaning (streams : Streams (Effect ε σ)) :
    Nat → List Block → Meaning w σ
  | _, [] => Meaning.Skip
  | position, block :: rest =>
      Meaning.Seq (block.meaning streams position)
        (Meaning.Seq (Meaning.Unopened (position + block.bytes.length))
          (closedMeaning streams (position + block.bytes.length + 1) rest))

/-- Blocks that each come behind an unmatched opening bracket. -/
def Bracket.Layout.openedMeaning (streams : Streams (Effect ε σ)) :
    Nat → List Block → Meaning w σ
  | _, [] => Meaning.Skip
  | position, block :: rest =>
      Meaning.Seq (Meaning.Unclosed position)
        (Meaning.Seq (block.meaning streams (position + 1))
          (openedMeaning streams (position + 1 + block.bytes.length) rest))

/-- The meaning of a whole program. -/
def Bracket.Layout.meaning (streams : Streams (Effect ε σ)) (layout : Layout Block) :
    Meaning w σ :=
  let middle := (closedBytes (layout.closed.map Block.bytes)).length
  Meaning.Seq (closedMeaning streams 0 layout.closed)
    (Meaning.Seq (layout.middle.meaning streams middle)
      (openedMeaning streams (middle + layout.middle.bytes.length) layout.opened))

end

/-- The configuration of a machine that is at a position. -/
def Store.placed {w : Nat} {σ : Type} (a : Store w σ) (pc : Nat) : Configuration w σ :=
  ⟨⟨pc, a.tape⟩, a.world⟩

def Configuration.store {w : Nat} {σ : Type} (c : Configuration w σ) : Store w σ :=
  ⟨c.machine.tape, c.world⟩

section
variable {ε σ : Type} {w : Nat}

/-- A run gets to a position behind a part, or it halts with the fault of that part. -/
def Delivers (streams : Streams (Effect ε σ)) (p : Program) (j : Nat) (c : Configuration w σ) :
    Verdict → Store w σ → Prop
  | .completed, b => ∃ n, Reaches streams p (.scanning p) n c (b.placed j)
  | .faulted fault, b => ∃ n pc, Halts streams p (.scanning p) n c (.faulted fault) (b.placed pc)

/-- The octets from `i` up to `j` do what a meaning says. Every outcome of the meaning is
delivered, and a run that halts has either faulted in between, as the meaning says, or it
has come to `j` and halts from there. -/
structure Realizes (streams : Streams (Effect ε σ)) (p : Program) (i j : Nat)
    (meaning : Meaning w σ) : Prop where
  delivers : ∀ {a verdict b}, meaning a verdict b → Delivers streams p j (a.placed i) verdict b
  covers : ∀ {n a verdict c}, Halts streams p (.scanning p) n (a.placed i) verdict c →
    (∃ fault, verdict = .faulted fault ∧ meaning a (.faulted fault) c.store) ∨
      ∃ b k, k ≤ n ∧ meaning a .completed b ∧
        Halts streams p (.scanning p) k (b.placed j) verdict c

end

section
variable {ε σ : Type} {w : Nat} {streams : Streams (Effect ε σ)} {p : Program}
variable {i j k n : Nat} {a b : Store w σ} {verdict : Verdict}

theorem Delivers.of_reaches {c c₁ : Configuration w σ}
    (h : Reaches streams p (.scanning p) n c c₁) (h' : Delivers streams p j c₁ verdict b) :
    Delivers streams p j c verdict b := by
  cases verdict with
  | completed =>
      obtain ⟨m, hreach⟩ := h'
      exact ⟨n + m, h.trans hreach⟩
  | faulted fault =>
      obtain ⟨m, pc, hhalts⟩ := h'
      exact ⟨n + m, pc, h.halts hhalts⟩

theorem delivers_of_tick {c : Configuration w σ}
    (h : Tick streams p (.scanning p) c (b.placed j)) :
    Delivers streams p j c .completed b :=
  ⟨1, h.reaches⟩

theorem delivers_of_advance {tape tape' : Tape w} {s : σ}
    (h : Machine.Step p (.scanning p) ⟨i, tape⟩ (.advance ⟨j, tape'⟩)) :
    Delivers streams p j (Store.placed ⟨tape, s⟩ i) .completed ⟨tape', s⟩ :=
  delivers_of_tick (.advance h.step_eq)

theorem delivers_of_stop {fault : Fault}
    (h : Machine.Step p (.scanning p) ⟨i, a.tape⟩ (.stop (.faulted fault) ⟨i, a.tape⟩)) :
    Delivers streams p j (a.placed i) (.faulted fault) a :=
  ⟨1, i, halts_succ_iff.mpr (.inl ⟨h.step_eq, rfl⟩)⟩

theorem realizes_skip : Realizes streams p i i (Meaning.Skip : Meaning w σ) where
  delivers := by
    intro a verdict b h
    cases h
    exact ⟨0, reaches_zero_iff.mpr rfl⟩
  covers := by
    intro n a verdict c h
    exact .inr ⟨a, n, Nat.le_refl n, .intro, h⟩

theorem Realizes.seq {first second : Meaning w σ} (hfirst : Realizes streams p i j first)
    (hsecond : Realizes streams p j k second) :
    Realizes streams p i k (Meaning.Seq first second) where
  delivers := by
    intro a verdict b h
    cases h with
    | stop h => exact hfirst.delivers h
    | next h h' =>
        obtain ⟨n, hreach⟩ := hfirst.delivers h
        exact (hsecond.delivers h').of_reaches hreach
  covers := by
    intro n a verdict c h
    rcases hfirst.covers h with ⟨fault, hverdict, hfault⟩ | ⟨b, m, hm, hb, h⟩
    · exact .inl ⟨fault, hverdict, .stop hfault⟩
    · rcases hsecond.covers h with ⟨fault, hverdict, hfault⟩ | ⟨b', m', hm', hb', h⟩
      · exact .inl ⟨fault, hverdict, .next hb hfault⟩
      · exact .inr ⟨b', m', Nat.le_trans hm' hm, .next hb hb', h⟩

/-- At either bracket of a loop, a nonzero cell leads to the body and a zero cell leads
behind the loop. -/
structure Guards (w : Nat) (p : Program) (i j pc : Nat) : Prop where
  enter : ∀ tape : Tape w, tape.isZero = false →
    (⟨pc, tape⟩ : Machine w).step p (.scanning p) = .advance ⟨i + 1, tape⟩
  leave : ∀ tape : Tape w, tape.isZero = true →
    (⟨pc, tape⟩ : Machine w).step p (.scanning p) = .advance ⟨j + 1, tape⟩

theorem Bracket.Partners.guards_opening (h : Partners p i j) : Guards w p i j i where
  enter _ hz := Machine.Step.step_eq (.enter h.opening hz)
  leave _ hz :=
    Machine.Step.step_eq (.skip h.opening hz ((scanForward_eq_some_iff h.opening).mpr h))

theorem Bracket.Partners.guards_closing (h : Partners p i j) : Guards w p i j j where
  enter _ hz :=
    Machine.Step.step_eq (.again h.closing hz ((scanBackward_eq_some_iff h.closing).mpr h))
  leave _ hz := Machine.Step.step_eq (.leave h.closing hz)

theorem Guards.delivers_repeat {body : Meaning w σ} (hj : Guards w p i j j)
    (hbody : Realizes streams p (i + 1) j body) (h : Meaning.Repeat body a verdict b) {pc : Nat}
    (hpc : Guards w p i j pc) : Delivers streams p (j + 1) (a.placed pc) verdict b := by
  -- After the first round the loop goes on from its closing bracket, so the bracket varies.
  induction h generalizing pc with
  | leave hz => exact delivers_of_tick (.advance (hpc.leave _ hz))
  | stop hz h =>
      exact Delivers.of_reaches (Tick.reaches (.advance (hpc.enter _ hz))) (hbody.delivers h)
  | again hz h _ ih =>
      obtain ⟨n, hreach⟩ := hbody.delivers h
      have hrest := (ih hj).of_reaches hreach
      exact hrest.of_reaches (Tick.reaches (.advance (hpc.enter _ hz)))

theorem Guards.covers_repeat {body : Meaning w σ} (hj : Guards w p i j j)
    (hbody : Realizes streams p (i + 1) j body) {c : Configuration w σ} {pc : Nat}
    (hpc : Guards w p i j pc)
    (h : Halts streams p (.scanning p) n (a.placed pc) verdict c) :
    (∃ fault, verdict = .faulted fault ∧ Meaning.Repeat body a (.faulted fault) c.store) ∨
      ∃ b k, k ≤ n ∧ Meaning.Repeat body a .completed b ∧
        Halts streams p (.scanning p) k (b.placed (j + 1)) verdict c := by
  -- Every test of the cell takes a step, so the rest of the run is shorter.
  induction n using Nat.strongRecOn generalizing a pc with
  | ind n ih =>
      cases hz : a.tape.isZero with
      | true =>
          obtain ⟨m, hm, h⟩ := halts_of_advance (hpc.leave _ hz) h
          exact .inr ⟨a, m, Nat.le_of_lt hm, .leave hz, h⟩
      | false =>
          obtain ⟨m, hm, h⟩ := halts_of_advance (hpc.enter _ hz) h
          rcases hbody.covers h with ⟨fault, hverdict, hfault⟩ | ⟨b, m', hm', hb, h⟩
          · exact .inl ⟨fault, hverdict, .stop hz hfault⟩
          · have hlt : m' < n := Nat.lt_of_le_of_lt hm' hm
            rcases ih m' hlt hj h with ⟨fault, hverdict, hfault⟩ | ⟨b', k, hk, hb', h⟩
            · exact .inl ⟨fault, hverdict, .again hz hb hfault⟩
            · exact .inr ⟨b', k, by omega, .again hz hb hb', h⟩

theorem Bracket.Partners.realizes_repeat {body : Meaning w σ} (h : Partners p i j)
    (hbody : Realizes streams p (i + 1) j body) :
    Realizes streams p i (j + 1) (Meaning.Repeat body) where
  delivers hrepeat := h.guards_closing.delivers_repeat hbody hrepeat h.guards_opening
  covers hhalts := h.guards_closing.covers_repeat hbody h.guards_opening hhalts

/-- A part of one octet is realized if its meaning says what the step at it does. -/
theorem realizes_of_step {meaning : Meaning w σ}
    (hdelivers : ∀ {a verdict b}, meaning a verdict b →
      Delivers streams p (i + 1) (a.placed i) verdict b)
    (hstop : ∀ (a : Store w σ) verdict,
      Machine.Step p (.scanning p) ⟨i, a.tape⟩ (.stop verdict ⟨i, a.tape⟩) →
      ∃ fault, verdict = .faulted fault ∧ meaning a (.faulted fault) a)
    (htick : ∀ (a : Store w σ) c, Tick streams p (.scanning p) (a.placed i) c →
      ∃ b, c = b.placed (i + 1) ∧ meaning a .completed b) :
    Realizes streams p i (i + 1) meaning where
  delivers := hdelivers
  covers := by
    intro n a verdict c h
    cases n with
    | zero => exact (not_halts_zero h).elim
    | succ n =>
        rcases halts_succ_iff.mp h with ⟨hstep, rfl⟩ | ⟨c₁, hc₁, h⟩
        · exact .inl (hstop a verdict (Machine.step_eq_iff.mp hstep))
        · obtain ⟨b, rfl, hb⟩ := htick a c₁ hc₁
          exact .inr ⟨b, n, Nat.le_succ n, hb, h⟩

theorem realizes_plain {byte : PlainByte} (hb : p.toList[i]? = some byte.val) :
    Realizes streams p i (i + 1) (Meaning.Plain streams i byte.val : Meaning w σ) := by
  have hinstruction : p.instruction? i = Instruction.ofByte? byte.val := by
    rw [p.instruction?_eq, hb, Option.bind_some]
  have hsize : i < p.size := by
    rw [← p.length_toList]
    exact (List.getElem?_eq_some_iff.mp hb).1
  have hopening : p.instruction? i ≠ some .opening := by
    intro h
    rw [Program.instruction?_eq_some_iff, hb] at h
    exact byte.property.1 (Option.some.inj h)
  have hclosing : p.instruction? i ≠ some .closing := by
    intro h
    rw [Program.instruction?_eq_some_iff, hb] at h
    exact byte.property.2 (Option.some.inj h)
  apply realizes_of_step
  · intro a verdict b h
    cases h with
    | inert h => exact delivers_of_advance (.inert hsize (hinstruction.trans h))
    | right h hm => exact delivers_of_advance (.right (hinstruction.trans h) hm)
    | rightEnd h hm => exact delivers_of_stop (.rightEnd (hinstruction.trans h) hm)
    | left h hm => exact delivers_of_advance (.left (hinstruction.trans h) hm)
    | leftEnd h hm => exact delivers_of_stop (.leftEnd (hinstruction.trans h) hm)
    | increment h => exact delivers_of_advance (.increment (hinstruction.trans h))
    | decrement h => exact delivers_of_advance (.decrement (hinstruction.trans h))
    | @output tape _ _ h hwrite =>
        have hstep : Machine.Step p (.scanning p) ⟨i, tape⟩ (.write _ ⟨i + 1, tape⟩) :=
          .output (hinstruction.trans h)
        exact delivers_of_tick (.write hstep.step_eq hwrite)
    | @input tape _ _ _ _ h hflush hread =>
        have hstep : Machine.Step p (.scanning p) ⟨i, tape⟩ (.read ⟨i + 1, tape⟩) :=
          .input (hinstruction.trans h)
        exact delivers_of_tick (.read hstep.step_eq hflush hread)
  · intro a verdict h
    cases h with
    | done hpc => exact absurd hpc (Nat.not_le_of_lt hsize)
    | rightEnd h hm => exact ⟨_, rfl, .rightEnd (hinstruction.symm.trans h) hm⟩
    | leftEnd h hm => exact ⟨_, rfl, .leftEnd (hinstruction.symm.trans h) hm⟩
    | unclosed h => exact absurd h hopening
    | unopened h => exact absurd h hclosing
  · intro a c h
    obtain ⟨tape, s⟩ := a
    cases h with
    | advance hstep =>
        cases Machine.step_eq_iff.mp hstep with
        | inert _ h => exact ⟨⟨tape, s⟩, rfl, .inert (hinstruction.symm.trans h)⟩
        | right h hm => exact ⟨⟨_, s⟩, rfl, .right (hinstruction.symm.trans h) hm⟩
        | left h hm => exact ⟨⟨_, s⟩, rfl, .left (hinstruction.symm.trans h) hm⟩
        | increment h => exact ⟨⟨_, s⟩, rfl, .increment (hinstruction.symm.trans h)⟩
        | decrement h => exact ⟨⟨_, s⟩, rfl, .decrement (hinstruction.symm.trans h)⟩
        | enter h => exact absurd h hopening
        | skip h => exact absurd h hopening
        | leave h => exact absurd h hclosing
        | again h => exact absurd h hclosing
    | write hstep hwrite =>
        cases Machine.step_eq_iff.mp hstep with
        | output h => exact ⟨⟨tape, _⟩, rfl, .output (hinstruction.symm.trans h) hwrite⟩
    | read hstep hflush hread =>
        cases Machine.step_eq_iff.mp hstep with
        | input h => exact ⟨⟨_, _⟩, rfl, .input (hinstruction.symm.trans h) hflush hread⟩

theorem realizes_test {zero : Bool} {fault : Fault}
    (hpass : ∀ tape : Tape w, tape.isZero = zero →
      Machine.Step p (.scanning p) ⟨i, tape⟩ (.advance ⟨i + 1, tape⟩))
    (hstop : ∀ tape : Tape w, tape.isZero ≠ zero →
      Machine.Step p (.scanning p) ⟨i, tape⟩ (.stop (.faulted fault) ⟨i, tape⟩)) :
    Realizes streams p i (i + 1) (Meaning.Test zero fault : Meaning w σ) where
  delivers := by
    intro a verdict b h
    cases h with
    | pass hz => exact delivers_of_advance (hpass _ hz)
    | stop hz => exact delivers_of_stop (hstop _ hz)
  covers := by
    intro n a verdict c h
    by_cases hz : a.tape.isZero = zero
    · obtain ⟨k, hk, h⟩ := halts_of_advance (hpass _ hz).step_eq h
      exact .inr ⟨a, k, Nat.le_of_lt hk, .pass hz, h⟩
    · have hfault : Halts streams p (.scanning p) 1 (a.placed i) (.faulted fault) (a.placed i) :=
        halts_succ_iff.mpr (.inl ⟨(hstop _ hz).step_eq, rfl⟩)
      obtain ⟨rfl, rfl⟩ := h.unique hfault
      exact .inl ⟨fault, rfl, .stop hz⟩

theorem realizes_unopened (hi : p.instruction? i = some .closing)
    (hscan : scanBackward p i = none) :
    Realizes streams p i (i + 1) (Meaning.Unopened i : Meaning w σ) := by
  apply realizes_test
  · intro tape hz
    exact .leave hi hz
  · intro tape hz
    exact .unopened hi (eq_false_of_ne_true hz) hscan

theorem realizes_unclosed (hi : p.instruction? i = some .opening)
    (hscan : scanForward p i = none) :
    Realizes streams p i (i + 1) (Meaning.Unclosed i : Meaning w σ) := by
  apply realizes_test
  · intro tape hz
    exact .enter hi hz
  · intro tape hz
    exact .unclosed hi (eq_true_of_ne_false hz) hscan

/-- The two brackets around a block are partners. -/
theorem partners_of_holds {body : Block} {rest : List UInt8}
    (h : p.Holds i (Instruction.opening.toByte ::
      (body.bytes ++ Instruction.closing.toByte :: rest))) :
    Partners p i (i + 1 + body.bytes.length) where
  lt := by omega
  opening := Program.instruction?_eq_some_iff.mpr h.head
  closing := Program.instruction?_eq_some_iff.mpr h.tail.right.head
  balanced := by
    rw [h.tail.left.slice_eq]
    exact body.balanced_bytes

/-- Blocks are realized wherever they stand. -/
theorem Bracket.Block.realizes (block : Block) (h : p.Holds i block.bytes) :
    Realizes streams p i (i + block.bytes.length) (block.meaning streams i : Meaning w σ) := by
  induction block generalizing i with
  | empty => exact realizes_skip
  | plain byte rest ih =>
      have hend : i + (Block.plain byte rest).bytes.length = i + 1 + rest.bytes.length := by
        simp only [bytes, List.length_cons]
        omega
      rw [hend]
      exact (realizes_plain h.head).seq (ih h.tail)
  | loop body rest ihBody ihRest =>
      have hend : i + (Block.loop body rest).bytes.length =
          i + 1 + body.bytes.length + 1 + rest.bytes.length := by
        simp only [bytes, List.length_cons, List.length_append]
        omega
      rw [hend]
      have hloop := (partners_of_holds h).realizes_repeat (ihBody h.tail.left)
      exact hloop.seq (ihRest h.tail.right.tail)

/-- The closing brackets of a layout are unmatched, whatever loops were open before. -/
theorem realizes_closed (closed : List Block) {e : Nat}
    (h : p.Holds i (Layout.closedBytes (closed.map Block.bytes)))
    (hfront : nesting e (p.slice 0 i) = some 0) :
    Realizes streams p i (i + (Layout.closedBytes (closed.map Block.bytes)).length)
      (Layout.closedMeaning streams i closed : Meaning w σ) := by
  induction closed generalizing i e with
  | nil => exact realizes_skip
  | cons block closed ih =>
      rw [List.map_cons, Layout.closedBytes_cons] at h ⊢
      have hend : i + (block.bytes ++ Instruction.closing.toByte ::
          Layout.closedBytes (closed.map Block.bytes)).length =
          i + block.bytes.length + 1 + (Layout.closedBytes (closed.map Block.bytes)).length := by
        simp only [List.length_append, List.length_cons]
        omega
      have hclosing := h.right.head
      have hbracket := Program.instruction?_eq_some_iff.mpr hclosing
      have hblock : nesting e (p.slice 0 (i + block.bytes.length)) = some 0 := by
        rw [← p.slice_append (Nat.zero_le i) (Nat.le_add_right i _), nesting_append, hfront,
          Option.bind_some, h.left.slice_eq]
        exact block.nesting_bytes 0
      -- A loop more that was open at the start is closed by the bracket.
      have hrest : nesting (e + 1) (p.slice 0 (i + block.bytes.length + 1)) = some 0 := by
        rw [Program.slice_succ (Nat.zero_le _) hclosing, nesting_concat, nesting_add hblock 1]
        exact tally_closing_succ 0
      rw [hend]
      refine (block.realizes h.left).seq (Realizes.seq ?_ (ih h.right.tail hrest))
      exact realizes_unopened hbracket (scanBackward_eq_none_of_nesting hbracket hblock)

/-- The opening brackets of a layout are unmatched up to the end of the program. -/
theorem realizes_opened (opened : List Block)
    (h : p.Holds i (Layout.openedBytes (opened.map Block.bytes)))
    (hend : i + (Layout.openedBytes (opened.map Block.bytes)).length = p.size) :
    Realizes streams p i p.size (Layout.openedMeaning streams i opened : Meaning w σ) := by
  induction opened generalizing i with
  | nil =>
      obtain rfl : i = p.size := by simpa using hend
      exact realizes_skip
  | cons block opened ih =>
      rw [List.map_cons, Layout.openedBytes_cons] at h hend
      have hbracket := Program.instruction?_eq_some_iff.mpr h.head
      have hlast : i + 1 + block.bytes.length +
          (Layout.openedBytes (opened.map Block.bytes)).length = p.size := by
        simp only [List.length_cons, List.length_append] at hend
        omega
      have hback : nesting 0 (p.slice (i + 1) p.size) = some opened.length := by
        have hslice := h.tail.slice_eq
        rw [List.length_append, ← Nat.add_assoc, hlast] at hslice
        rw [hslice, nesting_append, block.nesting_bytes, Option.bind_some,
          Layout.nesting_opened, Nat.zero_add]
      refine Realizes.seq ?_ ((block.realizes h.tail.left).seq (ih h.tail.right hlast))
      exact realizes_unclosed hbracket (scanForward_eq_none_of_nesting hbracket hback)

/-- The machine realizes the meaning of the layout of its program. -/
theorem Bracket.Layout.realizes {layout : Layout Block} (h : layout.texts.bytes = p.toList) :
    Realizes streams p 0 p.size (layout.meaning streams : Meaning w σ) := by
  obtain ⟨closed, middle, opened⟩ := layout
  have hholds : p.Holds 0 (closedBytes (closed.map Block.bytes) ++ middle.bytes ++
      openedBytes (opened.map Block.bytes)) := by
    rw [Program.Holds, List.drop_zero, ← h]
    exact List.prefix_rfl
  have hend : (closedBytes (closed.map Block.bytes)).length + middle.bytes.length +
      (openedBytes (opened.map Block.bytes)).length = p.size := by
    rw [← p.length_toList, ← h, bytes, List.length_append, List.length_append]
    rfl
  have hfront : nesting 0 (p.slice 0 0) = some 0 := by simp
  have hclosed : Realizes streams p 0 (0 + (closedBytes (closed.map Block.bytes)).length)
      (closedMeaning streams 0 closed : Meaning w σ) :=
    realizes_closed closed hholds.left.left hfront
  have hrest := hholds.left.right
  have hopened := hholds.right
  rw [Nat.zero_add] at hclosed hrest hopened
  rw [List.length_append] at hopened
  exact hclosed.seq ((middle.realizes hrest).seq (realizes_opened opened hopened hend))

/-- A run halts as a meaning says that is realized by the whole program. -/
theorem Realizes.halts_iff {meaning : Meaning w σ} (h : Realizes streams p 0 p.size meaning) :
    (∃ n pc, Halts streams p (.scanning p) n (a.placed 0) verdict (b.placed pc)) ↔
      meaning a verdict b := by
  have hdone : ∀ b : Store w σ,
      Halts streams p (.scanning p) 1 (b.placed p.size) .completed (b.placed p.size) := by
    intro b
    exact halts_succ_iff.mpr (.inl ⟨Machine.step_of_size_le (Nat.le_refl _), rfl⟩)
  constructor
  · intro hhalts
    obtain ⟨n, pc, hhalts⟩ := hhalts
    rcases h.covers hhalts with ⟨fault, hverdict, hfault⟩ | ⟨b₁, k, _, hb₁, hhalts⟩
    · subst hverdict
      exact hfault
    · obtain ⟨rfl, hplaced⟩ := hhalts.unique (hdone b₁)
      obtain rfl : b = b₁ := congrArg Configuration.store hplaced
      exact hb₁
  · intro hmeaning
    cases verdict with
    | completed =>
        obtain ⟨n, hreach⟩ := h.delivers hmeaning
        exact ⟨n + 1, p.size, hreach.halts (hdone b)⟩
    | faulted fault => exact h.delivers hmeaning

/-- The store in which an execution starts. -/
def Store.initial (options : Options) (s : σ) : Store options.cellWidth.bits σ :=
  ⟨Tape.blank options.cellWidth.bits options.tapeLength, s⟩

theorem Bracket.Layout.halts_iff {layout : Layout Block} {options : Options} {s : σ}
    (h : layout.texts.bytes = p.toList) (verdict : Verdict)
    (b : Store options.cellWidth.bits σ) :
    (∃ n pc, Halts streams p (options.brackets.matcher p) n (start options s) verdict
      (b.placed pc)) ↔ layout.meaning streams (.initial options s) verdict b := by
  have hstart : start options s = (Store.initial options s).placed 0 := rfl
  simp only [halts_matcher, hstart]
  exact (Layout.realizes h).halts_iff

/-- What an execution returns is the verdict of the meaning, and what it leaves behind is
the state of the streams after the closing part. -/
theorem Bracket.Layout.interpret_iff {layout : Layout Block} {settings : Settings}
    {options : Options} {s : σ} (h : layout.texts.bytes = p.toList)
    (hoptions : settings.prepare host = .ok options) (verdict : Verdict) (s' : σ) :
    (∃ n, (interpret host streams settings p n).runFrom s = (.ok (.ok (some verdict)), s')) ↔
      ∃ b, layout.meaning streams (.initial options s) verdict b ∧
        (closing streams verdict).runFrom b.world = (.ok (), s') := by
  simp only [interpret_yields_iff hoptions, ← Layout.halts_iff h]
  constructor
  · intro h
    obtain ⟨n, c, hrun, hclose⟩ := h
    exact ⟨c.store, ⟨n, c.machine.pc, hrun⟩, hclose⟩
  · intro h
    obtain ⟨b, ⟨n, pc, hrun⟩, hclose⟩ := h
    exact ⟨n, b.placed pc, hrun, hclose⟩

end

end Brainfuck
