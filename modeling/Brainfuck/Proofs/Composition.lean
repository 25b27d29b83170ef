import Brainfuck.Proofs.EventGrammar
import Brainfuck.Proofs.Reachability
import Brainfuck.Proofs.Relocation

/-!
# Programs one after another

A program whose brackets balance can be put in front of any other one. Its brackets find
their partners in itself, so its run does not look behind its end; and it offers no partner
to a bracket that comes later, so the brackets behind it are matched as if it were not there.
The run of both is therefore the run of the first, which either never comes to its end or
leaves a tape there, and then the run of the second from that tape, with its positions moved
by the length of the first.

Only the first program has to be balanced. The second one may fault at any of its brackets.
-/
namespace Brainfuck

open Brainfuck.Bracket

variable {host : Host}

namespace Program

/-- One program and behind it another one. -/
def append (p q : Program) : Program := ⟨p.bytes ++ q.bytes⟩

instance : Append Program := ⟨append⟩

variable {p q : Program} {pc i j : Nat}

@[simp] theorem toList_append (p q : Program) : (p ++ q).toList = p.toList ++ q.toList :=
  Array.toList_append

@[simp] theorem size_append (p q : Program) : (p ++ q).size = p.size + q.size :=
  Array.size_append

theorem instruction?_append_left (h : pc < p.size) :
    (p ++ q).instruction? pc = p.instruction? pc := by
  rw [instruction?_eq, instruction?_eq, toList_append,
    List.getElem?_append_left (by rwa [length_toList])]

theorem instruction?_append_right (p q : Program) (pc : Nat) :
    (p ++ q).instruction? (p.size + pc) = q.instruction? pc := by
  rw [instruction?_eq, instruction?_eq, toList_append, ← p.length_toList,
    List.getElem?_append_right (Nat.le_add_right _ _), Nat.add_sub_cancel_left]

theorem slice_append_left (h : j ≤ p.size) : (p ++ q).slice i j = p.slice i j := by
  unfold slice
  rw [toList_append, List.take_append_of_le_length (by rwa [length_toList])]

theorem slice_append_right (p q : Program) (i j : Nat) :
    (p ++ q).slice (p.size + i) (p.size + j) = q.slice i j := by
  unfold slice
  rw [toList_append, ← p.length_toList, List.take_length_add_append, List.drop_length_add_append]

end Program

namespace Bracket

variable {p q : Program} {i j : Nat}

theorem Partners.append_left (h : Partners p i j) (q : Program) : Partners (p ++ q) i j where
  lt := h.lt
  opening := by
    have hi := Program.lt_size_of_instruction?_eq_some h.opening
    rw [Program.instruction?_append_left hi, h.opening]
  closing := by
    have hj := Program.lt_size_of_instruction?_eq_some h.closing
    rw [Program.instruction?_append_left hj, h.closing]
  balanced := by
    have hj := Program.lt_size_of_instruction?_eq_some h.closing
    rw [Program.slice_append_left (Nat.le_of_lt hj)]
    exact h.balanced

theorem partners_append_right :
    Partners (p ++ q) (p.size + i) (p.size + j) ↔ Partners q i j := by
  have hslice := p.slice_append_right q (i + 1) j
  have hopening := p.instruction?_append_right q i
  have hclosing := p.instruction?_append_right q j
  constructor
  · intro h
    refine ⟨Nat.lt_of_add_lt_add_left h.lt, hopening ▸ h.opening, hclosing ▸ h.closing, ?_⟩
    rw [← hslice]
    exact h.balanced
  · intro h
    refine ⟨Nat.add_lt_add_left h.lt _, hopening.trans h.opening, hclosing.trans h.closing, ?_⟩
    rw [Nat.add_assoc, hslice]
    exact h.balanced

/-- A loop that a balanced program opens is closed in it. -/
theorem Partners.size_le (hp : Balanced p.toList) (h : Partners (p ++ q) i (p.size + j)) :
    p.size ≤ i := by
  by_contra hlt
  have hi : p.instruction? i = some .opening := by
    rw [← Program.instruction?_append_left (q := q) (Nat.lt_of_not_le hlt), h.opening]
  -- The partner in the program itself would be another one.
  obtain ⟨k, hk⟩ := exists_closing_of_balanced hp hi
  have hk' := (scanForward_eq_some_iff h.opening).mpr (hk.append_left q)
  have hj := (scanForward_eq_some_iff h.opening).mpr h
  have hsize := Program.lt_size_of_instruction?_eq_some hk.closing
  have heq : k = p.size + j := Option.some.inj (hk'.symm.trans hj)
  omega

theorem scanForward_append_right (hi : q.instruction? i = some .opening) :
    scanForward (p ++ q) (p.size + i : Nat) = (scanForward q i).map (p.size + ·) := by
  have hi' := (p.instruction?_append_right q i).trans hi
  ext k
  rw [scanForward_eq_some_iff hi', Option.map_eq_some_iff]
  simp only [scanForward_eq_some_iff hi]
  constructor
  · intro h
    have hlt := h.lt
    obtain ⟨j, rfl⟩ : ∃ j, k = p.size + j := ⟨k - p.size, by omega⟩
    exact ⟨j, partners_append_right.mp h, rfl⟩
  · rintro ⟨j, h, rfl⟩
    exact partners_append_right.mpr h

theorem scanBackward_append_right (hp : Balanced p.toList)
    (hj : q.instruction? j = some .closing) :
    scanBackward (p ++ q) (p.size + j : Nat) = (scanBackward q j).map (p.size + ·) := by
  have hj' := (p.instruction?_append_right q j).trans hj
  ext k
  rw [scanBackward_eq_some_iff hj', Option.map_eq_some_iff]
  simp only [scanBackward_eq_some_iff hj]
  constructor
  · intro h
    have hle := h.size_le hp
    obtain ⟨i, rfl⟩ : ∃ i, k = p.size + i := ⟨k - p.size, by omega⟩
    exact ⟨i, partners_append_right.mp h, rfl⟩
  · rintro ⟨i, h, rfl⟩
    exact partners_append_right.mpr h

end Bracket

namespace Program

variable {p q : Program}

/-- A balanced program is the same with something behind it. -/
theorem sameAt_append_left (hp : Balanced p.toList) {pc : Nat} (hpc : pc < p.size) :
    SameAt id id p (p ++ q) pc where
  ends hdone := absurd hpc (Nat.not_lt_of_le hdone)
  inside _ := by
    rw [size_append]
    exact Nat.lt_add_right _ hpc
  instruction := instruction?_append_left
  behind _ _ := rfl
  closing hi := by
    obtain ⟨j, hj⟩ := exists_closing_of_balanced hp hi
    have hj' := hj.append_left q
    rw [(scanForward_eq_some_iff hi).mpr hj, id, (scanForward_eq_some_iff hj'.opening).mpr hj']
    rfl
  opening hi := by
    obtain ⟨j, hj⟩ := exists_opening_of_balanced hp hi
    have hj' := hj.append_left q
    rw [(scanBackward_eq_some_iff hi).mpr hj, id, (scanBackward_eq_some_iff hj'.closing).mpr hj']
    rfl

/-- A program is the same behind a balanced one, further to the right. -/
theorem sameAt_append_right (hp : Balanced p.toList) (pc : Nat) :
    SameAt (p.size + ·) (p.size + ·) q (p ++ q) pc where
  ends hdone := by
    rw [size_append]
    exact Nat.add_le_add_left hdone _
  inside hpc := by
    rw [size_append]
    exact Nat.add_lt_add_left hpc _
  instruction _ := instruction?_append_right p q pc
  behind _ _ := rfl
  closing := scanForward_append_right
  opening := scanBackward_append_right hp

end Program

namespace Machine

variable {w : Nat}

/-- The machine at the same place of a program that stands behind `k` octets. -/
def shift (k : Nat) (machine : Machine w) : Machine w := ⟨k + machine.pc, machine.tape⟩

end Machine

/-- The verdict with its position moved to the right. -/
def Verdict.shift (k : Nat) (verdict : Verdict) : Verdict :=
  verdict.move fun position => k + position

def Action.shift {w : Nat} (k : Nat) : Action w → Action w
  | .advance next => .advance (next.shift k)
  | .write byte next => .write byte (next.shift k)
  | .read next => .read (next.shift k)
  | .stop verdict final => .stop (verdict.shift k) (final.shift k)

section
variable {w : Nat}

theorem Action.relocate_id (action : Action w) : action.relocate id id id = action := by
  rcases action with _ | _ | _ | ⟨_ | ⟨_ | _ | _⟩, _⟩ <;> rfl

theorem Action.relocate_shift (k : Nat) (action : Action w) :
    action.relocate (k + ·) (k + ·) (k + ·) = action.shift k := by
  cases action <;> rfl

theorem Action.matches_self (action : Action w) : action.Matches Eq id action := by
  cases action with
  | advance next => exact .advance rfl
  | write byte next => exact .write rfl
  | read next => exact .read fun _ => rfl
  | stop verdict final => exact .stop rfl

theorem Action.matches_shift (k : Nat) (action : Action w) :
    action.Matches (fun machine machine' => machine' = machine.shift k) (Verdict.shift k)
      (action.shift k) := by
  cases action with
  | advance next => exact .advance rfl
  | write byte next => exact .write rfl
  | read next => exact .read fun _ => rfl
  | stop verdict final => exact .stop rfl

end

namespace Machine

variable {w : Nat} {p q : Program} {machine : Machine w}

/-- Inside a balanced program a step does not depend on what stands behind. -/
theorem step_append_left (hp : Balanced p.toList) (hpc : machine.pc < p.size) :
    machine.step (p ++ q) (.scanning (p ++ q)) = machine.step p (.scanning p) :=
  (step_relocate (Program.sameAt_append_left hp hpc) rfl).trans (Action.relocate_id _)

/-- Behind a balanced program a step is a step of what stands there. -/
theorem step_append_right (hp : Balanced p.toList) (machine : Machine w) :
    (machine.shift p.size).step (p ++ q) (.scanning (p ++ q)) =
      (machine.step q (.scanning q)).shift p.size :=
  (step_relocate (Program.sameAt_append_right hp machine.pc) (Int.natCast_add _ _).symm).trans
    (Action.relocate_shift p.size _)

end Machine

section
variable {ε σ : Type} {w : Nat}

theorem InLockstep.eq {x y : Except ε (Progress w) × σ} (h : InLockstep Eq id x y) : y = x := by
  cases h with
  | fails => rfl
  | yields hmatches =>
      cases hmatches with
      | running hmachine => rw [hmachine]
      | stopped hmachine => rw [hmachine]; rfl

end

namespace Recorded

variable {ε σ α : Type}

/-- One record and behind it another one. -/
def after (first r : Recorded σ) : Recorded σ := first.extend r.world r.trace.toList

theorem after_start (first : Recorded σ) : first.after (.start first.world) = first := by
  simp [after, extend, start]

theorem after_extend (first r : Recorded σ) (world : σ) (events : List Event) :
    first.after (r.extend world events) = (first.after r).extend world events := by
  unfold after
  rw [trace_extend, extend_extend]
  rfl

@[simp] theorem trace_after (first r : Recorded σ) :
    (first.after r).trace.toList = first.trace.toList ++ r.trace.toList :=
  trace_extend first r.world _

/-- What succeeds on a record succeeds in the same way behind another one. -/
def behind (ε : Type) (first : Recorded σ) :
    Simulation (Effect ε (Recorded σ)) (Effect ε (Recorded σ)) where
  Rel V x y := ∀ r a r', x.runFrom r = (.ok a, r') →
    ∃ b, V a b ∧ y.runFrom (first.after r) = (.ok b, first.after r')
  pure {_ _ _ b} h := by
    rintro r _ _ ⟨⟩
    exact ⟨b, h, rfl⟩
  bind _ hx hfg := by
    intro r b r' h
    obtain ⟨a, r₁, hxr, hf⟩ := Effect.bind_yields_iff.mp h
    obtain ⟨a', hab, hy⟩ := hx _ _ _ hxr
    obtain ⟨b', hb, hg⟩ := hfg _ _ hab _ _ _ hf
    exact ⟨b', hb, Effect.bind_yields_iff.mpr ⟨a', _, hy, hg⟩⟩

/-- A call does not look at the calls before it. -/
theorem behind_of_extend {V : α → α → Prop} (hV : ∀ a, V a a) {x : Effect ε (Recorded σ) α}
    (call : Effect ε σ α) (events : Except ε α → List Event)
    (hx : ∀ r, x.runFrom r = ((call.runFrom r.world).1,
      r.extend (call.runFrom r.world).2 (events (call.runFrom r.world).1)))
    (first : Recorded σ) : (behind ε first).Rel V x x := by
  intro r a r' h
  rw [hx r] at h
  obtain ⟨hok, rfl⟩ := Prod.mk.inj h
  refine ⟨a, hV a, ?_⟩
  rw [hx, after_extend, show (first.after r).world = r.world from rfl, hok]

theorem behind_sink (write : List UInt8 → Event) (flush : Event) (s : Sink (Effect ε σ))
    (first : Recorded σ) :
    (sink write flush s).Related (behind ε first) (sink write flush s) where
  write bytes := behind_of_extend (fun _ => rfl) (s.write bytes) (fun _ => [write bytes])
    (runFrom_note_lift (write bytes) _) first
  flush := behind_of_extend (fun _ => rfl) s.flush (fun _ => s.flushEvents flush)
    (runFrom_flush write flush s) first

/-- The event of a read that has returned. -/
def readEvents : Except ε (Option Int) → List Event
  | .ok value => [.read value]
  | .error _ => [.readFailed]

theorem behind_streams (s : Streams (Effect ε σ)) (first : Recorded σ) (w : Nat) :
    (streams s).Related (behind ε first) w (streams s) where
  read := by
    refine behind_of_extend (SameCell.refl w) s.read readEvents (fun r => ?_) first
    rw [show (streams s).read = read s.read from rfl, runFrom_read]
    rcases s.read.runFrom r.world with ⟨error | value, world⟩ <;> rfl
  out := behind_sink .outWrite .outFlush s.out first

end Recorded

namespace Execution

variable {ε σ : Type} {w : Nat} {streams : Streams (Effect ε σ)} {p q : Program}
variable {brackets : Matcher} {n : Nat}

section
variable {machine : Machine w} {r r' : Recorded σ} {c : Configuration w (Recorded σ)}

theorem runFor_behind {progress : Progress w}
    (h : (runFor (Recorded.streams streams) p brackets n machine).runFrom r = (.ok progress, r'))
    (first : Recorded σ) :
    (runFor (Recorded.streams streams) p brackets n machine).runFrom (first.after r) =
      (.ok progress, first.after r') := by
  have hrel := rel_runFor (Recorded.behind_streams streams first w) p brackets n machine
  obtain ⟨_, rfl, hrun⟩ := hrel r progress r' h
  exact hrun

theorem Reaches.behind (h : Reaches (Recorded.streams streams) p brackets n ⟨machine, r⟩ c)
    (first : Recorded σ) :
    Reaches (Recorded.streams streams) p brackets n ⟨machine, first.after r⟩
      ⟨c.machine, first.after c.world⟩ :=
  runFor_behind h first

theorem Halts.behind {verdict : Verdict}
    (h : Halts (Recorded.streams streams) p brackets n ⟨machine, r⟩ verdict c)
    (first : Recorded σ) :
    Halts (Recorded.streams streams) p brackets n ⟨machine, first.after r⟩ verdict
      ⟨c.machine, first.after c.world⟩ :=
  runFor_behind h first

end

section
variable {c c₁ : Configuration w σ} {verdict : Verdict}

/-- A balanced program runs in front of another one as it runs alone, up to its end. -/
theorem completed_or_runFor_append (streams : Streams (Effect ε σ)) (hp : Balanced p.toList)
    (q : Program) (n : Nat) (c : Configuration w σ) :
    (∃ c₁, Halts streams p (.scanning p) n c .completed c₁) ∨
      (runFor streams (p ++ q) (.scanning (p ++ q)) n c.machine).runFrom c.world =
        (runFor streams p (.scanning p) n c.machine).runFrom c.world := by
  have hstep : ∀ machine machine' : Machine w, machine = machine' →
      p.size ≤ machine.pc ∨ (machine.step p (.scanning p)).Matches Eq id
        (machine'.step (p ++ q) (.scanning (p ++ q))) := by
    rintro machine _ rfl
    rcases Nat.lt_or_ge machine.pc p.size with hpc | hpc
    · rw [Machine.step_append_left hp hpc]
      exact .inr (Action.matches_self _)
    · exact .inl hpc
  rcases lockstep_or_parting streams hstep rfl n c.world with ⟨k, hk, c₁, hreach, hpc⟩ | hrun
  · have hlast : Halts streams p (.scanning p) 1 c₁ .completed c₁ :=
      halts_succ_iff.mpr (.inl ⟨Machine.step_of_size_le hpc, rfl⟩)
    exact .inl ⟨c₁, (hreach.halts hlast).mono hk⟩
  · exact .inr hrun.eq

theorem Reaches.append (h : Reaches streams p (.scanning p) n c c₁) (hp : Balanced p.toList)
    (q : Program) : Reaches streams (p ++ q) (.scanning (p ++ q)) n c c₁ := by
  rcases completed_or_runFor_append streams hp q n c with ⟨c', hhalts⟩ | hrun
  · exact nomatch h.symm.trans hhalts
  · exact hrun.trans h

/-- A program behind a balanced one runs as it runs alone, at positions further to the right. -/
theorem lockstep_append (streams : Streams (Effect ε σ)) (hp : Balanced p.toList) (q : Program)
    (n : Nat) (c : Configuration w σ) :
    InLockstep (fun machine machine' => machine' = machine.shift p.size) (Verdict.shift p.size)
      ((runFor streams q (.scanning q) n c.machine).runFrom c.world)
      ((runFor streams (p ++ q) (.scanning (p ++ q)) n (c.machine.shift p.size)).runFrom
        c.world) := by
  apply lockstep
  · rintro machine _ rfl
    rw [Machine.step_append_right hp]
    exact Action.matches_shift p.size _
  · rfl

theorem Reaches.shift (h : Reaches streams q (.scanning q) n c c₁) (hp : Balanced p.toList) :
    Reaches streams (p ++ q) (.scanning (p ++ q)) n ⟨c.machine.shift p.size, c.world⟩
      ⟨c₁.machine.shift p.size, c₁.world⟩ := by
  obtain ⟨_, rfl, hreach⟩ := h.of_lockstep (lockstep_append streams hp q n c)
  exact hreach

theorem Halts.shift (h : Halts streams q (.scanning q) n c verdict c₁) (hp : Balanced p.toList) :
    Halts streams (p ++ q) (.scanning (p ++ q)) n ⟨c.machine.shift p.size, c.world⟩
      (verdict.shift p.size) ⟨c₁.machine.shift p.size, c₁.world⟩ := by
  obtain ⟨_, rfl, hhalts⟩ := h.of_lockstep (lockstep_append streams hp q n c)
  exact hhalts

end

section
variable {settings : Settings} {options : Options} {s : σ}
variable {c : Configuration options.cellWidth.bits σ}

/-- Executions of a balanced program, alone and in front of another one, are the same unless
the program completes. -/
theorem completed_or_interpret_append (streams : Streams (Effect ε σ))
    (hoptions : settings.prepare host = .ok options) (hp : Balanced p.toList) (q : Program)
    (n : Nat) (s : σ) :
    (∃ c, Halts streams p (options.brackets.matcher p) n (start options s) .completed c) ∨
      (runFor streams (p ++ q) (options.brackets.matcher (p ++ q)) n
          (Machine.initial options.tape)).runFrom s =
        (runFor streams p (options.brackets.matcher p) n
          (Machine.initial options.tape)).runFrom s ∧
      (interpret host streams settings (p ++ q) n).runFrom s =
        (interpret host streams settings p n).runFrom s := by
  have hrun := completed_or_runFor_append streams hp q n (start options s)
  simp only [← halts_matcher options.brackets, ← runFor_matcher streams _ options.brackets] at hrun
  refine hrun.imp_right fun hrun => ⟨hrun, ?_⟩
  have hattempt : (attempt streams options (p ++ q) n).runFrom s =
      (attempt streams options p n).runFrom s := by
    rw [runFrom_attempt hrun, runFrom_attempt rfl]
  rw [runFrom_interpret streams hoptions, runFrom_interpret streams hoptions, hattempt]

/-- A program that completes does so right behind its last octet. -/
theorem Halts.pc_eq (h : Halts streams p (options.brackets.matcher p) n (start options s)
    .completed c) (hoptions : settings.prepare host = .ok options) : c.machine.pc = p.size := by
  obtain ⟨hstep, _, _, hreach⟩ := h.exists_reaches
  have hle := (hreach.inBounds hoptions).pc_le
  cases Machine.step_eq_iff.mp hstep with
  | done hge => exact Nat.le_antisymm hle hge

/-- A balanced program that completes hands its tape to the program behind it. -/
theorem Halts.reaches_append (h : Halts streams p (options.brackets.matcher p) n
    (start options s) .completed c) (hoptions : settings.prepare host = .ok options)
    (hp : Balanced p.toList) (q : Program) :
    ∃ k < n, Reaches streams (p ++ q) (.scanning (p ++ q)) k (start options s)
      ⟨Machine.shift p.size ⟨0, c.machine.tape⟩, c.world⟩ := by
  have hpc := h.pc_eq hoptions
  obtain ⟨_, k, hk, hreach⟩ := h.exists_reaches
  refine ⟨k, hk, ?_⟩
  have hshift : Machine.shift p.size ⟨0, c.machine.tape⟩ = c.machine := by
    rw [Machine.shift, Nat.add_zero, ← hpc]
  rw [hshift]
  exact ((reaches_matcher _).mp hreach).append hp q

end

end Execution

end Brainfuck
