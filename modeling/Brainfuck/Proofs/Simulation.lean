import Brainfuck.Proofs.Runs

/-!
# Simulations between streams

A run knows its streams only through the monad they act in. A simulation relates the
computations of two monads, clause by clause for the two ways of building them, and a run
on one side is then related to the same run on the other as soon as the single calls of
the streams are. What the relation says about states, failures and traces is left open.

The values read on the two sides need not be equal: a machine keeps only the bits of a
value that fit its cell. All other values are equal on both sides.
-/
namespace Brainfuck

open Brainfuck.Bracket

variable {host : Host}

/-- A relation between the computations of two monads. `Rel V x y` says that `x` and `y`
behave alike and that the values they return are related by `V`. -/
structure Simulation (m n : Type → Type) [Monad m] [Monad n] where
  Rel : {α : Type} → (α → α → Prop) → m α → n α → Prop
  pure : ∀ {α : Type} {V : α → α → Prop} {a b : α}, V a b → Rel V (pure a) (pure b)
  /-- The values that are handed on are related to themselves. This lets a simulation
  speak of a computation that goes on after the other side has ended. -/
  bind : ∀ {α β : Type} {V : α → α → Prop} {W : β → β → Prop} {x : m α} {y : n α}
    {f : α → m β} {g : α → n β}, (∀ a, V a a) → Rel V x y →
    (∀ a b, V a b → Rel W (f a) (g b)) → Rel W (x >>= f) (y >>= g)

/-- Two read values that leave the same cell behind; the end of input counts as zero. -/
def SameCell (w : Nat) (a b : Option Int) : Prop :=
  BitVec.ofInt w (a.getD 0) = BitVec.ofInt w (b.getD 0)

theorem SameCell.refl (w : Nat) (a : Option Int) : SameCell w a a := rfl

theorem SameCell.supply_eq {w : Nat} {a b : Option Int} (h : SameCell w a b)
    (machine : Machine w) : machine.supply (a.getD 0) = machine.supply (b.getD 0) := by
  unfold Machine.supply Tape.store
  rw [show BitVec.ofInt w (a.getD 0) = BitVec.ofInt w (b.getD 0) from h]

section
variable {m n : Type → Type} [Monad m] [Monad n]

/-- The calls on two sinks are related. -/
structure Sink.Related (S : Simulation m n) (s : Sink m) (t : Sink n) : Prop where
  write : ∀ bytes, S.Rel Eq (s.write bytes) (t.write bytes)
  flush : S.Rel Eq s.flush t.flush

/-- The calls that a run makes are related: reads, and the calls on the output. -/
structure Streams.Related (S : Simulation m n) (w : Nat) (s : Streams m) (t : Streams n) :
    Prop where
  read : S.Rel (SameCell w) s.read t.read
  out : s.out.Related S t.out

end

namespace Execution

/-- A run and the report of its fault: all of an execution but its last flush. -/
def attempt {m : Type → Type} [Monad m] (streams : Streams m) (options : Options) (p : Program)
    (budget : Nat) : m (Option Verdict) :=
  runFor streams p (options.brackets.matcher p) budget
    (Machine.initial options.tape) >>= conclude streams

theorem runFrom_attempt {ε σ : Type} {streams : Streams (Effect ε σ)} {options : Options}
    {p : Program} {k : Nat} {s s₁ : σ} {outcome : Except ε (Progress options.cellWidth.bits)}
    (h : (runFor streams p (options.brackets.matcher p) k
      (Machine.initial options.tape)).runFrom s = (outcome, s₁)) :
    (attempt streams options p k).runFrom s =
      match (outcome, s₁) with
      | (.ok progress, s') => (conclude streams progress).runFrom s'
      | (.error error, s') => (.error error, s') := by
  unfold attempt
  rw [Effect.runFrom_bind, h]
  rcases outcome with error | progress <;> rfl

/-- An execution is its attempt and the last flush, whose error counts if there is one. -/
theorem runFrom_interpret {ε σ : Type} (streams : Streams (Effect ε σ)) {settings : Settings}
    {options : Options} (hoptions : settings.prepare host = .ok options) (p : Program) (k : Nat)
    (s : σ) :
    (interpret host streams settings p k).runFrom s =
      match streams.out.flush.runFrom ((attempt streams options p k).runFrom s).2 with
      | (.ok _, s') => (((attempt streams options p k).runFrom s).1.map .ok, s')
      | (.error error, s') => (.error error, s') := by
  have hexecute : execute streams options p k =
      tryFinally (attempt streams options p k) streams.out.flush := rfl
  unfold interpret
  rw [hoptions]
  dsimp only
  rw [hexecute, map_eq_pure_bind, Effect.runFrom_bind, Effect.runFrom_tryFinally]
  rcases (attempt streams options p k).runFrom s with ⟨_ | result, s₁⟩ <;>
    rcases streams.out.flush.runFrom s₁ with ⟨_ | _, s₂⟩ <;> rfl

/-- An attempt that has ended, with a verdict or an error, ends alike with a larger budget. -/
theorem attempt_add {ε σ : Type} {streams : Streams (Effect ε σ)} {options : Options}
    {p : Program} {n : Nat} {s : σ} (h : ((attempt streams options p n).runFrom s).1 ≠ .ok none)
    (k : Nat) :
    (attempt streams options p (n + k)).runFrom s = (attempt streams options p n).runFrom s := by
  unfold attempt at h ⊢
  rw [Effect.runFrom_bind] at h
  rw [runFor_add, bind_assoc, Effect.runFrom_bind, Effect.runFrom_bind]
  rcases hrun : (runFor streams p (options.brackets.matcher p) n
    (Machine.initial options.tape)).runFrom s with ⟨_ | progress, s₁⟩
  · rfl
  · cases progress with
    | running machine => simp [hrun, conclude] at h
    | stopped verdict final => rfl

variable {m n : Type → Type} [Monad m] [Monad n] {S : Simulation m n} {w : Nat}
variable {s : Streams m} {t : Streams n}

theorem rel_runFor (h : s.Related S w t) (p : Program) (brackets : Matcher) (k : Nat)
    (machine : Machine w) :
    S.Rel Eq (runFor s p brackets k machine) (runFor t p brackets k machine) := by
  induction k generalizing machine with
  | zero => exact S.pure rfl
  | succ k ih =>
      simp only [runFor]
      cases machine.step p brackets with
      | advance next => exact ih next
      | write byte next =>
          apply S.bind (fun _ => rfl) (h.out.write [byte])
          intro _ _ _
          exact ih next
      | read next =>
          apply S.bind (fun _ => rfl) h.out.flush
          intro _ _ _
          apply S.bind (SameCell.refl w) h.read
          intro a b hab
          rw [hab.supply_eq next]
          exact ih (next.supply (b.getD 0))
      | stop verdict final => exact S.pure rfl

theorem rel_report (hout : s.out.Related S t.out) (hlog : s.log.Related S t.log)
    (fault : Fault) : S.Rel Eq (report s fault) (report t fault) := by
  apply S.bind (fun _ => rfl) hout.flush
  intro _ _ _
  apply S.bind (fun _ => rfl) (hlog.write (Utf8.encode fault.line))
  intro _ _ _
  exact hlog.flush

theorem rel_conclude (hout : s.out.Related S t.out) (hlog : s.log.Related S t.log)
    (progress : Progress w) : S.Rel Eq (conclude s progress) (conclude t progress) := by
  cases progress with
  | running machine => exact S.pure rfl
  | stopped verdict final =>
      cases verdict with
      | completed => exact S.pure rfl
      | faulted fault =>
          apply S.bind (fun _ => rfl) (rel_report hout hlog fault)
          intro _ _ _
          exact S.pure rfl

theorem rel_attempt {options : Options} (h : s.Related S options.cellWidth.bits t)
    (hlog : s.log.Related S t.log) (p : Program) (k : Nat) :
    S.Rel Eq (attempt s options p k) (attempt t options p k) := by
  apply S.bind (fun _ => rfl) (rel_runFor h p _ k _)
  rintro progress _ rfl
  exact rel_conclude h.out hlog progress

/-- Where the last action of both sides may be added to related computations, whole
executions are related. -/
theorem rel_interpret [LawfulMonad m] [LawfulMonad n] [MonadFinally m] [MonadFinally n]
    (hfinally : ∀ {x : m (Option Verdict)} {y : n (Option Verdict)}, S.Rel Eq x y →
      S.Rel Eq (tryFinally x s.out.flush) (tryFinally y t.out.flush))
    {settings : Settings}
    (h : ∀ options, settings.prepare host = .ok options → s.Related S options.cellWidth.bits t)
    (hlog : s.log.Related S t.log) (p : Program) (k : Nat) :
    S.Rel Eq (interpret host s settings p k) (interpret host t settings p k) := by
  unfold interpret
  cases hoptions : settings.prepare host with
  | error error => exact S.pure rfl
  | ok options =>
      dsimp only
      rw [map_eq_pure_bind, map_eq_pure_bind]
      apply S.bind (fun _ => rfl) (hfinally (rel_attempt (h options hoptions) hlog p k))
      rintro result _ rfl
      exact S.pure rfl

end Execution

end Brainfuck
