import Brainfuck.InMemory
import Brainfuck.Proofs.Recording
import Brainfuck.Proofs.Simulation
import Brainfuck.Stream.Script
import Mathlib.Data.Int.ModEq

/-!
# What an execution learns about its input

A cell keeps the low bits of a value that is read into it, and the end of input leaves a
zero. Two executions whose reads return values with the same low bits therefore stay
together: they make the same calls in the same order and return the same.

The sources are not restricted otherwise. They may share a state with the sinks and look
at everything that happened before, and they may fail; only the values that the two
executions are given are compared, read by read and as far as both have come. Input in
memory is a case of this. Zero bytes behind an input read like its end, and bytes that an
execution does not come to read make no difference.
-/
namespace Brainfuck

variable {host : Host}

/-- Whether a call asks the input for a value. -/
def Event.isRead : Event → Bool
  | .read _ => true
  | .readFailed => true
  | _ => false

/-- An event without the value that was read. -/
def Event.erased : Event → Event
  | .read _ => .read none
  | event => event

/-- Two reads that returned values with the same low bits; the end of input counts as zero. -/
def Event.Congruent (w : Nat) (a b : Event) : Prop :=
  ∃ v v', a = .read v ∧ b = .read v' ∧ v.getD 0 ≡ v'.getD 0 [ZMOD 2 ^ w]

theorem sameCell_of_modEq {w : Nat} {v v' : Option Int}
    (h : v.getD 0 ≡ v'.getD 0 [ZMOD 2 ^ w]) : SameCell w v v' := by
  apply BitVec.eq_of_toNat_eq
  have hpow : ((2 ^ w : Nat) : Int) = 2 ^ w := Nat.cast_pow 2 w
  rw [BitVec.toNat_ofInt, BitVec.toNat_ofInt, hpow, h.eq]

namespace Recorded

variable {σ τ : Type}

/-- The reads made so far. -/
def reads (r : Recorded σ) : List Event := r.trace.toList.filter Event.isRead

/-- The calls made so far, without the values that were read. -/
def calls (r : Recorded σ) : List Event := r.trace.toList.map Event.erased

/-- The reads of two records are congruent, as far as both have come. -/
def ReadsAgree (w : Nat) (r : Recorded σ) (r' : Recorded τ) : Prop :=
  ∀ (j : Nat) (a b : Event), r.reads[j]? = some a → r'.reads[j]? = some b → a.Congruent w b

@[simp] theorem reads_extend (r : Recorded σ) (world : σ) (events : List Event) :
    (r.extend world events).reads = r.reads ++ events.filter Event.isRead := by
  simp [reads]

@[simp] theorem calls_extend (r : Recorded σ) (world : σ) (events : List Event) :
    (r.extend world events).calls = r.calls ++ events.map Event.erased := by
  simp [calls]

theorem length_reads (r : Recorded σ) : r.reads.length = r.calls.countP Event.isRead := by
  have herased : Event.isRead ∘ Event.erased = Event.isRead := by
    funext event
    cases event <;> rfl
  unfold reads calls
  rw [List.countP_map, herased, List.countP_eq_length_filter]

theorem ReadsAgree.of_prefix {w : Nat} {r₁ r₂ : Recorded σ} {r₁' r₂' : Recorded τ}
    (h : ReadsAgree w r₂ r₂') (hr : r₁.trace.toList <+: r₂.trace.toList)
    (hr' : r₁'.trace.toList <+: r₂'.trace.toList) : ReadsAgree w r₁ r₁' := by
  have hmono : ∀ {first second : List Event} {j : Nat} {event : Event}, first <+: second →
      first[j]? = some event → second[j]? = some event := by
    rintro first _ j event ⟨rest, rfl⟩ hj
    obtain ⟨hlt, _⟩ := List.getElem?_eq_some_iff.mp hj
    rwa [List.getElem?_append_left hlt]
  intro j a b ha hb
  exact h j a b (hmono (hr.filter _) ha) (hmono (hr'.filter _) hb)

end Recorded

/-- No call on the sink fails. -/
structure Sink.NeverFails {ε σ : Type} (sink : Sink (Effect ε σ)) : Prop where
  write : ∀ bytes s, ∃ s', (sink.write bytes).runFrom s = (.ok (), s')
  flush : ∀ s, ∃ s', sink.flush.runFrom s = (.ok (), s')

/-- Sinks that do not fail and are flushed alike, beside sources of any kind. -/
structure Streams.SinksAlike {ε σ τ : Type} (s : Streams (Effect ε σ)) (t : Streams (Effect ε τ)) :
    Prop where
  out : s.out.NeverFails
  out' : t.out.NeverFails
  log : s.log.NeverFails
  log' : t.log.NeverFails
  outFlushes : t.outFlushes = s.outFlushes
  logFlushes : t.logFlushes = s.logFlushes

namespace Noninterference

variable {ε σ τ α β : Type} {w : Nat}

/-- Two computations that cannot be told apart by their calls, provided that the values
they read are congruent. Then neither of them fails. -/
structure Indistinct (w : Nat) (V : α → α → Prop) (x : Effect ε (Recorded σ) α)
    (y : Effect ε (Recorded τ) α) : Prop where
  grows : ∀ r, r.trace.toList <+: (x.runFrom r).2.trace.toList
  grows' : ∀ r, r.trace.toList <+: (y.runFrom r).2.trace.toList
  agree : ∀ r r', r'.calls = r.calls → (x.runFrom r).2.ReadsAgree w (y.runFrom r').2 →
    ∃ a b, (x.runFrom r).1 = .ok a ∧ (y.runFrom r').1 = .ok b ∧ V a b ∧
      (y.runFrom r').2.calls = (x.runFrom r).2.calls

section
variable {x : Effect ε (Recorded σ) α} {f : α → Effect ε (Recorded σ) β}
variable {g : Effect ε (Recorded σ) Unit}

/-- What follows a computation only adds to its trace. -/
theorem prefix_bind (hf : ∀ a r, r.trace.toList <+: ((f a).runFrom r).2.trace.toList)
    (r : Recorded σ) :
    (x.runFrom r).2.trace.toList <+: ((x >>= f).runFrom r).2.trace.toList := by
  rw [Effect.runFrom_bind]
  rcases x.runFrom r with ⟨error | a, r₁⟩
  · exact List.prefix_rfl
  · exact hf a r₁

theorem prefix_tryFinally (hg : ∀ r, r.trace.toList <+: (g.runFrom r).2.trace.toList)
    (r : Recorded σ) :
    (x.runFrom r).2.trace.toList <+: ((tryFinally x g).runFrom r).2.trace.toList := by
  rw [Effect.state_tryFinally]
  exact hg (x.runFrom r).2

end

theorem Indistinct.pure {V : α → α → Prop} {a b : α} (h : V a b) :
    Indistinct w V (pure a : Effect ε (Recorded σ) α) (pure b : Effect ε (Recorded τ) α) where
  grows _ := List.prefix_rfl
  grows' _ := List.prefix_rfl
  agree _ _ hcalls _ := ⟨a, b, rfl, rfl, h, hcalls⟩

theorem Indistinct.bind {V : α → α → Prop} {W : β → β → Prop} {x : Effect ε (Recorded σ) α}
    {y : Effect ε (Recorded τ) α} {f : α → Effect ε (Recorded σ) β}
    {g : α → Effect ε (Recorded τ) β} (hV : ∀ a, V a a) (h : Indistinct w V x y)
    (hfg : ∀ a b, V a b → Indistinct w W (f a) (g b)) :
    Indistinct w W (x >>= f) (y >>= g) where
  grows r := (h.grows r).trans (prefix_bind (fun a => (hfg a a (hV a)).grows) r)
  grows' r := (h.grows' r).trans (prefix_bind (fun a => (hfg a a (hV a)).grows') r)
  agree r r' hcalls hreads := by
    have hbefore := hreads.of_prefix (prefix_bind (fun a => (hfg a a (hV a)).grows) r)
      (prefix_bind (fun a => (hfg a a (hV a)).grows') r')
    obtain ⟨a, b, hx, hy, hab, hcalls⟩ := h.agree r r' hcalls hbefore
    have hxf : (x >>= f).runFrom r = (f a).runFrom (x.runFrom r).2 := by
      rw [Effect.runFrom_bind, ← Prod.eta (x.runFrom r), hx]
    have hyg : (y >>= g).runFrom r' = (g b).runFrom (y.runFrom r').2 := by
      rw [Effect.runFrom_bind, ← Prod.eta (y.runFrom r'), hy]
    rw [hxf, hyg] at hreads ⊢
    exact (hfg a b hab).agree _ _ hcalls hreads

theorem Indistinct.tryFinally {V : α → α → Prop} {x : Effect ε (Recorded σ) α}
    {y : Effect ε (Recorded τ) α} {f : Effect ε (Recorded σ) Unit}
    {g : Effect ε (Recorded τ) Unit} (h : Indistinct w V x y) (hfg : Indistinct w Eq f g) :
    Indistinct w V (tryFinally x f) (tryFinally y g) where
  grows r := (h.grows r).trans (prefix_tryFinally hfg.grows r)
  grows' r := (h.grows' r).trans (prefix_tryFinally hfg.grows' r)
  agree r r' hcalls hreads := by
    have hbefore := hreads.of_prefix (prefix_tryFinally hfg.grows r)
      (prefix_tryFinally hfg.grows' r')
    obtain ⟨a, b, hx, hy, hab, hcalls⟩ := h.agree r r' hcalls hbefore
    rw [Effect.state_tryFinally, Effect.state_tryFinally] at hreads
    obtain ⟨_, _, hf, hg, _, hcalls⟩ := hfg.agree _ _ hcalls hreads
    have hxf := Effect.tryFinally_yields_iff.mpr ⟨_, Prod.ext hx rfl, Prod.ext hf rfl⟩
    have hyg := Effect.tryFinally_yields_iff.mpr ⟨_, Prod.ext hy rfl, Prod.ext hg rfl⟩
    rw [hxf, hyg]
    exact ⟨a, b, rfl, rfl, hab, hcalls⟩

/-- Indistinct computations, as a simulation. -/
def simulation (ε σ τ : Type) (w : Nat) :
    Simulation (Effect ε (Recorded σ)) (Effect ε (Recorded τ)) where
  Rel := Indistinct w
  pure := Indistinct.pure
  bind := Indistinct.bind

/-- A call that succeeds on both sides and leaves the same events. -/
theorem Indistinct.of_extend {x : Effect ε (Recorded σ) Unit} {y : Effect ε (Recorded τ) Unit}
    (events : List Event) (hx : ∀ r, ∃ world, x.runFrom r = (.ok (), r.extend world events))
    (hy : ∀ r, ∃ world, y.runFrom r = (.ok (), r.extend world events)) :
    Indistinct w Eq x y where
  grows r := by
    obtain ⟨world, hx⟩ := hx r
    rw [hx, Recorded.trace_extend]
    exact List.prefix_append _ _
  grows' r := by
    obtain ⟨world, hy⟩ := hy r
    rw [hy, Recorded.trace_extend]
    exact List.prefix_append _ _
  agree r r' hcalls _ := by
    obtain ⟨world, hx⟩ := hx r
    obtain ⟨world', hy⟩ := hy r'
    rw [hx, hy]
    refine ⟨(), (), rfl, rfl, rfl, ?_⟩
    rw [Recorded.calls_extend, Recorded.calls_extend, hcalls]

theorem related_sink {s : Sink (Effect ε σ)} {t : Sink (Effect ε τ)} (hs : s.NeverFails)
    (ht : t.NeverFails) (write : List UInt8 → Event) {flush : Event}
    (hflush : t.flushEvents flush = s.flushEvents flush) :
    (Recorded.sink write flush s).Related (simulation ε σ τ w)
      (Recorded.sink write flush t) where
  write bytes := by
    refine .of_extend [write bytes] (fun r => ?_) (fun r => ?_)
    · obtain ⟨world, hwrite⟩ := hs.write bytes r.world
      have hcall := Recorded.runFrom_note_lift (write bytes) (s.write bytes) r
      exact ⟨world, by rwa [hwrite] at hcall⟩
    · obtain ⟨world, hwrite⟩ := ht.write bytes r.world
      have hcall := Recorded.runFrom_note_lift (write bytes) (t.write bytes) r
      exact ⟨world, by rwa [hwrite] at hcall⟩
  flush := by
    refine .of_extend (s.flushEvents flush) (fun r => ?_) (fun r => ?_)
    · obtain ⟨world, hcall⟩ := hs.flush r.world
      refine ⟨world, ?_⟩
      rw [Recorded.runFrom_flush, hcall]
    · obtain ⟨world, hcall⟩ := ht.flush r.world
      refine ⟨world, ?_⟩
      rw [Recorded.runFrom_flush, hcall, hflush]

/-- A read leaves one event, and its value if it succeeds. -/
theorem runFrom_read_event (x : Effect ε σ (Option Int)) (r : Recorded σ) :
    ∃ world event, ((Recorded.read x).runFrom r).2 = r.extend world [event] ∧
      event.isRead = true ∧ ∀ v, event = .read v → ((Recorded.read x).runFrom r).1 = .ok v := by
  rw [Recorded.runFrom_read]
  rcases x.runFrom r.world with ⟨error | value, world⟩
  · exact ⟨world, .readFailed, rfl, rfl, fun v hv => nomatch hv⟩
  · refine ⟨world, .read value, rfl, rfl, fun v hv => ?_⟩
    rw [Event.read.inj hv]

theorem indistinct_read (x : Effect ε σ (Option Int)) (y : Effect ε τ (Option Int)) :
    Indistinct w (SameCell w) (Recorded.read x) (Recorded.read y) where
  grows r := by
    obtain ⟨world, event, hx, _⟩ := runFrom_read_event x r
    rw [hx, Recorded.trace_extend]
    exact List.prefix_append _ _
  grows' r := by
    obtain ⟨world, event, hy, _⟩ := runFrom_read_event y r
    rw [hy, Recorded.trace_extend]
    exact List.prefix_append _ _
  agree r r' hcalls hreads := by
    obtain ⟨world, event, hx, hevent, hvalue⟩ := runFrom_read_event x r
    obtain ⟨world', event', hy, hevent', hvalue'⟩ := runFrom_read_event y r'
    rw [hx, hy] at hreads
    -- Both reads have the same number, so that they are compared with one another.
    have hlength : r'.reads.length = r.reads.length := by
      rw [Recorded.length_reads, Recorded.length_reads, hcalls]
    obtain ⟨v, v', rfl, rfl, hcongruent⟩ := hreads r.reads.length event event'
      (by simp [hevent]) (by simp [hevent', ← hlength])
    refine ⟨v, v', hvalue v rfl, hvalue' v' rfl, sameCell_of_modEq hcongruent, ?_⟩
    rw [hx, hy, Recorded.calls_extend, Recorded.calls_extend, hcalls]
    rfl

section
variable {s : Streams (Effect ε σ)} {t : Streams (Effect ε τ)}

theorem related_streams (h : s.SinksAlike t) (w : Nat) :
    (Recorded.streams s).Related (simulation ε σ τ w) w (Recorded.streams t) where
  read := indistinct_read s.read t.read
  out := related_sink h.out h.out' .outWrite h.outFlushes

theorem related_log (h : s.SinksAlike t) (w : Nat) :
    (Recorded.streams s).log.Related (simulation ε σ τ w) (Recorded.streams t).log :=
  related_sink h.log h.log' .logWrite h.logFlushes

/-- Executions that read congruent values return the same and make the same calls. -/
theorem interpret_agree (h : s.SinksAlike t) (settings : Settings) (p : Program) (n : Nat)
    {r : Recorded σ} {r' : Recorded τ} (hcalls : r'.calls = r.calls)
    (hreads : ∀ options, settings.prepare host = .ok options →
      ((interpret host (Recorded.streams s) settings p n).runFrom r).2.ReadsAgree
        options.cellWidth.bits ((interpret host (Recorded.streams t) settings p n).runFrom r').2) :
    ∃ result, ((interpret host (Recorded.streams s) settings p n).runFrom r).1 = .ok result ∧
      ((interpret host (Recorded.streams t) settings p n).runFrom r').1 = .ok result ∧
      ((interpret host (Recorded.streams t) settings p n).runFrom r').2.calls =
        ((interpret host (Recorded.streams s) settings p n).runFrom r).2.calls := by
  cases hoptions : settings.prepare host with
  | error error =>
      rw [interpret_of_error hoptions, interpret_of_error hoptions]
      exact ⟨.error error, rfl, rfl, hcalls⟩
  | ok options =>
      have hrelated : ∀ options', settings.prepare host = .ok options' →
          (Recorded.streams s).Related (simulation ε σ τ options.cellWidth.bits)
            options'.cellWidth.bits (Recorded.streams t) := by
        intro options' hoptions'
        obtain rfl : options = options' := Except.ok.inj (hoptions.symm.trans hoptions')
        exact related_streams h _
      have hlog := related_log h options.cellWidth.bits
      have hindistinct := Execution.rel_interpret
        (S := simulation ε σ τ options.cellWidth.bits)
        (fun hxy => Indistinct.tryFinally hxy (related_streams h _).out.flush) hrelated hlog p n
      obtain ⟨result, _, hs, ht, rfl, hagree⟩ :=
        hindistinct.agree r r' hcalls (hreads options hoptions)
      exact ⟨result, hs, ht, hagree⟩

end

end Noninterference

/-- The bytes that a call hands to the output. -/
def Event.written : Event → List UInt8
  | .outWrite bytes => bytes
  | _ => []

/-- The bytes that a call hands to the error log. -/
def Event.logged : Event → List UInt8
  | .logWrite bytes => bytes
  | _ => []

namespace Memory

/-- What the read with the given number returns, counted from zero. -/
def reply (input : List UInt8) (j : Nat) : Option Int := input[j]?.map fun b => (b.toNat : Int)

/-- A memory that has been used for the recorded calls only, from the given input. -/
structure Accounts (input : List UInt8) (r : Recorded Memory) : Prop where
  unread : r.world.input.unread = input.drop r.reads.length
  output : r.world.output.bytes = r.calls.flatMap Event.written
  errors : r.world.errors.bytes = r.calls.flatMap Event.logged
  replies : ∀ (j : Nat) (event : Event), r.reads[j]? = some event → event = .read (reply input j)

/-- Recorded calls on a memory do what the calls do, and the record accounts for them. -/
def accounting (ε : Type) (input : List UInt8) :
    Simulation (Effect ε (Recorded Memory)) (StateM Memory) where
  Rel V x y := ∀ r, Accounts input r → ∃ a r', x.runFrom r = (.ok a, r') ∧
    V a (y r.world).1 ∧ r'.world = (y r.world).2 ∧ Accounts input r'
  pure h r hr := ⟨_, r, rfl, h, rfl, hr⟩
  bind _ hx hfg := by
    intro r hr
    obtain ⟨a, r₁, hx, hab, hworld, hr₁⟩ := hx r hr
    obtain ⟨b, r₂, hf, hb, hworld₂, hr₂⟩ := hfg a _ hab r₁ hr₁
    rw [hworld] at hb hworld₂
    exact ⟨b, r₂, Effect.bind_yields_iff.mpr ⟨a, r₁, hx, hf⟩, hb, hworld₂, hr₂⟩

variable {ε : Type} {input : List UInt8} {r : Recorded Memory}

theorem accounts_start (input : List UInt8) : Accounts input (.start (.ofInput input)) where
  unread := rfl
  output := rfl
  errors := rfl
  replies j event h := by simp [Recorded.reads, Recorded.start] at h

theorem Accounts.outWrite (h : Accounts input r) (bytes : List UInt8) :
    Accounts input (r.extend (streams.out.write bytes r.world).2 [.outWrite bytes]) := by
  rw [streams_out_write]
  constructor
  · simpa [Event.isRead] using h.unread
  · simp [Event.erased, Event.written, h.output]
  · simpa [Event.erased, Event.logged] using h.errors
  · intro j event hj
    exact h.replies j event (by simpa [Event.isRead] using hj)

theorem Accounts.logWrite (h : Accounts input r) (bytes : List UInt8) :
    Accounts input (r.extend (streams.log.write bytes r.world).2 [.logWrite bytes]) := by
  rw [streams_log_write]
  constructor
  · simpa [Event.isRead] using h.unread
  · simpa [Event.erased, Event.written] using h.output
  · simp [Event.erased, Event.logged, h.errors]
  · intro j event hj
    exact h.replies j event (by simpa [Event.isRead] using hj)

/-- What is left of a list is its next element, if there is one, and what is left then. -/
theorem read_drop (input : List UInt8) (j : Nat) :
    InputBuffer.read ⟨input.drop j⟩ = (input[j]?, ⟨input.drop (j + 1)⟩) := by
  rw [← List.head?_drop, ← List.tail_drop]
  cases input.drop j <;> rfl

/-- A read takes the next byte of the input, if there is one left. -/
theorem Accounts.read (h : Accounts input r) :
    Accounts input (r.extend (streams.read r.world).2 [.read (streams.read r.world).1]) := by
  have hinput : r.world.input = ⟨input.drop r.reads.length⟩ := congrArg InputBuffer.mk h.unread
  rw [streams_read, hinput, read_drop]
  constructor
  · simp [Event.isRead, List.filter_cons]
  · simpa [Event.erased, Event.written] using h.output
  · simpa [Event.erased, Event.logged] using h.errors
  · intro j event hj
    rw [Recorded.reads_extend] at hj
    by_cases hlt : j < r.reads.length
    · rw [List.getElem?_append_left hlt] at hj
      exact h.replies j event hj
    · rw [List.getElem?_append_right (Nat.le_of_not_lt hlt)] at hj
      cases hd : j - r.reads.length with
      | zero =>
          obtain rfl : j = r.reads.length := by omega
          rw [hd] at hj
          exact (Option.some.inj hj).symm
      | succ d => simp [hd, Event.isRead, List.filter_cons] at hj

/-- The calls of a run in memory, recorded. -/
theorem related_streams (ε : Type) (input : List UInt8) (w : Nat) :
    (Recorded.streams (Streams.ofState streams : Streams (Effect ε Memory))).Related
      (accounting ε input) w streams where
  read r hr := by
    have hcall : (Recorded.read (ExceptT.lift streams.read : Effect ε Memory _)).runFrom r =
        (.ok (streams.read r.world).1,
          r.extend (streams.read r.world).2 [.read (streams.read r.world).1]) := by
      rw [Recorded.runFrom_read, Effect.lift_yields]
    exact ⟨_, _, hcall, SameCell.refl w _, rfl, hr.read⟩
  out :=
    { write := fun bytes r hr =>
        ⟨(), _, Recorded.runFrom_note_lift (.outWrite bytes) _ r, rfl, rfl, hr.outWrite bytes⟩
      flush := fun r hr => ⟨(), r, rfl, rfl, rfl, hr⟩ }

theorem related_log (ε : Type) (input : List UInt8) :
    (Recorded.streams (Streams.ofState streams : Streams (Effect ε Memory))).log.Related
      (accounting ε input) streams.log where
  write bytes r hr :=
    ⟨(), _, Recorded.runFrom_note_lift (.logWrite bytes) _ r, rfl, rfl, hr.logWrite bytes⟩
  flush r hr := ⟨(), r, rfl, rfl, rfl, hr⟩

end Memory

/-- An execution in memory with its calls recorded. -/
def interpretRecorded (host : Host) (settings : Settings) (p : Program) (input : List UInt8)
    (n : Nat) : Except Empty (Except StartError (Option Verdict)) × Recorded Memory :=
  (interpret host (Recorded.streams (Streams.ofState Memory.streams)) settings p n).runFrom
    (.start (.ofInput input))

/-- A recorded execution in memory does what the execution does, and the record accounts for it. -/
theorem exists_accounts (settings : Settings) (p : Program) (input : List UInt8) (n : Nat) :
    ∃ result r, interpretRecorded host settings p input n = (.ok result, r) ∧
      (interpretInMemory host settings p n).run (.ofInput input) = (result, r.world) ∧
      Memory.Accounts input r := by
  have hrelated : (Memory.accounting Empty input).Rel Eq
      (interpret host (Recorded.streams (Streams.ofState Memory.streams)) settings p n)
      (interpretInMemory host settings p n) := by
    refine Execution.rel_interpret ?_ (fun _ _ => Memory.related_streams Empty input _)
      (Memory.related_log Empty input) p n
    intro x y hxy r hr
    obtain ⟨a, r', hx, hab, hworld, hr'⟩ := hxy r hr
    exact ⟨a, r', Effect.tryFinally_yields_iff.mpr ⟨r', hx, rfl⟩, hab, hworld, hr'⟩
  obtain ⟨result, r, hrun, hresult, hworld, hr⟩ := hrelated _ (Memory.accounts_start input)
  exact ⟨result, r, hrun, Prod.ext hresult.symm hworld.symm, hr⟩

/-- The report of an execution in memory can be read off its record. -/
theorem exists_run_eq (settings : Settings) (p : Program) (input : List UInt8) (n : Nat) :
    ∃ result r, interpretRecorded host settings p input n = (.ok result, r) ∧
      (∀ (j : Nat) (event : Event), r.reads[j]? = some event →
        event = .read (Memory.reply input j)) ∧
      run host p input settings n = result.map fun verdict =>
        ⟨verdict, r.calls.flatMap Event.written, Utf8.decode (r.calls.flatMap Event.logged)⟩ := by
  obtain ⟨result, r, hrun, hmemory, hr⟩ := exists_accounts settings p input n
  refine ⟨result, r, hrun, hr.replies, ?_⟩
  unfold run OutputBuffer.text
  rw [hmemory, ← hr.output, ← hr.errors]

theorem Streams.sinksAlike_ofState {ε σ : Type} (streams : Streams (StateM σ)) :
    (ofState streams : Streams (Effect ε σ)).SinksAlike (ofState streams : Streams (Effect ε σ)) :=
  have h : (ofState streams : Streams (Effect ε σ)).NeverFails := neverFails_ofState streams
  { out := ⟨h.outWrite, h.outFlush⟩
    out' := ⟨h.outWrite, h.outFlush⟩
    log := ⟨h.logWrite, h.logFlush⟩
    log' := ⟨h.logWrite, h.logFlush⟩
    outFlushes := rfl
    logFlushes := rfl }

/-- Two inputs give the same report if the bytes that an execution reads are the same. -/
theorem run_congr {settings : Settings} {p : Program} {input input' : List UInt8} {n : Nat}
    (h : ∀ j < (interpretRecorded host settings p input n).2.reads.length,
      (Memory.reply input j).getD 0 = (Memory.reply input' j).getD 0) :
    run host p input' settings n = run host p input settings n := by
  obtain ⟨result, r, hrun, hreplies, hreport⟩ := exists_run_eq settings p input n
  obtain ⟨result', r', hrun', hreplies', hreport'⟩ := exists_run_eq settings p input' n
  have hagree : ∃ result, (interpretRecorded host settings p input n).1 = .ok result ∧
      (interpretRecorded host settings p input' n).1 = .ok result ∧
      (interpretRecorded host settings p input' n).2.calls =
        (interpretRecorded host settings p input n).2.calls := by
    apply Noninterference.interpret_agree (Streams.sinksAlike_ofState Memory.streams)
    · rfl
    · intro options _
      change (interpretRecorded host settings p input n).2.ReadsAgree _
        (interpretRecorded host settings p input' n).2
      rw [hrun] at h
      rw [hrun, hrun']
      intro j a b ha hb
      refine ⟨_, _, hreplies j a ha, hreplies' j b hb, ?_⟩
      rw [h j (List.getElem?_eq_some_iff.mp ha).1]
  obtain ⟨_, hresult, hresult', hcalls⟩ := hagree
  rw [hrun, hrun'] at hcalls
  rw [hrun] at hresult
  rw [hrun'] at hresult'
  obtain rfl : result = result' := by rw [Except.ok.inj hresult, Except.ok.inj hresult']
  rw [hreport, hreport', show r'.calls = r.calls from hcalls]

/-- An execution depends on its input through the low bits of the values that it reads. Two
executions on sinks that do not fail, whose reads return congruent values as far as both
have come, return the same, read as often and make the same calls in the same order. In
memory, zero bytes behind the input make no difference, and neither do bytes behind those
that are read. -/
theorem interpret_congr_reads {ε σ τ : Type} {s : Streams (Effect ε σ)} {t : Streams (Effect ε τ)}
    (h : s.SinksAlike t) (settings : Settings) (p : Program) (n : Nat) (world : σ) (world' : τ) :
    ((∀ options, settings.prepare host = .ok options →
        ((interpret host (Recorded.streams s) settings p n).runFrom (.start world)).2.ReadsAgree
          options.cellWidth.bits
          ((interpret host (Recorded.streams t) settings p n).runFrom (.start world')).2) →
      ∃ result r r',
        (interpret host (Recorded.streams s) settings p n).runFrom (.start world) =
          (.ok result, r) ∧
        (interpret host (Recorded.streams t) settings p n).runFrom (.start world') =
          (.ok result, r') ∧
        r'.calls = r.calls ∧ r'.reads.length = r.reads.length) ∧
    (∀ input zeros,
      run host p (input ++ List.replicate zeros 0) settings n = run host p input settings n) ∧
    ∀ front rest rest',
      (interpretRecorded host settings p (front ++ rest) n).2.reads.length ≤ front.length →
      run host p (front ++ rest') settings n = run host p (front ++ rest) settings n := by
  refine ⟨?_, ?_, ?_⟩
  · intro hreads
    have hcalls : (Recorded.start world').calls = (Recorded.start world).calls := rfl
    obtain ⟨result, hs, ht, hagree⟩ :=
      Noninterference.interpret_agree h settings p n hcalls hreads
    refine ⟨result, _, _, Prod.ext hs rfl, Prod.ext ht rfl, hagree, ?_⟩
    rw [Recorded.length_reads, Recorded.length_reads, hagree]
  · intro input zeros
    apply run_congr
    intro j _
    unfold Memory.reply
    by_cases hj : j < input.length
    · rw [List.getElem?_append_left hj]
    · have hend : input[j]? = none := List.getElem?_eq_none (Nat.le_of_not_lt hj)
      rw [List.getElem?_append_right (Nat.le_of_not_lt hj), hend, List.getElem?_replicate]
      split <;> rfl
  · intro front rest rest' hfront
    apply run_congr
    intro j hj
    have hlt : j < front.length := Nat.lt_of_lt_of_le hj hfront
    unfold Memory.reply
    rw [List.getElem?_append_left hlt, List.getElem?_append_left hlt]

theorem Script.sinksAlike :
    (streams ⟨true, none, none⟩ ⟨false, none, none⟩).SinksAlike
      (streams ⟨true, none, none⟩ ⟨false, none, none⟩) where
  out := ⟨fun _ _ => ⟨_, rfl⟩, fun _ => ⟨_, rfl⟩⟩
  out' := ⟨fun _ _ => ⟨_, rfl⟩, fun _ => ⟨_, rfl⟩⟩
  log := ⟨fun _ _ => ⟨_, rfl⟩, fun _ => ⟨_, rfl⟩⟩
  log' := ⟨fun _ _ => ⟨_, rfl⟩, fun _ => ⟨_, rfl⟩⟩
  outFlushes := rfl
  logFlushes := rfl

/-- A large value and its low byte, the end of input and a multiple of the cell, and a source
that would fail if it were asked once more. -/
theorem congr_reads_of_low_bytes :
    (Script.streams ⟨true, none, none⟩ ⟨false, none, none⟩).SinksAlike
        (Script.streams ⟨true, none, none⟩ ⟨false, none, none⟩) ∧
      ((Settings.empty.withTapeLength 1).withCellWidth .bits8).prepare (.upTo 1024) =
        .ok ⟨1, .bits8, .scan⟩ ∧
      ∃ result r r',
        (interpret (.upTo 1024)
          (Recorded.streams (Script.streams ⟨true, none, none⟩ ⟨false, none, none⟩))
          ((Settings.empty.withTapeLength 1).withCellWidth .bits8)
          (Program.ofBytes [0x2C, 0x2E, 0x2C, 0x2E]) 5).runFrom
            (.start ⟨[.value (some 300), .value none], 0, 0, 0, 0⟩) = (.ok result, r) ∧
        (interpret (.upTo 1024)
          (Recorded.streams (Script.streams ⟨true, none, none⟩ ⟨false, none, none⟩))
          ((Settings.empty.withTapeLength 1).withCellWidth .bits8)
          (Program.ofBytes [0x2C, 0x2E, 0x2C, 0x2E]) 5).runFrom
            (.start ⟨[.value (some 44), .value (some 256), .failure], 0, 0, 0, 0⟩) =
              (.ok result, r') ∧
        r'.calls = r.calls ∧ r'.reads.length = r.reads.length := by
  refine ⟨Script.sinksAlike, rfl, (interpret_congr_reads Script.sinksAlike _ _ _ _ _).1 ?_⟩
  intro options hoptions
  obtain rfl : (⟨1, .bits8, .scan⟩ : Options) = options := Except.ok.inj hoptions
  intro j a b ha hb
  match j, ha, hb with
  | 0, ha, hb =>
      exact ⟨some 300, some 44, (Option.some.inj ha).symm, (Option.some.inj hb).symm, rfl⟩
  | 1, ha, hb =>
      exact ⟨none, some 256, (Option.some.inj ha).symm, (Option.some.inj hb).symm, rfl⟩
  | j + 2, ha, _ => exact nomatch ha

end Brainfuck
