import GovernedSat.Governor.Polling

/-!
# Computations in an idle process

A process is *idle* when no breach is noted and no soft limit is set, as it is whenever no governor
with limits is armed. Then checkpoints pass, no poll asks a solver to stop, and arming a governor
without limits changes nothing of this. A contract for a computation says what is true of its result
in every idle process, together with the number of solves which it makes; contracts of parts make up
the contract of the whole.

## Main definitions

* `Governance.IsIdle`, `Process.IsIdle`.
* `Process.solves` — the number of solves made.
* `Ensures` — the contract of a computation.

## Main results

* `Process.isIdle_new` — a new process is idle.
* `Ensures.bind`, `Ensures.mono` — how contracts are put together.
* `ensures_checkpoint`, `ensures_stopRequested`, `ensures_arm` — the governor in an idle process.
-/

namespace GovernedSat

open Process

/-! ### Idle processes -/

/-- No breach is noted, and no soft limit is set. -/
structure Governance.IsIdle (g : Governance) : Prop where
  /-- No breach is noted. -/
  breach : g.breach = none
  /-- There is no limit on CPU time. -/
  deadline : g.deadline = 0
  /-- There is no limit on memory. -/
  ceiling : g.ceiling = 0

/-- In an idle state no reading reaches a limit. -/
theorem Governance.IsIdle.reachedLimit?_eq_none {g : Governance} (h : g.IsIdle)
    (m : MemoryMeasure) (u : Usage) : g.reachedLimit? m u = none :=
  reachedLimit?_eq_none_of_unlimited h.deadline h.ceiling m u

/-- Whether a call is a solve. -/
def Call.isSolve : Call → Bool
  | solve _ => true
  | _ => false

namespace Process

/-- The state of governance is idle. -/
def IsIdle (p : Process) : Prop := p.governance.IsIdle

/-- A new process is idle. -/
theorem isIdle_new (h : Host) : IsIdle { host := h } := ⟨rfl, rfl, rfl⟩

/-- The number of solves in the journal. -/
def solves (p : Process) : Nat := p.journal.countP Call.isSolve

end Process

/-! ### Contracts -/

section Contracts

variable {α β : Type} {x : ProcessM α} {P Q : α → Nat → Prop}

/-- Run in an idle process, the computation leaves it idle, and `post` is true of its result and of
the number of solves it makes. -/
def Ensures (x : ProcessM α) (post : α → Nat → Prop) : Prop :=
  ∀ p : Process, p.IsIdle → (x.run p).2.IsIdle ∧
    ∃ n, (x.run p).2.solves = p.solves + n ∧ post (x.run p).1 n

theorem Ensures.mono (hx : Ensures x P) (h : ∀ a n, P a n → Q a n) : Ensures x Q := by
  intro p hp
  obtain ⟨hi, n, hn, ha⟩ := hx p hp
  exact ⟨hi, n, hn, h _ _ ha⟩

theorem ensures_pure {a : α} (h : P a 0) : Ensures (pure a) P :=
  fun _ hp => ⟨hp, 0, rfl, h⟩

/-- The solves of two parts add up. -/
theorem Ensures.bind {f : α → ProcessM β} {R : β → Nat → Prop} (hx : Ensures x P)
    (hf : ∀ a n, P a n → Ensures (f a) fun b m => R b (n + m)) : Ensures (x >>= f) R := by
  intro p hp
  obtain ⟨hi, n, hn, ha⟩ := hx p hp
  obtain ⟨hi', m, hm, hb⟩ := hf _ n ha _ hi
  refine ⟨hi', n + m, ?_, hb⟩
  rw [StateT.run_bind]
  exact hm.trans (by rw [hn, Nat.add_assoc])

theorem ensures_logEvent (e : LogEvent) : Ensures (logEvent e) fun a n => a = () ∧ n = 0 :=
  fun _ hp => ⟨hp, 0, rfl, rfl, rfl⟩

end Contracts

/-! ### The governor in an idle process -/

section Governor

variable {p : Process} {l : Limits}

/-- The process after a reading of the resources in use. -/
def Process.afterReading (p : Process) : Process := { p with readings := p.readings + 1 }

/-- The reading is made, and reaches no limit. -/
theorem run_noteReachedLimit (hp : p.IsIdle) (m : MemoryMeasure) :
    (noteReachedLimit m).run p = pure (none, p.afterReading) := by
  simp [noteReachedLimit, readUsage, hp.reachedLimit?_eq_none, Process.afterReading]

theorem run_checkpoint (hp : p.IsIdle) : checkpoint.run p = pure (.ok (), p.afterReading) := by
  have hb : p.afterReading.governance.breach = none := hp.breach
  simp [checkpoint, discard, Functor.discard, map_const, hp.breach, run_noteReachedLimit hp, hb]

/-- The poll is counted, and a reading may be made. -/
theorem run_stopRequested (hp : p.IsIdle) :
    ∃ q : Process, stopRequested.run p = pure (false, q) ∧ q.IsIdle ∧ q.journal = p.journal := by
  let q : Process := { p with governance := p.governance.poll.2 }
  have hq : q.IsIdle := ⟨hp.breach, hp.deadline, hp.ceiling⟩
  cases hdue : p.governance.poll.1 with
  | false => exact ⟨q, by simp [stopRequested, hp.breach, hdue, q], hq, rfl⟩
  | true =>
    refine ⟨q.afterReading, ?_, hq, rfl⟩
    simp [stopRequested, hp.breach, hdue, run_noteReachedLimit hq, q]

theorem run_arm (p : Process) (hl : l.isUnbounded = true) :
    ∃ baseline, (Governor.arm l).run p =
      pure (.ok { limits := l, baseline, saved := none }, p.afterReading) := by
  refine ⟨(p.host.usage p.readings).cpuTime, ?_⟩
  simp [Governor.arm, hl, readUsage, afterReading]

theorem ensures_checkpoint : Ensures checkpoint fun r n => r = .ok () ∧ n = 0 := by
  intro p hp
  rw [run_checkpoint hp]
  exact ⟨hp, 0, rfl, rfl, rfl⟩

/-- No poll asks to stop. -/
theorem ensures_stopRequested : Ensures stopRequested fun stop n => stop = false ∧ n = 0 := by
  intro p hp
  obtain ⟨q, hr, hq, hj⟩ := run_stopRequested hp
  rw [hr]
  exact ⟨hq, 0, congrArg (Array.countP Call.isSolve) hj, rfl, rfl⟩

/-- A governor without limits has nothing to restore. -/
theorem ensures_arm (hl : l.isUnbounded = true) :
    Ensures (Governor.arm l) fun r n => (∃ g, r = .ok g ∧ g.saved = none) ∧ n = 0 := by
  intro p hp
  obtain ⟨baseline, hr⟩ := run_arm p hl
  rw [hr]
  exact ⟨hp, 0, rfl, ⟨_, rfl, rfl⟩, rfl⟩

end Governor

end GovernedSat
