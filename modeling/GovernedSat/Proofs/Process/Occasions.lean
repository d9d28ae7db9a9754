import GovernedSat.Proofs.Process.Drift

/-!
# Occasions on which breaches are noted

A breach is noted on four occasions only: when a signal which is handled is delivered, when an
attempt to allocate memory fails with the hook in place, and when a checkpoint or a poll finds that
a soft limit is reached. What is noted on an occasion depends on the process, and only the first
breach noted is kept; a checkpoint and a poll tell of this one.

## Main definitions

* `Occasion`, `Occasion.pass` — the occasions, and what happens on them.
* `Occasion.breach?` — the breach which there is to be noted.
* `passed` — the result of a checkpoint.

## Main results

* `Occasion.breach_pass` — the first breach is kept.
* `breach_allocate` — what an allocation notes.
* `exists_run_checkpoint`, `exists_run_stopRequested` — what a checkpoint and a poll tell.
-/

namespace GovernedSat

open Process

/-- An occasion on which a breach may be noted. -/
inductive Occasion where
  /-- A signal is delivered. -/
  | signal (s : Signal)
  /-- An attempt to allocate memory fails. -/
  | allocationFailed
  /-- A checkpoint is passed. -/
  | checkpoint
  /-- A solver asks whether to stop. -/
  | poll
  deriving DecidableEq, Repr

namespace Occasion

/-- What happens on the occasion. -/
def pass : Occasion → ProcessM Unit
  | signal s => discard (deliver s)
  | allocationFailed => discard Process.allocationFailed
  | checkpoint => discard GovernedSat.checkpoint
  | poll => discard stopRequested

/-- The breach which there is to be noted. Soft limits are not looked at once a breach is noted, and
not on every poll. -/
def breach? (p : Process) : Occasion → Option Breach
  | signal s => if p.actions.get s = .noting then some s.breach else none
  | allocationFailed => if p.governance.memoryHook then some .memory else none
  | checkpoint =>
    if p.governance.breach.isNone then p.governance.reachedLimit? .resident p.reading else none
  | poll =>
    if p.governance.breach.isNone ∧ p.governance.poll.1 then
      p.governance.reachedLimit? .headroom p.reading
    else none

end Occasion

/-- The result of a checkpoint at which a breach is noted, or none is. -/
def passed : Option Breach → Except LimitError Unit
  | none => .ok ()
  | some b => .error b.toError

section Laws

variable (p : Process)

/-- The soft limit which is reached is noted. -/
theorem exists_run_noteReachedLimit (hb : p.governance.breach = none) (m : MemoryMeasure) :
    ∃ q, (noteReachedLimit m).run p = pure (p.governance.reachedLimit? m p.reading, q) ∧
      q.governance.breach = p.governance.reachedLimit? m p.reading := by
  refine ⟨_, run_noteReachedLimit_eq m p, ?_⟩
  cases p.governance.reachedLimit? m p.reading with
  | none => exact hb
  | some b =>
    change (p.governance.note b).breach = some b
    rw [Governance.breach_note, hb]
    rfl

theorem exists_run_tellBreach :
    ∃ q, tellBreach.run p = pure (passed p.governance.breach, q) ∧ q.governance = p.governance := by
  rw [tellBreach, StateT.run_bind, StateT.run_get, pure_bind]
  cases p.governance.breach with
  | none => exact ⟨p, rfl, rfl⟩
  | some b => exact ⟨{ p with log := p.log.push (.breachFound b) }, rfl, rfl⟩

/-- A checkpoint tells of the first breach noted, which may be the one it finds. -/
theorem exists_run_checkpoint : ∃ q, checkpoint.run p =
    pure (passed (p.governance.breach.or (Occasion.checkpoint.breach? p)), q) ∧
      q.governance.breach = p.governance.breach.or (Occasion.checkpoint.breach? p) := by
  rw [checkpoint_eq, StateT.run_bind, StateT.run_get, pure_bind, Occasion.breach?]
  cases hb : p.governance.breach with
  | some b =>
    obtain ⟨q, hq, hg⟩ := exists_run_tellBreach p
    rw [hb] at hq
    exact ⟨q, hq, (congrArg Governance.breach hg).trans hb⟩
  | none =>
    obtain ⟨p', hrun, hp'⟩ := exists_run_noteReachedLimit p hb .resident
    obtain ⟨q, hq, hg⟩ := exists_run_tellBreach p'
    rw [hp'] at hq
    refine ⟨q, ?_, (congrArg Governance.breach hg).trans hp'⟩
    have hdiscard : (discard (noteReachedLimit .resident)).run p = pure ((), p') := by
      change (noteReachedLimit .resident >>= fun _ => pure ()).run p = _
      rw [StateT.run_bind, hrun]
      rfl
    change (discard (noteReachedLimit .resident) >>= fun _ => _).run p = _
    rw [StateT.run_bind, hdiscard]
    exact hq

/-- A poll asks to stop when a breach is noted, which may be the one it finds. -/
theorem exists_run_stopRequested : ∃ q, stopRequested.run p =
    pure ((p.governance.breach.or (Occasion.poll.breach? p)).isSome, q) ∧
      q.governance.breach = p.governance.breach.or (Occasion.poll.breach? p) := by
  rw [stopRequested, StateT.run_bind, StateT.run_get, pure_bind, Occasion.breach?]
  cases hb : p.governance.breach with
  | some b => exact ⟨p, rfl, hb⟩
  | none =>
    change ∃ q, ((if p.governance.poll.1 = true then _ else _ : ProcessM Bool).run p.polled) = _ ∧ _
    cases hdue : p.governance.poll.1 with
    | false => exact ⟨p.polled, rfl, hb⟩
    | true =>
      obtain ⟨q, hrun, hq⟩ := exists_run_noteReachedLimit p.polled hb .headroom
      refine ⟨q, ?_, hq⟩
      change (noteReachedLimit .headroom >>= fun r => pure r.isSome).run p.polled = _
      rw [StateT.run_bind, hrun]
      rfl

/-- **The first breach is kept.** -/
theorem Occasion.breach_pass (o : Occasion) :
    ((o.pass.run p).2 : Process).governance.breach = p.governance.breach.or (o.breach? p) := by
  have hraise : ∀ (r : Resource) (b : Breach),
      ((do raiseSoftLimit r; govern (·.note b) : ProcessM Unit).run p).2.governance.breach =
        p.governance.breach.or (some b) := by
    intro r b
    rw [StateT.run_bind, run_raiseSoftLimit]
    split <;> rfl
  cases o with
  | signal s =>
    change ((deliver s).run p).2.governance.breach = _
    cases ha : p.actions.get s with
    | inherited =>
      rw [run_deliver_inherited ha, breach?, if_neg (by rw [ha]; nofun), Option.or_none]
      rfl
    | noting =>
      rw [run_deliver_noting ha, breach?, if_pos ha]
      exact hraise s.resource s.breach
  | allocationFailed =>
    change (Process.allocationFailed.run p).2.governance.breach = _
    cases hm : p.governance.memoryHook with
    | false =>
      rw [run_allocationFailed_unhooked hm, breach?, if_neg (by rw [hm]; nofun), Option.or_none]
      rfl
    | true =>
      rw [run_allocationFailed_hooked hm, breach?, if_pos hm]
      exact hraise .addressSpace .memory
  | checkpoint =>
    obtain ⟨q, hrun, hq⟩ := exists_run_checkpoint p
    change (GovernedSat.checkpoint.run p).2.governance.breach = _
    rw [hrun]
    exact hq
  | poll =>
    obtain ⟨q, hrun, hq⟩ := exists_run_stopRequested p
    change (stopRequested.run p).2.governance.breach = _
    rw [hrun]
    exact hq

/-- **An allocation notes a breach when its first attempt fails** with the hook in place, whether
the second one succeeds or not. -/
theorem breach_allocate (bytes : Nat) :
    ((allocate bytes).run p).2.governance.breach = p.governance.breach.or
      (if ((attempt bytes).run p).1 then none else Occasion.allocationFailed.breach? p) := by
  let p' : Process := { p with attempts := p.attempts + 1 }
  obtain ⟨granted, hrun⟩ : ∃ granted, (attempt bytes).run p = pure (granted, p') := ⟨_, rfl⟩
  rw [allocate, StateT.run_bind, hrun, pure_bind]
  cases granted with
  | true => exact Option.or_none.symm
  | false =>
    -- The second attempt, if there is one, notes nothing.
    have hsecond : ∀ r : Bool × Process,
        ((if r.1 then attempt bytes else pure false : ProcessM Bool).run r.2).2.governance =
          r.2.governance := by
      rintro ⟨_ | _, q⟩ <;> rfl
    exact (congrArg Governance.breach (hsecond _)).trans (Occasion.allocationFailed.breach_pass p')

theorem Occasion.drifts_pass (o : Occasion) : Drifts o.pass fun _ => True := by
  cases o with
  | signal s => exact moves_discard (lulls_deliver s).drifts
  | allocationFailed => exact moves_discard lulls_allocationFailed.drifts
  | checkpoint => exact moves_discard drifts_checkpoint
  | poll => exact moves_discard lulls_stopRequested.drifts

/-- Where nothing is watched there is nothing to be noted. -/
theorem Occasion.breach?_eq_none {p : Process} (hp : p.IsUnwatched) (o : Occasion) :
    o.breach? p = none := by
  have hpass := o.breach_pass p
  rw [((o.drifts_pass p).1.isUnwatched hp).idle.breach, hp.idle.breach, Option.none_or] at hpass
  exact hpass.symm

end Laws

end GovernedSat
