import GovernedSat.Proofs.Governor.Preparing
import GovernedSat.Proofs.Governor.Standing
import GovernedSat.Proofs.Process.Occasions

/-!
# Polls in a row

A solver polls as long as it searches, and the count of its polls is a word which wraps around. The
polls which look at the soft limits are those at which the count is a multiple of the interval. As
the interval divides the number of words, the wrap does not show: from the time the count starts,
and as long as no breach is noted, every poll whose number leaves the remainder `1` looks at the
soft limits, and no other does. So a limit which stays reached is noted within one interval, and as
a breach noted stands, all later polls ask to stop.

The polls of a row may be made by any solvers, and anything may happen between them which leaves the
state of governance as it is: the readings of the resources in use, in particular, are arbitrary.

## Main definitions

* `Governance.IsRestarted` — the state of governance in which the count of polls starts.
* `Process.asksToStop`, `Process.LooksAtLimits` — what a poll answers, and whether it looks at the
  soft limits.
* `IsPolledAlong` — the processes in which the polls of a row are made.

## Main results

* `Governor.governance_of_arm` — what a governor sets up on whatever host.
* `IsPolledAlong.governance_eq` — what the state of governance is at each poll.
* `polls_look_periodically` — the polls which look at the soft limits, and what they lead to.
-/

namespace GovernedSat

open Process

/-! ### Where the count starts -/

namespace Governor

variable {l : Limits} {p q : Process} {g : Governor}

/-- **Arming with limits** forgets what was noted, sets the soft limits and has the polls counted
from the start. -/
theorem governance_of_arm (hl : l.isUnbounded = false)
    (harm : (arm l).run p = pure (.ok g, q)) :
    g.limits = l ∧ q.governance.breach = none ∧ q.governance.deadline = l.deadline g.baseline ∧
      q.governance.ceiling = l.memory.toNat ∧ q.governance.polls = 0 := by
  cases ha : p.governance.armed with
  | true => cases (run_arm_refused ha hl).symm.trans harm
  | false =>
    let baseline := (p.host.usage p.readings).cpuTime
    let p₁ : Process := { p.afterReading with
      governance := { p.governance.clear with armed := true } }
    have hlower := (admitsArming_prepares.moves_lowerAll (l.requests baseline) [] p₁).1.breach rfl
    rw [run_arm_unarmed ha hl, StateT.run_bind] at harm
    obtain ⟨⟨result, q'⟩, hrun⟩ : ∃ b, (lowerAll (l.requests baseline) []).run p₁ = b := ⟨_, rfl⟩
    rw [hrun] at hlower harm
    cases result with
    | error e => cases harm
    | ok saved =>
      cases harm
      exact ⟨rfl, hlower, rfl, rfl, rfl⟩

end Governor

/-- The state of governance in which the count of polls starts. -/
inductive Governance.IsRestarted : Governance → Prop
  /-- A governor with limits was armed. -/
  | arm {l : Limits} {p q : Process} {g : Governor} (hl : l.isUnbounded = false)
      (armed : (Governor.arm l).run p = pure (.ok g, q)) : IsRestarted q.governance
  /-- The breach and the soft limits were forgotten. -/
  | clear (g : Governance) (armed : Bool) : IsRestarted { g.clear with armed }

namespace Governance.IsRestarted

variable {g : Governance}

theorem breach (h : g.IsRestarted) : g.breach = none := by
  cases h with
  | arm hl harm => exact (Governor.governance_of_arm hl harm).2.1
  | clear => rfl

theorem polls (h : g.IsRestarted) : g.polls = 0 := by
  cases h with
  | arm hl harm => exact (Governor.governance_of_arm hl harm).2.2.2.2
  | clear => rfl

/-- The count starts when a governor with limits is disarmed. -/
theorem of_disarm {g : Governor} (hg : g.saved.isSome) (p : Process) :
    ((g.disarm.run p).2 : Process).governance.IsRestarted := by
  obtain ⟨saved, hs⟩ := Option.isSome_iff_exists.mp hg
  rw [Governor.disarm, hs]
  exact .clear _ false

end Governance.IsRestarted

/-! ### A poll -/

namespace Process

variable {p : Process}

/-- What a poll answers. -/
def asksToStop (p : Process) : Bool := (stopRequested.run p).1

/-- A poll looks at the soft limits: it reads the resources in use. -/
def LooksAtLimits (p : Process) : Prop :=
  ((stopRequested.run p).2 : Process).readings = p.readings + 1

/-- The soft limit which a poll would find reached. -/
def reachedAtPoll? (p : Process) : Option Breach :=
  p.governance.reachedLimit? .headroom p.reading

/-- A breach noted is all that a poll has to know, and the poll is not counted. -/
theorem run_stopRequested_of_isSome (h : p.governance.breach.isSome) :
    stopRequested.run p = pure (true, p) := by
  simp [stopRequested, h]

theorem run_stopRequested_of_not_due (hb : p.governance.breach = none)
    (hd : p.governance.poll.1 = false) : stopRequested.run p = pure (false, p.polled) := by
  simp [stopRequested, hb, hd, polled]

theorem run_stopRequested_of_due (hb : p.governance.breach = none)
    (hd : p.governance.poll.1 = true) :
    stopRequested.run p = pure (p.reachedAtPoll?.isSome,
      p.reachedAtPoll?.elim p.polled.afterReading fun b =>
        { p.polled.afterReading with governance := p.polled.governance.note b }) := by
  have hstop : stopRequested.run p =
      (do return (← noteReachedLimit .headroom).isSome : ProcessM Bool).run p.polled := by
    simp [stopRequested, hb, hd, polled]
  rw [hstop, StateT.run_bind, run_noteReachedLimit_eq]
  rfl

/-- A poll looks at the soft limits when none of them is noted yet, and the poll is due. -/
theorem looksAtLimits_iff :
    p.LooksAtLimits ↔ p.governance.breach = none ∧ p.governance.poll.1 = true := by
  rw [LooksAtLimits]
  cases hb : p.governance.breach with
  | some b =>
    rw [run_stopRequested_of_isSome (by rw [hb]; rfl)]
    exact ⟨fun h => absurd h.symm (Nat.succ_ne_self _), fun h => nomatch h.1⟩
  | none =>
    cases hd : p.governance.poll.1 with
    | false =>
      rw [run_stopRequested_of_not_due hb hd]
      exact ⟨fun h => absurd h.symm (Nat.succ_ne_self _), fun h => nomatch h.2⟩
    | true =>
      rw [run_stopRequested_of_due hb hd]
      refine ⟨fun _ => ⟨rfl, rfl⟩, fun _ => ?_⟩
      cases p.reachedAtPoll? <;> rfl

/-- A poll which does not ask to stop is counted, and that is all. -/
theorem governance_of_asksToStop_eq_false (h : p.asksToStop = false) :
    p.governance.breach = none ∧
      ((stopRequested.run p).2 : Process).governance = p.polled.governance := by
  rw [asksToStop] at h
  cases hb : p.governance.breach with
  | some b =>
    rw [run_stopRequested_of_isSome (by rw [hb]; rfl)] at h
    cases h
  | none =>
    refine ⟨rfl, ?_⟩
    cases hd : p.governance.poll.1 with
    | false => rw [run_stopRequested_of_not_due hb hd]; rfl
    | true =>
      rw [run_stopRequested_of_due hb hd] at h ⊢
      cases hr : p.reachedAtPoll? with
      | none => rfl
      | some b =>
        rw [hr] at h
        cases h

/-- After a poll which asks to stop a breach is noted. -/
theorem isSome_breach_of_asksToStop (h : p.asksToStop = true) :
    ((stopRequested.run p).2 : Process).governance.breach.isSome := by
  obtain ⟨q, hrun, hq⟩ := exists_run_stopRequested p
  rw [asksToStop, hrun] at h
  rw [hrun]
  exact (congrArg Option.isSome hq).trans h

end Process

/-! ### Polls in a row -/

/-- A poll is made in each of the processes, the first one where the count of polls starts. Whatever
happens between two polls leaves the state of governance as it is. -/
structure IsPolledAlong (s : Nat → Process) : Prop where
  /-- The count starts. -/
  start : (s 0).governance.IsRestarted
  /-- The next poll finds the state of governance as the poll before has left it. -/
  next : ∀ i, (s (i + 1)).governance = ((stopRequested.run (s i)).2 : Process).governance

/-- The polls which are due, by their number. The count of polls may have wrapped around. -/
theorem Governance.poll_eq_true_iff {g : Governance} {n : Nat} (h : g.polls = UInt32.ofNat n) :
    g.poll.1 = true ↔ n % 32 = 0 := by
  have hmod : (UInt32.ofNat n % pollInterval).toNat = n % 32 := by
    rw [UInt32.toNat_mod, UInt32.toNat_ofNat']
    exact Nat.mod_mod_of_dvd n (by decide)
  rw [poll, h, decide_eq_true_eq, ← UInt32.toNat_inj, hmod]
  rfl

namespace IsPolledAlong

variable {s : Nat → Process} {n : Nat}

/-- The soft limits stay as they were set. -/
theorem setup_eq (h : IsPolledAlong s) (n : Nat) :
    (s n).governance.setup = (s 0).governance.setup := by
  induction n with
  | zero => rfl
  | succ n ih =>
    rw [h.next]
    exact (lulls_stopRequested (s n)).1.setup.trans ih

/-- Until a poll asks to stop, the polls made are all that changes in the state of governance. -/
theorem governance_eq (h : IsPolledAlong s) (hn : ∀ i < n, (s i).asksToStop = false) :
    (s n).governance = { (s 0).governance with polls := UInt32.ofNat n } := by
  induction n with
  | zero =>
    have hp := h.start.polls
    generalize (s 0).governance = g at hp ⊢
    cases g
    cases hp
    rfl
  | succ n ih =>
    obtain ⟨-, hg⟩ := governance_of_asksToStop_eq_false (hn n (Nat.lt_succ_self n))
    rw [h.next, hg, polled, ih fun i hi => hn i (Nat.lt_succ_of_lt hi), UInt32.ofNat_add]
    rfl

/-- Until a poll asks to stop, a poll looks at the soft limits when the number of polls before it is
a multiple of the interval. -/
theorem looksAtLimits_iff (h : IsPolledAlong s) (hn : ∀ i < n, (s i).asksToStop = false) :
    (s n).LooksAtLimits ↔ n % 32 = 0 := by
  have hg := h.governance_eq hn
  have hb : (s n).governance.breach = none := by rw [hg]; exact h.start.breach
  rw [Process.looksAtLimits_iff, Governance.poll_eq_true_iff (by rw [hg])]
  exact and_iff_right hb

/-- Once a breach is noted, the state of governance stays. -/
theorem governance_eq_of_isSome (h : IsPolledAlong s) {i j : Nat} (hij : i ≤ j)
    (hb : (s i).governance.breach.isSome) : (s j).governance = (s i).governance := by
  induction hij with
  | refl => rfl
  | @step j _ ih =>
    rw [h.next, run_stopRequested_of_isSome (by rw [ih]; exact hb)]
    exact ih

/-- Once a poll asks to stop, all later ones do. -/
theorem asksToStop_of_le (h : IsPolledAlong s) {i j : Nat} (hij : i ≤ j)
    (hi : (s i).asksToStop = true) : (s j).asksToStop = true := by
  obtain rfl | hlt := Nat.eq_or_lt_of_le hij
  · exact hi
  · have hb : (s (i + 1)).governance.breach.isSome := by
      rw [h.next]
      exact isSome_breach_of_asksToStop hi
    have hj : (s j).governance.breach.isSome := by
      rw [h.governance_eq_of_isSome hlt hb]
      exact hb
    rw [asksToStop, run_stopRequested_of_isSome hj]
    rfl

/-- A poll which is not due does not ask to stop, unless an earlier one did. -/
theorem asksToStop_eq_false (h : IsPolledAlong s) (hn : ∀ i < n, (s i).asksToStop = false)
    (hd : n % 32 ≠ 0) : (s n).asksToStop = false := by
  have hg := h.governance_eq hn
  have hb : (s n).governance.breach = none := by rw [hg]; exact h.start.breach
  have hdue : (s n).governance.poll.1 = false := by
    rw [← Bool.not_eq_true, Governance.poll_eq_true_iff (by rw [hg])]
    exact hd
  rw [asksToStop, run_stopRequested_of_not_due hb hdue]
  rfl

/-- As long as no limit is reached, no poll asks to stop. -/
theorem asksToStop_eq_false_of_not_reached (h : IsPolledAlong s)
    (hr : ∀ i < n, (s i).reachedAtPoll? = none) :
    ∀ i < n, (s i).asksToStop = false := by
  induction n with
  | zero => exact fun i hi => absurd hi (Nat.not_lt_zero i)
  | succ n ih =>
    have hbefore := ih fun i hi => hr i (Nat.lt_succ_of_lt hi)
    intro i hi
    obtain hlt | rfl := Nat.lt_succ_iff_lt_or_eq.mp hi
    · exact hbefore i hlt
    · by_cases hd : i % 32 = 0
      · obtain ⟨hb, hdue⟩ := Process.looksAtLimits_iff.mp ((h.looksAtLimits_iff hbefore).mpr hd)
        rw [asksToStop, run_stopRequested_of_due hb hdue, hr i hi]
        rfl
      · exact h.asksToStop_eq_false hbefore hd

/-- A limit which is reached when the soft limits are looked at is noted. -/
theorem noted_of_reachedAtPoll? (h : IsPolledAlong s) (hn : ∀ i < n, (s i).asksToStop = false)
    (hd : n % 32 = 0) (hr : (s n).reachedAtPoll?.isSome) :
    (s n).asksToStop = true ∧ (s (n + 1)).governance.breach = (s n).reachedAtPoll? := by
  obtain ⟨hb, hdue⟩ := Process.looksAtLimits_iff.mp ((h.looksAtLimits_iff hn).mpr hd)
  have hrun := run_stopRequested_of_due hb hdue
  obtain ⟨b, hsome⟩ := Option.isSome_iff_exists.mp hr
  rw [h.next, asksToStop, hrun, hsome]
  refine ⟨rfl, ?_⟩
  change ((s n).polled.governance.note b).breach = some b
  rw [Governance.breach_note]
  exact congrArg (fun x : Option Breach => some (x.getD b)) hb

end IsPolledAlong

/-- Polls made in a row on the given hosts, the first one in the given state of governance. -/
def polledInTurn (host : Nat → Host) (g : Governance) : Nat → Process
  | 0 => { host := host 0, governance := g }
  | i + 1 =>
    { host := host (i + 1)
      governance := ((stopRequested.run (polledInTurn host g i)).2 : Process).governance }

theorem isPolledAlong_polledInTurn (host : Nat → Host) {g : Governance} (hg : g.IsRestarted) :
    IsPolledAlong (polledInTurn host g) := ⟨hg, fun _ => rfl⟩

/-- The reading is that of the host at this poll. -/
theorem reading_polledInTurn (u : Nat → Usage) (g : Governance) (i : Nat) :
    (polledInTurn (fun i => .steady (u i)) g i).reading = u i := by
  cases i <;> rfl

/-- **The polls which look at the soft limits come periodically**, for ever: as long as no poll asks
to stop, these are the polls whose number leaves the remainder `1` when it is divided by `32`. So a
limit which stays reached is noted within `32` polls, however many were made before, and from then
on every poll asks to stop. -/
theorem polls_look_periodically {s : Nat → Process} (h : IsPolledAlong s) :
    (∀ n, 1 ≤ n → (∀ i < n - 1, (s i).asksToStop = false) →
      ((s (n - 1)).LooksAtLimits ↔ n % 32 = 1)) ∧
    (∀ m, (∀ i < m, (s i).asksToStop = false) →
      (∀ i, m ≤ i → i < m + 32 → (s i).reachedAtPoll?.isSome) →
      ∃ k, m ≤ k ∧ k < m + 32 ∧ (∀ i < k, (s i).asksToStop = false) ∧
        (s (k + 1)).governance.breach = (s k).reachedAtPoll? ∧
        ∀ j, k ≤ j → (s j).asksToStop = true) ∧
    ∀ i j, i ≤ j → (s i).asksToStop = true → (s j).asksToStop = true := by
  refine ⟨fun n hn hfalse => ?_, fun m hm hr => ?_, fun i j => h.asksToStop_of_le⟩
  · rw [h.looksAtLimits_iff hfalse]
    omega
  · -- The first poll from the given one on which is due.
    let k := m + (32 - m % 32) % 32
    have hmk : m ≤ k := Nat.le_add_right _ _
    have hkm : k < m + 32 := Nat.add_lt_add_left (Nat.mod_lt _ (by decide)) m
    have hk : k % 32 = 0 := by omega
    have hfalse : ∀ n ≤ k, ∀ i < n, (s i).asksToStop = false := by
      intro n
      induction n with
      | zero => exact fun _ i hi => absurd hi (Nat.not_lt_zero i)
      | succ n ih =>
        intro hn i hi
        have hbefore := ih (Nat.le_of_succ_le hn)
        obtain hlt | rfl := Nat.lt_succ_iff_lt_or_eq.mp hi
        · exact hbefore i hlt
        · by_cases him : i < m
          · exact hm i him
          · exact h.asksToStop_eq_false hbefore (by omega)
    obtain ⟨hstop, hnoted⟩ := h.noted_of_reachedAtPoll? (hfalse k (Nat.le_refl k)) hk (hr k hmk hkm)
    exact ⟨k, hmk, hkm, hfalse k (Nat.le_refl k), hnoted, fun j hj => h.asksToStop_of_le hj hstop⟩

/-- Under a limit on memory which is not reached until the count of polls has wrapped around, the
poll after the wrap looks at the soft limits and the next one does not. The limit is reached five
polls later, and all polls ask to stop from the thirty-seventh one after the wrap on at the
latest. -/
theorem polls_look_periodically_past_wrap :
    ∃ s, IsPolledAlong s ∧ (∀ i < UInt32.size + 5, (s i).asksToStop = false) ∧
      (s UInt32.size).LooksAtLimits ∧ ¬ (s (UInt32.size + 1)).LooksAtLimits ∧
      ∀ j, UInt32.size + 36 ≤ j → (s j).asksToStop = true := by
  let p₀ : Process := { host := .steady { cpuTime := 0, resident := 1, addressSpace := 1 } }
  obtain ⟨g, q, harm, hdeadline, hceiling⟩ : ∃ g q,
      (Governor.arm { memory := 100 }).run p₀ = pure (.ok g, q) ∧
        q.governance.deadline = 0 ∧ q.governance.ceiling = 100 := ⟨_, _, rfl, rfl, rfl⟩
  let u : Nat → Usage := fun i =>
    { cpuTime := 0, resident := 1, addressSpace := if i < UInt32.size + 5 then 1 else 90 }
  let s := polledInTurn (fun i => .steady (u i)) q.governance
  have h : IsPolledAlong s := isPolledAlong_polledInTurn _ (.arm rfl harm)
  have hreached : ∀ i, (s i).reachedAtPoll? =
      if i < UInt32.size + 5 then none else some .memory := by
    intro i
    have hd := (Governance.deadline_eq_of_setup (h.setup_eq i)).trans hdeadline
    have hc := (Governance.ceiling_eq_of_setup (h.setup_eq i)).trans hceiling
    have hused : (s i).reading.addressSpace = if i < UInt32.size + 5 then 1 else 90 :=
      congrArg Usage.addressSpace (reading_polledInTurn u _ i)
    rw [reachedAtPoll?, Governance.reachedLimit?, hd, hc, MemoryMeasure.used, hused]
    by_cases hi : i < UInt32.size + 5
    · rw [if_pos hi, if_pos hi]
      rfl
    · rw [if_neg hi, if_neg hi]
      rfl
  have hfalse : ∀ i < UInt32.size + 5, (s i).asksToStop = false :=
    h.asksToStop_eq_false_of_not_reached fun i hi => by rw [hreached, if_pos hi]
  obtain ⟨hlooks, hnoted, -⟩ := polls_look_periodically h
  have hwrap := hlooks (UInt32.size + 1) (by omega) fun i hi => hfalse i (by omega)
  have hnext := hlooks (UInt32.size + 2) (by omega) fun i hi => hfalse i (by omega)
  obtain ⟨k, -, hk, -, -, hstop⟩ := hnoted (UInt32.size + 5) hfalse fun i hi _ => by
    rw [hreached, if_neg (Nat.not_lt.mpr hi)]
    rfl
  exact ⟨s, h, hfalse, hwrap.mpr (by decide), fun hl => absurd (hnext.mp hl) (by decide),
    fun j hj => hstop j (by omega)⟩

end GovernedSat
