import GovernedSat.Proofs.Governor.Polls
import Mathlib.Algebra.Order.Field.Rat
import Mathlib.Tactic.Linarith

/-!
# Checkpoints and the limits of a governor

A checkpoint and the governor with limits in force look at the same limits in different ways. The
governor compares the seconds of CPU time since it was armed with its limit. The checkpoint compares
whole milliseconds of CPU time with a deadline, and both are rounded down. So there may be readings
less than a millisecond below the limit which the governor finds within it although they have the
milliseconds of the deadline; they lie in the *rounding gap*, and checkpoints fail there too early.
At all other readings the two agree, on the resident memory too, and there is no gap when the
governor was armed at a whole millisecond.

A checkpoint tells of the governor with limits in force only. A governor without limits is within
them whatever a checkpoint tells of another one.

## Main definitions

* `Governor.InRoundingGap` — the readings which have the milliseconds of the deadline but are below
  the limit.
* `Governor.exceeded?` — the limit which a governor finds exceeded.

## Main results

* `Governor.reachedLimit?_eq_exceeded?` — the soft limit reached is the limit exceeded.
* `checkpoint_agrees_with_governor` — what a checkpoint notes, and when it fails.
* `checkpoint_of_inRoundingGap` — checkpoints in the gap fail although the limit holds.
* `Governor.requireLimits_of_isUnbounded` — governors without limits.
-/

namespace GovernedSat

open Process

namespace Governor

variable {l : Limits} {g : Governor} {u : Usage} {s : Governance} {p q r : Process}

/-! ### The rounding gap -/

/-- The CPU time has reached the limit rounded down to whole milliseconds, but not the limit. -/
def InRoundingGap (g : Governor) (u : Usage) : Prop :=
  g.limits.time ≠ 0 ∧ ((g.baseline + g.limits.time.toNat) * 1000).floor ≤ u.cpuTime * 1000 ∧
    u.cpuTime < g.baseline + g.limits.time.toNat

/-- The gap is less than a millisecond wide. -/
theorem InRoundingGap.lt (h : g.InRoundingGap u) :
    g.baseline + g.limits.time.toNat < u.cpuTime + 1 / 1000 := by
  have hfloor := Rat.lt_floor (x := (g.baseline + g.limits.time.toNat) * 1000)
  have hle := h.2.1
  linarith

/-- There is no gap when the governor was armed at a whole millisecond. -/
theorem not_inRoundingGap_of_eq {n : Int} (hn : g.baseline * 1000 = n) : ¬ g.InRoundingGap u := by
  rintro ⟨-, hle, hlt⟩
  have hwhole : (g.baseline + g.limits.time.toNat) * 1000 =
      ((n + g.limits.time.toNat * 1000 : Int) : Rat) := by
    push_cast
    rw [add_mul, hn]
  rw [hwhole, Rat.floor_intCast, ← hwhole] at hle
  linarith

/-! ### The limit on CPU time -/

/-- The deadline is reached when the limit is, rounded down to whole milliseconds. -/
theorem deadline_reached_iff_floor_le (h₀ : 0 ≤ g.baseline) (ht : g.limits.time ≠ 0) :
    (g.limits.deadline g.baseline ≠ 0 ∧
      g.limits.deadline g.baseline ≤ (u.cpuTime * 1000).floor.toNat) ↔
        ((g.baseline + g.limits.time.toNat) * 1000).floor ≤ u.cpuTime * 1000 := by
  have htime : (1 : Rat) ≤ g.limits.time.toNat := by
    have hpos : 0 < g.limits.time.toNat := by
      rw [Nat.pos_iff_ne_zero]
      exact fun he => ht (UInt32.toNat_inj.mp he)
    exact_mod_cast hpos
  -- The limit is at least a second, so the deadline is not the `0` which stands for none.
  have hfloor : 1 ≤ ((g.baseline + g.limits.time.toNat) * 1000).floor := by
    rw [Rat.le_floor_iff]
    push_cast
    linarith
  rw [← Rat.le_floor_iff, Limits.deadline, if_neg ht]
  change ((g.baseline + g.limits.time.toNat) * 1000).floor.toNat ≠ 0 ∧
    ((g.baseline + g.limits.time.toNat) * 1000).floor.toNat ≤ _ ↔ _
  omega

/-- The limit does not hold when the CPU time has reached it. -/
theorem timeLimitHoldsAt_eq_false_iff (ht : g.limits.time ≠ 0) :
    g.timeLimitHoldsAt u = false ↔ g.baseline + g.limits.time.toNat ≤ u.cpuTime := by
  rw [timeLimitHoldsAt, Bool.or_eq_false_iff, decide_eq_false_iff_not, decide_eq_false_iff_not,
    not_lt, le_sub_iff_add_le', and_iff_right ht]

/-- Outside the gap the deadline is reached when the limit does not hold. -/
theorem deadline_reached_iff (h₀ : 0 ≤ g.baseline) (hgap : ¬ g.InRoundingGap u) :
    (g.limits.deadline g.baseline ≠ 0 ∧
      g.limits.deadline g.baseline ≤ (u.cpuTime * 1000).floor.toNat) ↔
        g.timeLimitHoldsAt u = false := by
  by_cases ht : g.limits.time = 0
  · simp [Limits.deadline, timeLimitHoldsAt, ht]
  · rw [deadline_reached_iff_floor_le h₀ ht, timeLimitHoldsAt_eq_false_iff ht]
    refine ⟨fun h => not_lt.mp fun hlt => hgap ⟨ht, h, hlt⟩, fun h => ?_⟩
    have hfloor := Rat.floor_le ((g.baseline + g.limits.time.toNat) * 1000)
    linarith

/-- In the gap the limit holds. -/
theorem InRoundingGap.timeLimitHoldsAt (h : g.InRoundingGap u) : g.timeLimitHoldsAt u = true := by
  rw [← Bool.not_eq_false, timeLimitHoldsAt_eq_false_iff h.1]
  exact not_le.mpr h.2.2

/-! ### What a checkpoint finds -/

/-- The resident memory has reached the whole ceiling when the limit on memory does not hold. -/
theorem ceilingReached_iff :
    ceilingReached u.resident g.limits.memory.toNat MemoryMeasure.resident.percent = true ↔
      g.memoryLimitHoldsAt u = false := by
  rw [ceilingReached, memoryLimitHoldsAt, MemoryMeasure.percent, Nat.mul_div_cancel _ (by decide)]
  by_cases hm : g.limits.memory = 0
  · simp [hm]
  · have hne : g.limits.memory.toNat ≠ 0 := fun he => hm (UInt32.toNat_inj.mp he)
    simp [hm, hne]

/-- The limit which the governor finds exceeded at a reading, the one on CPU time before the one on
memory. -/
def exceeded? (g : Governor) (u : Usage) : Option Breach :=
  if g.timeLimitHoldsAt u = false then some .time
  else if g.memoryLimitHoldsAt u = false then some .memory
  else none

/-- **Outside the gap, the soft limit reached is the limit exceeded.** -/
theorem reachedLimit?_eq_exceeded? (hd : s.deadline = g.limits.deadline g.baseline)
    (hc : s.ceiling = g.limits.memory.toNat) (h₀ : 0 ≤ g.baseline) (hgap : ¬ g.InRoundingGap u) :
    s.reachedLimit? .resident u = g.exceeded? u := by
  rw [Governance.reachedLimit?, exceeded?, hd, hc, MemoryMeasure.used]
  simp only [deadline_reached_iff h₀ hgap, ceilingReached_iff]

/-- **In the gap, the soft limit on CPU time is reached.** -/
theorem InRoundingGap.reachedLimit? (h : g.InRoundingGap u)
    (hd : s.deadline = g.limits.deadline g.baseline) (h₀ : 0 ≤ g.baseline) (m : MemoryMeasure) :
    s.reachedLimit? m u = some .time := by
  rw [Governance.reachedLimit?, hd]
  exact if_pos ((deadline_reached_iff_floor_le h₀ h.1).mpr h.2.1)

/-- The percentage of a ceiling which is a word stays far below the number of 64-bit words. -/
theorem ceiling_mul_percent_lt (hc : s.ceiling = l.memory.toNat) (m : MemoryMeasure) :
    s.ceiling * m.percent < 2 ^ 64 := by
  have hlt := l.memory.toNat_lt
  have hm : m.percent ≤ 100 := by cases m <;> decide
  calc s.ceiling * m.percent
      ≤ 2 ^ 32 * 100 := by
        rw [hc]
        exact Nat.mul_le_mul (Nat.le_of_lt hlt) hm
    _ < 2 ^ 64 := by decide

/-- **What a governor sets up is what it was armed with.** A governor without limits sets nothing
up, and there is nothing where no soft limit was set before. -/
theorem setup_of_arm (hp : p.IsIdle) (harm : (arm l).run p = pure (.ok g, q)) :
    g.limits = l ∧ q.governance.deadline = l.deadline g.baseline ∧
      q.governance.ceiling = l.memory.toNat := by
  cases hl : l.isUnbounded with
  | true =>
    obtain ⟨baseline, hrun⟩ := run_arm p hl
    cases hrun.symm.trans harm
    simp only [Limits.isUnbounded, Bool.and_eq_true, decide_eq_true_eq] at hl
    refine ⟨rfl, ?_, ?_⟩
    · rw [Limits.deadline, if_pos hl.1.1]
      exact hp.deadline
    · rw [hl.1.2]
      exact hp.ceiling
  | false =>
    obtain ⟨hlimits, -, hd, hc, -⟩ := governance_of_arm hl harm
    exact ⟨hlimits, hd, hc⟩

theorem run_timeLimitHolds (g : Governor) (p : Process) :
    g.timeLimitHolds.run p = pure (g.timeLimitHoldsAt p.reading, p.afterReading) := rfl

theorem run_memoryLimitHolds (g : Governor) (p : Process) :
    g.memoryLimitHolds.run p = pure (g.memoryLimitHoldsAt p.reading, p.afterReading) := rfl

/-- Both limits are looked at, at one reading as long as the host gives the same one twice. -/
theorem run_requireLimits (hsame : r.host.usage (r.readings + 1) = r.host.usage r.readings) :
    (g.requireLimits.run r).1 =
      if g.exceeded? r.reading = none then .ok () else .error .resourceLimitExceeded := by
  have hreading : r.afterReading.reading = r.reading := by
    rw [reading, reading]
    change ({ r.host.usage (r.readings + 1) with
      addressSpace := (r.host.usage (r.readings + 1)).addressSpace + r.reserved } : Usage) = _
    rw [hsame]
    rfl
  rw [requireLimits, limitsHold, StateT.run_bind, StateT.run_bind, run_timeLimitHolds, pure_bind]
  cases ht : g.timeLimitHoldsAt r.reading with
  | false =>
    rw [exceeded?, ht]
    rfl
  | true =>
    -- The memory is looked at by a reading of its own.
    rw [if_pos rfl, run_memoryLimitHolds, hreading, exceeded?, ht]
    cases g.memoryLimitHoldsAt r.reading <;> rfl

/-- **A governor without limits is within them**, whatever a checkpoint tells of another one. -/
theorem requireLimits_of_isUnbounded (hl : g.limits.isUnbounded = true) (p : Process) :
    (g.requireLimits.run p).1 = .ok () := by
  simp only [Limits.isUnbounded, Bool.and_eq_true, decide_eq_true_eq] at hl
  have htime : ∀ u, g.timeLimitHoldsAt u = true := fun u => by simp [timeLimitHoldsAt, hl.1.1]
  have hmemory : ∀ u, g.memoryLimitHoldsAt u = true := fun u => by
    simp [memoryLimitHoldsAt, hl.1.2]
  rw [requireLimits, limitsHold, StateT.run_bind, StateT.run_bind, run_timeLimitHolds, pure_bind,
    htime, if_pos rfl, run_memoryLimitHolds, hmemory]
  rfl

end Governor

/-- A checkpoint where no breach is noted notes the soft limit which is reached, and tells of it. -/
theorem checkpoint_of_breach_eq_none {r : Process} (hb : r.governance.breach = none) :
    (checkpoint.run r).1 = passed (r.governance.reachedLimit? .resident r.reading) ∧
      ((checkpoint.run r).2 : Process).governance.breach =
        r.governance.reachedLimit? .resident r.reading := by
  obtain ⟨q, hrun, hq⟩ := exists_run_checkpoint r
  rw [hb, Option.none_or, Occasion.breach?, if_pos (by rw [hb]; rfl)] at hrun hq
  rw [hrun]
  exact ⟨rfl, hq⟩

/-- **A checkpoint agrees with the governor armed**, at every reading outside the rounding gap: it
notes a breach of the limit on CPU time exactly where this limit does not hold, otherwise one of the
limit on memory exactly where that one does not hold, and it fails exactly where the governor does.
The gap is less than a millisecond wide, and there is none for a governor armed at a whole
millisecond. The percentage of the limit on memory is a 64-bit word. -/
theorem checkpoint_agrees_with_governor {l : Limits} {p q r : Process} {g : Governor}
    (hp : p.IsIdle) (harm : (Governor.arm l).run p = pure (.ok g, q)) (h₀ : 0 ≤ g.baseline)
    (hr : q.Drift r) (hb : r.governance.breach = none) :
    (∀ m : MemoryMeasure, r.governance.ceiling * m.percent < 2 ^ 64) ∧
    (∀ u, g.InRoundingGap u → g.baseline + l.time.toNat < u.cpuTime + 1 / 1000) ∧
    (∀ n : Int, g.baseline * 1000 = n → ∀ u, ¬ g.InRoundingGap u) ∧
    (¬ g.InRoundingGap r.reading →
      (((checkpoint.run r).2 : Process).governance.breach = some .time ↔
        (g.timeLimitHolds.run r).1 = false) ∧
      ((g.timeLimitHolds.run r).1 = true →
        (((checkpoint.run r).2 : Process).governance.breach = some .memory ↔
          (g.memoryLimitHolds.run r).1 = false)) ∧
      (r.host.usage (r.readings + 1) = r.host.usage r.readings →
        ((checkpoint.run r).1 = .ok () ↔ (g.requireLimits.run r).1 = .ok ()))) := by
  obtain ⟨hl, hd, hc⟩ := Governor.setup_of_arm hp harm
  have hd' := (Governance.deadline_eq_of_setup hr.setup).trans hd
  have hc' := (Governance.ceiling_eq_of_setup hr.setup).trans hc
  refine ⟨Governor.ceiling_mul_percent_lt hc', fun u hu => hl ▸ hu.lt,
    fun n hn u => Governor.not_inRoundingGap_of_eq hn, fun hgap => ?_⟩
  have hreached := Governor.reachedLimit?_eq_exceeded? (hl.symm ▸ hd') (hl.symm ▸ hc') h₀ hgap
  obtain ⟨hresult, hnoted⟩ := checkpoint_of_breach_eq_none hb
  have htime : (g.timeLimitHolds.run r).1 = g.timeLimitHoldsAt r.reading := rfl
  have hmemory : (g.memoryLimitHolds.run r).1 = g.memoryLimitHoldsAt r.reading := rfl
  rw [hresult, hnoted, hreached, htime, hmemory, Governor.exceeded?]
  refine ⟨?_, fun ht => ?_, fun hsame => ?_⟩
  · cases g.timeLimitHoldsAt r.reading <;> cases g.memoryLimitHoldsAt r.reading <;> simp
  · rw [ht]
    cases g.memoryLimitHoldsAt r.reading <;> simp
  · rw [Governor.run_requireLimits hsame, Governor.exceeded?]
    cases g.timeLimitHoldsAt r.reading <;> cases g.memoryLimitHoldsAt r.reading <;>
      simp [passed]

/-- A host on which every call succeeds, with the given readings. -/
def Host.varying (u : Nat → Usage) : Host := { Host.steady (u 0) with usage := u }

/-- A governor armed at three seconds with a limit of two seconds finds it exceeded at five seconds
sharp, and a checkpoint notes that. -/
theorem checkpoint_agrees_with_governor_sharp :
    ∃ (p q : Process) (g : Governor),
      p.host = .varying (fun n => ⟨if n = 0 then 3 else 5, 40, 90⟩) ∧ p.IsIdle ∧
      (Governor.arm { time := 2, memory := 100 }).run p = pure (.ok g, q) ∧ 0 ≤ g.baseline ∧
      q.Drift q ∧ q.governance.breach = none ∧ ¬ g.InRoundingGap q.reading ∧
      ((checkpoint.run q).2 : Process).governance.breach = some .time ∧
      (g.timeLimitHolds.run q).1 = false ∧ (g.requireLimits.run q).1 ≠ .ok () := by
  obtain ⟨g, q, harm, h₀, hwhole, hb, htime, hfails, hsame⟩ : ∃ g q,
      (Governor.arm { time := 2, memory := 100 }).run
          { host := .varying fun n => ⟨if n = 0 then 3 else 5, 40, 90⟩ } = pure (.ok g, q) ∧
        0 ≤ g.baseline ∧ g.baseline * 1000 = (3000 : Int) ∧ q.governance.breach = none ∧
        (g.timeLimitHolds.run q).1 = false ∧ (checkpoint.run q).1 ≠ .ok () ∧
        q.host.usage (q.readings + 1) = q.host.usage q.readings := by
    refine ⟨_, _, rfl, ?_, ?_, ?_, ?_, ?_, ?_⟩ <;> decide +kernel
  obtain ⟨-, -, hgap, hagree⟩ :=
    checkpoint_agrees_with_governor (isIdle_new _) harm h₀ (.refl q) hb
  obtain ⟨hnoted, -, hrequire⟩ := hagree (hgap 3000 hwhole q.reading)
  exact ⟨_, q, g, rfl, isIdle_new _, harm, h₀, .refl q, hb, hgap 3000 hwhole q.reading,
    hnoted.mpr htime, htime, mt (hrequire hsame).mpr hfails⟩

/-- **In the rounding gap a checkpoint fails too early**: it notes a breach of the limit on CPU time
while the governor finds that this limit holds. -/
theorem checkpoint_of_inRoundingGap {l : Limits} {p q r : Process} {g : Governor}
    (hp : p.IsIdle) (harm : (Governor.arm l).run p = pure (.ok g, q)) (h₀ : 0 ≤ g.baseline)
    (hr : q.Drift r) (hb : r.governance.breach = none) (hgap : g.InRoundingGap r.reading) :
    ((checkpoint.run r).2 : Process).governance.breach = some .time ∧
      (checkpoint.run r).1 = .error .timeLimitExceeded ∧ (g.timeLimitHolds.run r).1 = true := by
  obtain ⟨hl, hd, -⟩ := Governor.setup_of_arm hp harm
  have hd' := (Governance.deadline_eq_of_setup hr.setup).trans hd
  obtain ⟨hresult, hnoted⟩ := checkpoint_of_breach_eq_none hb
  rw [hresult, hnoted, hgap.reachedLimit? (hl.symm ▸ hd') h₀ .resident]
  exact ⟨rfl, rfl, hgap.timeLimitHoldsAt⟩

/-- **What a checkpoint finds may not be what the governor armed finds.** A governor is armed at
half a millisecond with a limit of one second. At 1000.2 milliseconds, in the rounding gap, the
checkpoint notes a breach of the limit on CPU time, which still holds. -/
theorem checkpoint_disagrees_with_governor :
    ∃ (q : Process) (g : Governor),
      (Governor.arm { time := 1 }).run
          { host := .varying fun n => ⟨if n = 0 then 1 / 2000 else 10002 / 10000, 40, 90⟩ } =
        pure (.ok g, q) ∧
      g.baseline = 1 / 2000 ∧ q.reading.cpuTime = 10002 / 10000 ∧ q.governance.breach = none ∧
      ((checkpoint.run q).2 : Process).governance.breach = some .time ∧
      (g.timeLimitHolds.run q).1 = true ∧
      (checkpoint.run q).1 = .error .timeLimitExceeded ∧ (g.requireLimits.run q).1 = .ok () := by
  refine ⟨_, _, rfl, rfl, rfl, rfl, ?_, ?_, ?_, ?_⟩ <;> decide +kernel

end GovernedSat
