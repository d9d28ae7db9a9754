import GovernedSat.Governor.Arming

/-!
# Finding breaches

A breach is acted on only where the library asks for it: at a checkpoint, which fails with the
error of the breach noted, and at a poll, by which a solver learns that it has to stop. Both compare
the soft limits with a reading of the resources in use as long as no breach is noted, a poll only
once in an interval.

A governor also tells, of its own limits, whether they still hold.

## Main definitions

* `checkpoint`, `stopRequested` — the two ways in which a breach is found.
* `Governor.timeLimitHolds`, `Governor.memoryLimitHolds`, `Governor.requireLimits` — whether
  the limits of a governor still hold.
-/

namespace GovernedSat

open Process

/-! ### Checkpoints and polls -/

/-- Notes the soft limit which a reading reaches, if any, and gives it. -/
def noteReachedLimit (m : MemoryMeasure) : ProcessM (Option Breach) := do
  let u ← readUsage
  match (← get).governance.reachedLimit? m u with
  | some b =>
    govern (·.note b)
    return some b
  | none => return none

/-- Fails with the error of the first breach noted. If none is noted, resident memory and the CPU
time are looked at first. -/
def checkpoint : ProcessM (Except LimitError Unit) := do
  if (← get).governance.breach.isNone then
    discard (noteReachedLimit .resident)
  match (← get).governance.breach with
  | some b =>
    logEvent (.breachFound b)
    return .error b.toError
  | none => return .ok ()

/-- Whether a solver has to stop: a breach is noted, or is found by looking at the address space and
the CPU time, which happens once in an interval of polls. -/
def stopRequested : ProcessM Bool := do
  if (← get).governance.breach.isSome then
    return true
  else if ← modifyGet fun p =>
      let (due, g) := p.governance.poll
      (due, { p with governance := g }) then
    return (← noteReachedLimit .headroom).isSome
  else
    return false

/-! ### The limits of a governor -/

namespace Governor

/-- Whether the CPU time since arming is below the limit on it, at a reading. -/
def timeLimitHoldsAt (g : Governor) (u : Usage) : Bool :=
  g.limits.time = 0 || u.cpuTime - g.baseline < g.limits.time.toNat

/-- Whether the resident memory is below the limit on memory, at a reading. -/
def memoryLimitHoldsAt (g : Governor) (u : Usage) : Bool :=
  g.limits.memory = 0 || u.resident < g.limits.memory.toNat

/-- Whether the limit on CPU time holds now. -/
def timeLimitHolds (g : Governor) : ProcessM Bool :=
  return g.timeLimitHoldsAt (← readUsage)

/-- Whether the limit on memory holds now. -/
def memoryLimitHolds (g : Governor) : ProcessM Bool :=
  return g.memoryLimitHoldsAt (← readUsage)

/-- Whether both limits hold now. The memory is looked at only if the CPU time is within its
limit. -/
def limitsHold (g : Governor) : ProcessM Bool := do
  if ← g.timeLimitHolds then g.memoryLimitHolds else return false

/-- Fails if some limit does not hold now. -/
def requireLimits (g : Governor) : ProcessM (Except LimitError Unit) :=
  return if ← g.limitsHold then .ok () else .error .resourceLimitExceeded

end Governor

end GovernedSat
