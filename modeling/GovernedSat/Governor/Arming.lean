import GovernedSat.Process.Basic

/-!
# Arming and disarming a governor

A governor is armed with limits. For each limit other than `0` it lowers the soft limit of the
process on that resource, never above the hard one, and has the signal about the resource, if there
is one, noted as a breach. What was in force before is saved, the latest first, and is restored in
that order when the governor is disarmed, or when arming fails half-way.

At most one governor with limits is armed at a time. A governor without limits changes nothing, and
there may be any number of them.

## Main definitions

* `Governor` — a governor, with the limits it was armed with and what it saved.
* `Governor.arm`, `Governor.disarm`.
* `LimitRequest`, `Limits.requests` — the soft limits which are asked for.
-/

namespace GovernedSat

/-! ### What is asked of the system -/

/-- A soft limit asked for a resource. -/
structure LimitRequest where
  /-- The resource. -/
  resource : Resource
  /-- The soft limit, unless the hard limit is lower. -/
  ceiling : Nat
  /-- The signal about the resource. -/
  signal : Option Signal
  deriving DecidableEq, Repr

/-- The soft limits to be installed, when `baseline` seconds of CPU time have passed: whole seconds,
rounded up, and bytes. -/
def Limits.requests (l : Limits) (baseline : Rat) : List LimitRequest :=
  [(l.time, { resource := .cpuTime
              ceiling := (baseline + l.time.toNat).ceil.toNat
              signal := some .cpuTimeExceeded }),
   (l.memory, { resource := .addressSpace, ceiling := l.memory.toNat * megabyte, signal := none }),
   (l.fileSize, { resource := .fileSize
                  ceiling := l.fileSize.toNat * megabyte
                  signal := some .fileSizeExceeded })].filterMap
    fun r => if r.1 = 0 then none else some r.2

/-- The CPU time at which a limit of so many seconds from `baseline` on is reached, in whole
milliseconds. -/
def Limits.deadline (l : Limits) (baseline : Rat) : Nat :=
  if l.time = 0 then 0 else ((baseline + l.time.toNat) * 1000).floor.toNat

/-- What was in force for a resource. -/
structure SavedLimit where
  /-- The resource. -/
  resource : Resource
  /-- The limits on it. -/
  limit : ResourceLimit
  /-- The signal about it, and the action on that signal. -/
  action : Option (Signal × SignalAction)
  deriving DecidableEq, Repr

/-- A governor of the resources of the process. -/
structure Governor where
  /-- The limits it was armed with. -/
  limits : Limits
  /-- The CPU time when it was armed. -/
  baseline : Rat
  /-- What was in force before, the latest first, if the governor has limits. -/
  saved : Option (List SavedLimit)
  deriving DecidableEq, Repr

namespace Governor

open Process

/-! ### Installing limits -/

/-- Has a signal noted as a breach, and gives the signal with its earlier action, or nothing where
there is no signal. Fails if the action on the signal cannot be changed. -/
def catchSignal : Option Signal → ProcessM (Option (Option (Signal × SignalAction)))
  | none => return some none
  | some s => return (← setAction s .noting).map fun a => some (s, a)

/-- Lowers one soft limit, and gives what was in force. Fails if the limits cannot be read or the
signal cannot be caught; that the limit itself cannot be set is only logged. -/
def lowerLimit (r : LimitRequest) : ProcessM (Except LimitError SavedLimit) := do
  match ← readLimit r.resource with
  | none =>
    logEvent (.limitUnreadable r.resource)
    return .error .resourceLimitsUnsupported
  | some limit =>
    match ← catchSignal r.signal with
    | none =>
      logEvent (.signalUnhandled r.resource)
      return .error .resourceLimitsUnsupported
    | some action =>
      let lowered := limit.lowered r.ceiling
      if !(← setLimit r.resource lowered) then
        logEvent (.limitUnset r.resource lowered.soft)
      logEvent (.limitLowered r.resource lowered.soft)
      return .ok { resource := r.resource, limit, action }

/-- Restores what was in force for one resource. -/
def restoreLimit (s : SavedLimit) : ProcessM Unit := do
  if !(← setLimit s.resource s.limit) then
    logEvent .restoringFailed
  match s.action with
  | some (signal, action) => discard (setAction signal action)
  | none => pure ()

/-- Takes the hook away and restores what was in force, the latest first. -/
def restoreAll (saved : List SavedLimit) : ProcessM Unit := do
  govern ({ · with memoryHook := false })
  saved.forM restoreLimit

/-- Lowers the soft limits one after another, given what was saved before, and gives all that was
saved, the latest first. When one fails, all is restored. -/
def lowerAll : List LimitRequest → List SavedLimit → ProcessM (Except LimitError (List SavedLimit))
  | [], saved => return .ok saved
  | r :: rs, saved => do
    match ← lowerLimit r with
    | .ok s => lowerAll rs (s :: saved)
    | .error e =>
      restoreAll saved
      return .error e

/-! ### Arming and disarming -/

/-- Arms a governor. With limits, it fails if limits are in force already, or if they cannot be
installed. -/
def arm (l : Limits) : ProcessM (Except LimitError Governor) := do
  let baseline := (← readUsage).cpuTime
  if l.isUnbounded then
    return .ok { limits := l, baseline, saved := none }
  else if (← get).governance.armed then
    logEvent .armingRefused
    return .error .governorArmed
  else
    govern ({ ·.clear with armed := true })
    match ← lowerAll (l.requests baseline) [] with
    | .error e =>
      govern ({ · with armed := false })
      return .error e
    | .ok saved =>
      govern fun g =>
        ({ g with memoryHook := g.memoryHook || l.memory ≠ 0 }).watch
          (l.deadline baseline) l.memory.toNat
      logEvent (.armed l)
      return .ok { limits := l, baseline, saved := some saved }

/-- Disarms a governor. With limits, what was in force before is restored, and any breach is
forgotten. -/
def disarm (g : Governor) : ProcessM Unit := do
  match g.saved with
  | none => pure ()
  | some saved =>
    restoreAll saved
    govern ({ ·.clear with armed := false })
    logEvent (.disarmed ((← readUsage).cpuTime - g.baseline))

end Governor

end GovernedSat
