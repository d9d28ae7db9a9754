import GovernedSat.Log
import GovernedSat.Process.Governance
import GovernedSat.Solver.Script

/-!
# The process

The process in which solvers run has limits on its resources, actions on its signals and the state
of governance, all of which are shared by whatever runs in it. What lies beyond the library is a
`Host`: the readings of the clock and of the memory in use, one after another, which attempts to
allocate memory succeed, and which calls to the system do. Nothing is assumed of the host here.

The process also carries the script which scripted solvers follow, the journal of the calls to
solvers, and the log.

## Main definitions

* `Host` — what the system answers.
* `Process` — the state of the process.
* `ProcessM` — computations which read and change it.
* `addressable` — how much memory can be allocated at all.
* `Process.readUsage`, `Process.readLimit`, `Process.setLimit`, `Process.setAction`,
  `Process.attempt` — calls to the system.
-/

namespace GovernedSat

/-- What the system answers to a process. -/
structure Host where
  /-- The reading of the resources in use which is made as the `n`-th. -/
  usage : Nat → Usage
  /-- Whether the limits on a resource can be read. -/
  readable : Resource → Bool
  /-- Whether the limits on a resource can be set. -/
  settable : Resource → Bool
  /-- Whether the action on a signal can be changed. -/
  catchable : Signal → Bool
  /-- Whether the `n`-th attempt to allocate memory succeeds, by the soft limit on address space and
  the number of bytes. -/
  grants : (n soft bytes : Nat) → Bool

/-- The number of bytes from which on no allocation can succeed: there are no more addresses. -/
def addressable : Nat := 0x800000000000

/-- A host on which every call succeeds, every reading is the same, and memory is allocated up to
the soft limit. -/
def Host.steady (u : Usage) : Host where
  usage _ := u
  readable _ := true
  settable _ := true
  catchable _ := true
  grants _ soft bytes := bytes ≤ soft && bytes < addressable

/-- The state of a process. -/
structure Process where
  /-- What the system answers. -/
  host : Host
  /-- How many readings of the resources in use were made. -/
  readings : Nat := 0
  /-- How many attempts to allocate memory were made. -/
  attempts : Nat := 0
  /-- The limits on each resource. -/
  limits : Resource.Table ResourceLimit := ⟨.unlimited, .unlimited, .unlimited⟩
  /-- The action on each signal. -/
  actions : Signal.Table SignalAction := ⟨.inherited, .inherited⟩
  /-- Megabytes of address space held besides what the host reports. -/
  reserved : Nat := 0
  /-- The state of governance. -/
  governance : Governance := {}
  /-- The steps which scripted solvers have yet to take. -/
  script : List ScriptStep := []
  /-- How many solvers were made. -/
  made : Nat := 0
  /-- How many solvers were made and not yet released. -/
  live : Nat := 0
  /-- The calls to solvers, in order. -/
  journal : Array Call := #[]
  /-- The events logged, in order. -/
  log : Array LogEvent := #[]

/-- Computations which read and change a process. -/
abbrev ProcessM := StateM Process

namespace Process

/-! ### The log, the journal, and the state of governance -/

/-- Logs an event. -/
def logEvent (e : LogEvent) : ProcessM Unit :=
  modify fun p => { p with log := p.log.push e }

/-- Adds a call to the journal. -/
def record (c : Call) : ProcessM Unit :=
  modify fun p => { p with journal := p.journal.push c }

/-- Changes the state of governance. -/
def govern (f : Governance → Governance) : ProcessM Unit :=
  modify fun p => { p with governance := f p.governance }

/-! ### Calls to the system -/

/-- A reading of the resources in use. -/
def readUsage : ProcessM Usage :=
  modifyGet fun p =>
    let u := p.host.usage p.readings
    ({ u with addressSpace := u.addressSpace + p.reserved }, { p with readings := p.readings + 1 })

/-- The limits on a resource, if they can be read. -/
def readLimit (r : Resource) : ProcessM (Option ResourceLimit) :=
  modifyGet fun p => (if p.host.readable r then some (p.limits.get r) else none, p)

/-- Sets the limits on a resource, and tells whether it succeeded. -/
def setLimit (r : Resource) (l : ResourceLimit) : ProcessM Bool :=
  modifyGet fun p =>
    if p.host.settable r then (true, { p with limits := p.limits.set r l }) else (false, p)

/-- Sets the action on a signal, and gives the action until then if it succeeded. -/
def setAction (s : Signal) (a : SignalAction) : ProcessM (Option SignalAction) :=
  modifyGet fun p =>
    if p.host.catchable s then
      (some (p.actions.get s), { p with actions := p.actions.set s a })
    else (none, p)

/-- Attempts to allocate a number of bytes, to be given back at once, and tells whether it
succeeded. -/
def attempt (bytes : Nat) : ProcessM Bool :=
  modifyGet fun p =>
    let granted := p.host.grants p.attempts p.limits.addressSpace.soft bytes
    (granted, { p with attempts := p.attempts + 1 })

end Process

end GovernedSat
