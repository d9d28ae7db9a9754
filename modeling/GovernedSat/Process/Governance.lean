import GovernedSat.Process.Resource

/-!
# The state of governance of a process

At most one governor has limits in force at a time, and what the process keeps for it is a single
record: whether there is one, the first breach noted since it was armed, the soft limits which are
compared with readings of the clock and of the memory in use, and a count of the polls made.

The first breach noted stands until the record is cleared. The count of polls is a word which wraps
around; as the interval divides the number of words, the polls which look at the soft limits stay
evenly spaced across the wrap.

## Main definitions

* `Usage` — a reading of the resources a process uses.
* `Governance` — the record, with `note`, `watch`, `clear` and `poll`.
* `Governance.reachedLimit?` — the soft limit which a reading reaches, if any.

## Main results

* `Governance.breach_note` — the first breach stands.
-/

namespace GovernedSat

/-! ### Readings -/

/-- A reading of the resources a process uses. -/
structure Usage where
  /-- Seconds of CPU time since the process started. -/
  cpuTime : Rat
  /-- Megabytes of resident memory. -/
  resident : Nat
  /-- Megabytes of address space. -/
  addressSpace : Nat
  deriving DecidableEq, Repr

/-- Which memory of a reading is compared with the limit on memory. -/
inductive MemoryMeasure where
  /-- Resident memory with the whole limit. -/
  | resident
  /-- Address space with a part of the limit, so that room is left below the limit itself. -/
  | headroom
  deriving DecidableEq, Repr

namespace MemoryMeasure

/-- The memory of a reading, in megabytes. -/
def used : MemoryMeasure → Usage → Nat
  | resident, u => u.resident
  | headroom, u => u.addressSpace

/-- The part of the limit which may be used, in percent. -/
def percent : MemoryMeasure → Nat
  | resident => 100
  | headroom => 90

end MemoryMeasure

/-- Whether an amount has reached a part of a ceiling, given in percent and rounded down. A ceiling
of `0` is never reached. -/
def ceilingReached (used ceiling percent : Nat) : Bool :=
  ceiling ≠ 0 && ceiling * percent / 100 ≤ used

/-! ### The record -/

/-- What a process keeps for the governor with limits in force. -/
structure Governance where
  /-- Whether some governor has limits in force. -/
  armed : Bool := false
  /-- Whether a failed allocation is noted. -/
  memoryHook : Bool := false
  /-- The first breach noted. -/
  breach : Option Breach := none
  /-- The CPU time at which the limit on it is reached, in whole milliseconds, or `0`. -/
  deadline : Nat := 0
  /-- The limit on memory in megabytes, or `0`. -/
  ceiling : Nat := 0
  /-- How many polls were made, modulo the number of words. -/
  polls : UInt32 := 0
  deriving DecidableEq, Repr

namespace Governance

/-- The number of polls from one look at the soft limits to the next. -/
def pollInterval : UInt32 := 32

/-- Notes a breach, unless one is noted already. -/
def note (g : Governance) (b : Breach) : Governance := { g with breach := g.breach.or (some b) }

/-- Sets the soft limits, and counts polls from the start. -/
def watch (g : Governance) (deadline ceiling : Nat) : Governance :=
  { g with deadline, ceiling, polls := 0 }

/-- Forgets the breach and the soft limits. -/
def clear (g : Governance) : Governance := { g with breach := none }.watch 0 0

/-- Counts a poll, and tells whether it is one which looks at the soft limits. -/
def poll (g : Governance) : Bool × Governance :=
  (g.polls % pollInterval = 0, { g with polls := g.polls + 1 })

/-- The soft limit which a reading reaches, the one on CPU time before the one on memory. -/
def reachedLimit? (g : Governance) (m : MemoryMeasure) (u : Usage) : Option Breach :=
  if g.deadline ≠ 0 ∧ g.deadline ≤ (u.cpuTime * 1000).floor.toNat then some .time
  else if ceilingReached (m.used u) g.ceiling m.percent then some .memory
  else none

/-! ### Basic facts -/

theorem breach_note (g : Governance) (b : Breach) : (g.note b).breach = some (g.breach.getD b) := by
  cases h : g.breach <;> simp [note, h]

theorem note_of_breach {g : Governance} {b : Breach} (h : g.breach = some b) (b' : Breach) :
    g.note b' = g := by
  cases g
  simp_all [note]

@[simp] theorem breach_clear (g : Governance) : g.clear.breach = none := rfl

@[simp] theorem deadline_clear (g : Governance) : g.clear.deadline = 0 := rfl

@[simp] theorem ceiling_clear (g : Governance) : g.clear.ceiling = 0 := rfl

theorem reachedLimit?_eq_none_of_unlimited {g : Governance} (h : g.deadline = 0)
    (h' : g.ceiling = 0) (m : MemoryMeasure) (u : Usage) : g.reachedLimit? m u = none := by
  simp [reachedLimit?, ceilingReached, h, h']

end Governance

end GovernedSat
