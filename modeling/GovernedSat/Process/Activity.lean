import GovernedSat.Process.Basic

/-!
# What happens to a process under limits

The soft limits show in what the system does to the process: it delivers signals, denies address
space, cuts short the writing of files and denies allocations. A handled signal and a failed
allocation raise the soft limit to the hard one before the breach is noted, so that the process has
room to act on it, and to attempt the allocation again.

## Main definitions

* `Process.deliver` — the delivery of a signal.
* `Process.allocate` — an allocation, which is noted and attempted once more when it fails.
* `Process.reserve`, `Process.unreserve` — address space held and given back.
* `Process.writeFile` — one write to a new file.
* `Process.softLimit?` — the soft limit in force on a resource.
-/

namespace GovernedSat

namespace Process

/-- Raises the soft limit on a resource to the hard limit, where the system allows it. -/
def raiseSoftLimit (r : Resource) : ProcessM Unit := do
  match ← readLimit r with
  | some l => discard (setLimit r l.raised)
  | none => pure ()

/-- Delivers a signal: an action which notes the breach raises the soft limit first. Tells whether
there is such an action; without one nothing happens. -/
def deliver (s : Signal) : ProcessM Bool := do
  match (← get).actions.get s with
  | .noting =>
    raiseSoftLimit s.resource
    govern (·.note s.breach)
    return true
  | .inherited => return false

/-! ### Memory -/

/-- What a failed attempt to allocate memory leads to: with the hook in place, the limit on address
space is raised and the breach noted. Tells whether to attempt it once more. -/
def allocationFailed : ProcessM Bool := do
  if (← get).governance.memoryHook then
    raiseSoftLimit .addressSpace
    govern (·.note .memory)
    return true
  else
    return false

/-- Allocates a number of bytes, to be given back at once, with a second attempt where the first one
was noted to fail. Tells whether it succeeded. -/
def allocate (bytes : Nat) : ProcessM Bool := do
  if ← attempt bytes then
    return true
  else if ← allocationFailed then
    attempt bytes
  else
    return false

/-- The number of bytes in a number of megabytes. -/
def bytesOfMegabytes (megabytes : Nat) : Nat := megabytes * megabyte

/-- Tries to hold a number of megabytes of address space, and tells whether the soft limit on
address space admits it. -/
def reserve (megabytes : Nat) : ProcessM Bool := do
  let u ← readUsage
  let p ← get
  if p.limits.addressSpace.soft < bytesOfMegabytes (u.addressSpace + megabytes) then
    return false
  else
    set { p with reserved := p.reserved + megabytes }
    return true

/-- Gives back all address space held. -/
def unreserve : ProcessM Unit :=
  modify fun p => { p with reserved := 0 }

/-! ### Files -/

/-- Writes a number of bytes at an offset of a new file, and gives how many were written: those
below the soft limit on the size of files. When there is none such, the write fails with a
signal. -/
def writeFile (offset length : Nat) : ProcessM (Option Nat) := do
  let soft := (← get).limits.fileSize.soft
  if length = 0 then
    return some 0
  else if soft ≤ offset then
    discard (deliver .fileSizeExceeded)
    return none
  else
    return some (min length (soft - offset))

/-! ### The soft limits -/

/-- The soft limit of a resource, where it is not the hard one. -/
def softLimit? (p : Process) (r : Resource) : Option Nat :=
  let l := p.limits.get r
  if l.soft = l.hard then none else some l.soft

end Process

end GovernedSat
