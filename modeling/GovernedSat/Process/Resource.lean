import GovernedSat.Error

/-!
# Resources, signals and breaches

A process has a *soft* limit for each resource, which is enforced, and a *hard* limit, up to which
the soft limit may be raised. Passing the soft limit on CPU time or on the size of a file is told
by a signal; passing the one on address space makes an allocation fail. What the governor notes of
it is a *breach*.

## Main definitions

* `Resource`, `ResourceLimit` — what may be limited, and by how much.
* `Signal` — the two signals, each with its `resource` and its `breach`.
* `Breach` — what may be noted, with the error it becomes.
* `Resource.Table`, `Signal.Table` — one value for each resource, or for each signal.
-/

namespace GovernedSat

/-! ### Resources -/

/-- A resource of which a process may use a limited amount. -/
inductive Resource where
  /-- Seconds of CPU time. -/
  | cpuTime
  /-- Bytes of address space. -/
  | addressSpace
  /-- Bytes of a file written. -/
  | fileSize
  deriving DecidableEq, Repr

/-- The name of a resource in the log. -/
def Resource.name : Resource → String
  | cpuTime => "CPU"
  | addressSpace => "address space"
  | fileSize => "file size"

/-- The number of bytes of a megabyte. -/
def megabyte : Nat := 0x100000

/-- The limits on a resource. -/
structure ResourceLimit where
  /-- The limit which is enforced. -/
  soft : Nat
  /-- The limit up to which the soft one may be raised. -/
  hard : Nat
  deriving DecidableEq, Repr

namespace ResourceLimit

/-- The number which stands for the absence of a limit: the greatest 64-bit word. -/
def infinity : Nat := 0xffffffffffffffff

/-- No limit. -/
def unlimited : ResourceLimit := ⟨infinity, infinity⟩

/-- The soft limit raised to the hard one. -/
def raised (l : ResourceLimit) : ResourceLimit := { l with soft := l.hard }

/-- The soft limit set to a ceiling, or to the hard limit if that is lower. -/
def lowered (l : ResourceLimit) (ceiling : Nat) : ResourceLimit :=
  { l with soft := min ceiling l.hard }

@[simp] theorem hard_raised (l : ResourceLimit) : l.raised.hard = l.hard := rfl

@[simp] theorem hard_lowered (l : ResourceLimit) (n : Nat) : (l.lowered n).hard = l.hard := rfl

end ResourceLimit

/-- One value for each resource. -/
structure Resource.Table (α : Type) where
  /-- The value for CPU time. -/
  cpuTime : α
  /-- The value for address space. -/
  addressSpace : α
  /-- The value for the size of files. -/
  fileSize : α
  deriving DecidableEq, Repr

namespace Resource.Table

variable {α : Type}

/-- The value for a resource. -/
def get (t : Table α) : Resource → α
  | .cpuTime => t.cpuTime
  | .addressSpace => t.addressSpace
  | .fileSize => t.fileSize

/-- The table with another value for a resource. -/
def set (t : Table α) (r : Resource) (x : α) : Table α :=
  match r with
  | .cpuTime => { t with cpuTime := x }
  | .addressSpace => { t with addressSpace := x }
  | .fileSize => { t with fileSize := x }

theorem get_set (t : Table α) (r r' : Resource) (x : α) :
    (t.set r x).get r' = if r' = r then x else t.get r' := by
  cases r <;> cases r' <;> rfl

@[simp] theorem get_set_self (t : Table α) (r : Resource) (x : α) : (t.set r x).get r = x := by
  cases r <;> rfl

@[simp] theorem set_get (t : Table α) (r : Resource) : t.set r (t.get r) = t := by
  cases r <;> rfl

@[simp] theorem set_set (t : Table α) (r : Resource) (x y : α) :
    (t.set r x).set r y = t.set r y := by
  cases r <;> rfl

end Resource.Table

/-! ### Breaches -/

/-- What the governor may note. -/
inductive Breach where
  /-- The limit on CPU time was reached. -/
  | time
  /-- The limit on memory was reached. -/
  | memory
  /-- The limit on the size of files was reached. -/
  | fileSize
  deriving DecidableEq, Repr

namespace Breach

/-- The name of a breach in the log. -/
def name : Breach → String
  | time => "Time"
  | memory => "Memory"
  | fileSize => "FileSize"

/-- The error which a breach becomes. -/
def toError : Breach → LimitError
  | time => .timeLimitExceeded
  | memory => .memoryLimitExceeded
  | fileSize => .fileSizeLimitExceeded

end Breach

/-! ### Signals -/

/-- A signal by which the system tells that a soft limit was passed. -/
inductive Signal where
  /-- The limit on CPU time was passed. -/
  | cpuTimeExceeded
  /-- The limit on the size of files was passed. -/
  | fileSizeExceeded
  deriving DecidableEq, Repr

namespace Signal

/-- The resource a signal is about. -/
def resource : Signal → Resource
  | cpuTimeExceeded => .cpuTime
  | fileSizeExceeded => .fileSize

/-- The breach a signal tells of. -/
def breach : Signal → Breach
  | cpuTimeExceeded => .time
  | fileSizeExceeded => .fileSize

end Signal

/-- What a process does on a signal. -/
inductive SignalAction where
  /-- What it did before any governor changed it. -/
  | inherited
  /-- It raises the soft limit of the resource to the hard one and notes the breach. -/
  | noting
  deriving DecidableEq, Repr

/-- One value for each signal. -/
structure Signal.Table (α : Type) where
  /-- The value for the signal about CPU time. -/
  cpuTimeExceeded : α
  /-- The value for the signal about the size of files. -/
  fileSizeExceeded : α
  deriving DecidableEq, Repr

namespace Signal.Table

variable {α : Type}

/-- The value for a signal. -/
def get (t : Table α) : Signal → α
  | .cpuTimeExceeded => t.cpuTimeExceeded
  | .fileSizeExceeded => t.fileSizeExceeded

/-- The table with another value for a signal. -/
def set (t : Table α) (s : Signal) (x : α) : Table α :=
  match s with
  | .cpuTimeExceeded => { t with cpuTimeExceeded := x }
  | .fileSizeExceeded => { t with fileSizeExceeded := x }

theorem get_set (t : Table α) (s s' : Signal) (x : α) :
    (t.set s x).get s' = if s' = s then x else t.get s' := by
  cases s <;> cases s' <;> rfl

@[simp] theorem get_set_self (t : Table α) (s : Signal) (x : α) : (t.set s x).get s = x := by
  cases s <;> rfl

@[simp] theorem set_get (t : Table α) (s : Signal) : t.set s (t.get s) = t := by
  cases s <;> rfl

@[simp] theorem set_set (t : Table α) (s : Signal) (x y : α) : (t.set s x).set s y = t.set s y := by
  cases s <;> rfl

end Signal.Table

end GovernedSat
