import GovernedSat.Config.BoundedOption
import GovernedSat.Convention

/-!
# Configuration

A configuration holds the limits for a call and the value convention, each as a bounded option.
A limit counts whole units, and `0` stands for no limit: seconds of CPU time, megabytes of address
space, and megabytes of any file written.

## Main definitions

* `Limits` — the three limits of a call.
* `ValueConvention.parse` — a convention from its name.
* `Config` — the options, with their default values and bounds.
* `Config.adjust` — a change of some option.
-/

namespace GovernedSat

/-! ### Limits -/

/-- Limits on the resources of a call, each `0` when there is none. -/
structure Limits where
  /-- Seconds of CPU time. -/
  time : UInt32 := 0
  /-- Megabytes of address space. -/
  memory : UInt32 := 0
  /-- Megabytes of a file written. -/
  fileSize : UInt32 := 0
  deriving DecidableEq, Repr

/-- Whether there is no limit at all. -/
def Limits.isUnbounded (l : Limits) : Bool :=
  l.time = 0 && l.memory = 0 && l.fileSize = 0

/-! ### Options -/

/-- The greatest limit which may be set: the greatest word of twenty bits. -/
def Config.greatestLimit : UInt32 := 1048575

/-- A limit option: any number up to the greatest limit may be set, and there is no limit at
first. -/
def Config.limitOption (name : String) : BoundedOption UInt32 :=
  { name, min := 0, max := Config.greatestLimit, value := 0 }

/-- The convention with the given name. -/
def ValueConvention.parse (name : String) : Except ConfigError ValueConvention :=
  match ofName? name with
  | some v => .ok v
  | none => .error .unknownValue

/-- The options of a call. -/
structure Config where
  /-- The limit on CPU time. -/
  timeLimit : BoundedOption UInt32 := Config.limitOption "time_limit"
  /-- The limit on memory. -/
  memoryLimit : BoundedOption UInt32 := Config.limitOption "memory_limit"
  /-- The limit on the size of files. -/
  fileSizeLimit : BoundedOption UInt32 := Config.limitOption "file_size_limit"
  /-- The reading of the atoms which a model leaves open. -/
  valueConvention : BoundedOption ValueConvention :=
    { name := "value_convention"
      min := ValueConvention.least
      max := ValueConvention.greatest
      value := .dontCareAsTrue }
  deriving Repr

namespace Config

/-- The limits of a call under the configuration. -/
def limits (c : Config) : Limits where
  time := c.timeLimit.value
  memory := c.memoryLimit.value
  fileSize := c.fileSizeLimit.value

/-- The convention of a call under the configuration. -/
def convention (c : Config) : ValueConvention := c.valueConvention.value

/-- The default configuration with the given limits and convention, whatever the bounds. -/
def ofLimits (l : Limits) (convention : ValueConvention) : Config :=
  let c : Config := {}
  { timeLimit := { c.timeLimit with value := l.time }
    memoryLimit := { c.memoryLimit with value := l.memory }
    fileSizeLimit := { c.fileSizeLimit with value := l.fileSize }
    valueConvention := { c.valueConvention with value := convention } }

/-- A change of one of the options. -/
inductive Change where
  /-- A change of the limit on CPU time. -/
  | timeLimit (a : Adjustment UInt32)
  /-- A change of the limit on memory. -/
  | memoryLimit (a : Adjustment UInt32)
  /-- A change of the limit on the size of files. -/
  | fileSizeLimit (a : Adjustment UInt32)
  /-- A change of the value convention. -/
  | valueConvention (a : Adjustment ValueConvention)
  deriving Repr

/-- Makes a change of one of the options. -/
def adjust (c : Config) : Change → Except ConfigError Config
  | .timeLimit a => return { c with timeLimit := ← c.timeLimit.adjust a }
  | .memoryLimit a => return { c with memoryLimit := ← c.memoryLimit.adjust a }
  | .fileSizeLimit a => return { c with fileSizeLimit := ← c.fileSizeLimit.adjust a }
  | .valueConvention a => return { c with valueConvention := ← c.valueConvention.adjust a }

@[simp] theorem limits_ofLimits (l : Limits) (v : ValueConvention) : (ofLimits l v).limits = l :=
  rfl

@[simp] theorem convention_ofLimits (l : Limits) (v : ValueConvention) :
    (ofLimits l v).convention = v := rfl

end Config

end GovernedSat
