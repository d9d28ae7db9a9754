import GovernedSat.Clause
import GovernedSat.Config.Basic
import GovernedSat.Process.Resource
import GovernedSat.Report
import GovernedSat.Text.FixedPoint

/-!
# The log

What the library does is logged as events, each with a level, a target and a message. The events
are data, so that the log can be reasoned about without reading text.

## Main definitions

* `LogEvent` — the events, with `LogEvent.level`, `LogEvent.target` and `LogEvent.message`.
-/

namespace GovernedSat

/-- The weight of an event. -/
inductive LogLevel where
  /-- Something is wrong. -/
  | error
  /-- Something did not work as asked. -/
  | warn
  /-- A step which a caller may want to see. -/
  | info
  /-- A step which helps to follow a call. -/
  | debug
  /-- Any other step. -/
  | trace
  deriving DecidableEq, Repr

/-- The name of a level. -/
def LogLevel.name : LogLevel → String
  | error => "ERROR"
  | warn => "WARN"
  | info => "INFO"
  | debug => "DEBUG"
  | trace => "TRACE"

/-- The part of the library an event belongs to. -/
inductive LogTarget where
  /-- The enumeration of models. -/
  | enumeration
  /-- The search for minimal sets. -/
  | minimisation
  /-- The governor of resources. -/
  | governor
  /-- The solvers. -/
  | solver
  deriving DecidableEq, Repr

/-- The name of a target. -/
def LogTarget.name : LogTarget → String
  | enumeration => "enumeration"
  | minimisation => "minimisation"
  | governor => "governor"
  | solver => "solver"

/-- What the library logs. -/
inductive LogEvent where
  /-- A governor was refused, as limits are in force already. -/
  | armingRefused
  /-- The limits on a resource could not be read. -/
  | limitUnreadable (r : Resource)
  /-- The signal about a resource could not be handled. -/
  | signalUnhandled (r : Resource)
  /-- A soft limit could not be set. -/
  | limitUnset (r : Resource) (soft : Nat)
  /-- The soft limit asked for a resource. -/
  | limitLowered (r : Resource) (soft : Nat)
  /-- A governor was armed. -/
  | armed (l : Limits)
  /-- Limits as they were before arming could not be set. -/
  | restoringFailed
  /-- A governor was disarmed, after an amount of CPU time. -/
  | disarmed (runtime : Rat)
  /-- A breach was found at a checkpoint. -/
  | breachFound (b : Breach)
  /-- A solver with a signature was made. -/
  | initialised (signature : String)
  /-- A solver with a signature was released. -/
  | released
  /-- A solver was given a number of clauses. -/
  | loaded (clauses : Nat)
  /-- A solve gave a report. -/
  | solved (r : Report)
  /-- A model was found, counted from one. -/
  | modelFound (count : Nat) (model : Clause)
  /-- There are no models but those found. -/
  | modelsExhausted (count : Nat)
  /-- An error ended the enumeration. -/
  | modelsStopped (count : Nat) (e : Error)
  /-- The number of atoms which may still be dropped. -/
  | shrinking (atoms : Nat)
  /-- A set of literals implies what another solver denies. -/
  | minimiserWithoutModel
  /-- A prime implicant was found. -/
  | implicantFound (implicant : Clause)
  /-- There are no prime implicants but those found. -/
  | implicantsExhausted (count : Nat)
  deriving DecidableEq, Repr

namespace LogEvent

/-- The weight of each event. -/
def level : LogEvent → LogLevel
  | minimiserWithoutModel => .error
  | armingRefused | limitUnreadable _ | signalUnhandled _ | limitUnset .. | restoringFailed => .warn
  | armed _ | breachFound _ | modelsExhausted _ | modelsStopped .. | implicantsExhausted _ => .info
  | disarmed _ | modelFound .. | implicantFound _ => .debug
  | limitLowered .. | initialised _ | released | loaded _ | solved _ | shrinking _ => .trace

/-- The part of the library each event belongs to. -/
def target : LogEvent → LogTarget
  | armingRefused | limitUnreadable _ | signalUnhandled _ | limitUnset .. | limitLowered ..
  | armed _ | restoringFailed | disarmed _ | breachFound _ => .governor
  | initialised _ | released | loaded _ | solved _ => .solver
  | modelFound .. | modelsExhausted _ | modelsStopped .. => .enumeration
  | shrinking _ | minimiserWithoutModel | implicantFound _ | implicantsExhausted _ => .minimisation

/-- The decimal places of a CPU time in the log. -/
def secondPlaces : Nat := 3

/-- The wording of each event. -/
def message : LogEvent → String
  | armingRefused => "Refused to arm, as some governor is armed"
  | limitUnreadable r => "Failed to read the " ++ r.name ++ " limit"
  | signalUnhandled r => "Failed to handle the signal for the " ++ r.name ++ " limit"
  | limitUnset r soft => "Failed to set the " ++ r.name ++ " limit to " ++ toString soft
  | limitLowered r soft => "The " ++ r.name ++ " limit is " ++ toString soft
  | armed l =>
    "Armed with limits: time " ++ toString l.time.toNat ++ "s, memory " ++
      toString l.memory.toNat ++ "MB, file size " ++ toString l.fileSize.toNat ++ "MB"
  | restoringFailed => "Failed to restore a limit"
  | disarmed runtime => "Disarmed after " ++ FixedPoint.text secondPlaces runtime ++ "s"
  | breachFound b => "Breach of limit: " ++ b.name
  | initialised signature => "Initialised " ++ signature
  | released => "Released"
  | loaded clauses => "Loaded " ++ toString clauses ++ " clauses"
  | solved r => "Solve: " ++ r.name
  | modelFound count model => "Model " ++ toString count ++ ": " ++ model.bracketed
  | modelsExhausted count => "Exhausted after " ++ toString count ++ " models"
  | modelsStopped count e => "Stopped after " ++ toString count ++ " models: " ++ e.message
  | shrinking atoms => "Minim of " ++ toString atoms ++ " atoms"
  | minimiserWithoutModel => "The minimiser has no model"
  | implicantFound implicant => "Prime implicant: " ++ implicant.bracketed
  | implicantsExhausted count => "Found " ++ toString count ++ " prime implicants"

end LogEvent

end GovernedSat
