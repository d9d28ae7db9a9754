import GovernedSat.Literal

/-!
# Errors

Every refusal of the library is a value of `Error`, one constructor for each cause, and
`Error.message` is its only wording. The causes are grouped by where they arise: a resource limit,
a formula which does not meet the contract of a call, a solver, the configuration.

## Main definitions

* `LimitError`, `FormulaError`, `SolverError`, `ConfigError` — the causes, and their `message`s.
* `Error` — any of them, or a solver state which contradicts the state of another solver.
-/

namespace GovernedSat

/-! ### Resource limits -/

/-- The causes found by the governor of resources. -/
inductive LimitError where
  /-- Some limit of a governor no longer holds. -/
  | resourceLimitExceeded
  /-- The CPU time limit was breached. -/
  | timeLimitExceeded
  /-- The memory limit was breached. -/
  | memoryLimitExceeded
  /-- The limit on the size of files was breached. -/
  | fileSizeLimitExceeded
  /-- The system does not allow a limit to be read, or its signal to be handled. -/
  | resourceLimitsUnsupported
  /-- Limits are already installed by another governor. -/
  | governorArmed
  deriving DecidableEq, Repr

/-- The wording of a limit error. -/
def LimitError.message : LimitError → String
  | resourceLimitExceeded => "resource limit exceeded"
  | timeLimitExceeded => "time limit exceeded"
  | memoryLimitExceeded => "memory limit exceeded"
  | fileSizeLimitExceeded => "file size limit exceeded"
  | resourceLimitsUnsupported => "resource limits are not supported on this platform"
  | governorArmed => "another resource governor is armed"

/-! ### Formulas -/

/-- The ways in which a formula and a list of atoms may violate the contract of a call. -/
inductive FormulaError where
  /-- A clause, given by its index, contains `0`. -/
  | zeroLiteral (clause : Nat)
  /-- A clause, given by its index, contains the least word. -/
  | literalOutOfRange (clause : Nat)
  /-- An atom of the list is `0`, or exceeds the greatest atom. -/
  | zeroAtom
  /-- An atom of the list does not occur in the formula. -/
  | unknownAtom (atom : Atom)
  /-- An atom of the list is given a second time. -/
  | duplicateAtom (atom : Atom)
  deriving DecidableEq, Repr

/-- The wording of a formula error. -/
def FormulaError.message : FormulaError → String
  | zeroLiteral clause => s!"clause {clause} contains 0"
  | literalOutOfRange clause => s!"clause {clause} contains a literal out of range"
  | zeroAtom => "atoms must be positive literals"
  | unknownAtom atom => s!"atom {atom.toNat} does not occur in the formula"
  | duplicateAtom atom => s!"atom {atom.toNat} is given more than once"

/-! ### Solvers and configuration -/

/-- The causes found by a solver. -/
inductive SolverError where
  /-- No solver could be made. -/
  | initialisation
  /-- A solve ended before satisfiability was decided. -/
  | interrupted
  deriving DecidableEq, Repr

/-- The wording of a solver error. -/
def SolverError.message : SolverError → String
  | initialisation => "failed to initialise solver"
  | interrupted => "solver interrupted"

/-- The causes found while configuring. -/
inductive ConfigError where
  /-- The value is below the minimum or above the maximum of the named option. -/
  | outOfBounds (option : String)
  /-- The text names no value of the option. -/
  | unknownValue
  deriving DecidableEq, Repr

/-- The wording of a configuration error. -/
def ConfigError.message : ConfigError → String
  | outOfBounds option => s!"value out of bounds for {option}"
  | unknownValue => "unknown configuration value"

/-! ### All causes -/

/-- The cause of a refusal. -/
inductive Error where
  /-- A cause found by the governor. -/
  | limit (e : LimitError)
  /-- A violation of the contract of a call. -/
  | formula (e : FormulaError)
  /-- A cause found by a solver. -/
  | solver (e : SolverError)
  /-- A cause found while configuring. -/
  | config (e : ConfigError)
  /-- A solver denied what another solver implies. -/
  | invalidState
  deriving DecidableEq, Repr

/-- The wording of an error. -/
def Error.message : Error → String
  | limit e => e.message
  | formula e => e.message
  | solver e => e.message
  | config e => e.message
  | invalidState => "solver reached an invalid state"

end GovernedSat
