import GovernedSat.Governor.Polling
import GovernedSat.Solver.Basic

/-!
# Searches over solvers

A procedure makes solvers, drives them, and in the end either gives a result or halts early. What
halts it is an error, a literal out of range, or an exhausted allowance of solves; for formulas
which meet the contract of a call and the solvers of this library the last two never happen. Even
then every solver made is released, and the governor of the call is disarmed after that.

## Main definitions

* `Halt` — why a procedure gave no result.
* `ProcedureM`, `SearchM` — procedures, and searches with a solver at hand.
* `freshSolver` — a solver with the clauses of a formula.
* `withSolver` — a search with a fresh solver, which is released at the end.
* `governed` — a computation under an armed governor, which is disarmed at the end.
* `isSatisfiable` — a solve, followed by a checkpoint.
-/

namespace GovernedSat

/-- Why a procedure gave no result. -/
inductive Halt where
  /-- An error was found. -/
  | error (e : Error)
  /-- A literal is out of range. -/
  | overflow
  /-- More models were found than the kind of solver can have. -/
  | outOfAllowance
  deriving DecidableEq, Repr

/-- Procedures. -/
abbrev ProcedureM := ExceptT Halt ProcessM

/-- Searches with a solver at hand. -/
abbrev SearchM (E : Type) := ExceptT Halt (SolverM E)

/-! ### Halting -/

section Halting

variable {m : Type → Type} [Monad m] {α : Type}

/-- The result, or else a halt with the limit error. -/
def orLimitError : Except LimitError α → ExceptT Halt m α
  | .ok a => pure a
  | .error e => throw (.error (.limit e))

/-- The result, or else a halt with the solver error. -/
def orSolverError : Except SolverError α → ExceptT Halt m α
  | .ok a => pure a
  | .error e => throw (.error (.solver e))

/-- The result, or else a halt with the formula error. -/
def orFormulaError : Except FormulaError α → ExceptT Halt m α
  | .ok a => pure a
  | .error e => throw (.error (.formula e))

/-- The result, or else a halt as it is out of range. -/
def orOverflow : Option α → ExceptT Halt m α
  | some a => pure a
  | none => throw .overflow

end Halting

/-! ### Governors -/

/-- Runs a computation under a governor with the given limits. The governor is disarmed when the
computation has ended, whatever its result. -/
def governed {m : Type → Type} [Monad m] [MonadLiftT ProcessM m] {α : Type} (l : Limits)
    (body : ExceptT Halt m α) : ExceptT Halt m α := ExceptT.mk do
  match ← (Governor.arm l : ProcessM _) with
  | .error e => return .error (.error (.limit e))
  | .ok g =>
    let result ← body.run
    (g.disarm : ProcessM _)
    return result

/-! ### Solvers -/

variable {E : Type} [Engine E] {α : Type}

/-- A fresh solver with the clauses of a formula, which asks the governor whether to stop. -/
def freshSolver (f : Formula) : ProcedureM (Solver E) := do
  let s : Solver E ← orSolverError (← Solver.make (E := E))
  let ((), s) ← (do Solver.addFormula f; Solver.setTerminate (some stopRequested) :
    SolverM E Unit).run s
  Process.logEvent (.loaded f.length)
  return s

/-- Runs a search with a fresh solver for a formula. The solver is released when the search has
ended, whatever its result. -/
def withSolver (f : Formula) (body : SearchM E α) : ProcedureM α := do
  let s ← freshSolver f
  let (result, s) ← body.run.run s
  s.release
  ExceptT.mk (pure result)

/-- An operation on the solver at hand. -/
def onSolver (operation : SolverM E α) : SearchM E α := ExceptT.lift operation

/-- Solves, and tells whether the clauses are satisfiable. A breach found at the checkpoint which
follows takes precedence over the report. -/
def isSatisfiable : SearchM E Bool := do
  let report ← orOverflow (← onSolver Solver.solve)
  orLimitError (← checkpoint)
  Process.logEvent (.solved report)
  match report with
  | .satisfiable => return true
  | .unsatisfiable => return false
  | .interrupted => throw (.error (.solver .interrupted))

/-! ### Allowances -/

/-- The number of satisfiable solves in a row, at most, of a solver as the process is now. -/
def currentAllowance (E : Type) [Engine E] (atoms : Nat) : ProcessM Nat :=
  return Engine.allowance E (← get) atoms

end GovernedSat
