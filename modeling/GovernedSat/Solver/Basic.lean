import GovernedSat.Formula
import GovernedSat.Process.Basic

/-!
# Incremental solvers

An incremental solver is given clauses, a literal at a time, and is asked whether they have a model,
any number of times. A literal assumed holds for the next solve only. After a satisfiable solve the
solver answers, for an atom, the literal of the atom which is true on the model found, or `0` when
the model leaves the atom open. A callback may be set which is asked now and then during a solve,
and which interrupts the solve by answering yes.

What differs between kinds of solvers is an `Engine`. What they have in common is a `Solver`: a
number, by which the journal names it, the literals of the clause which is not yet closed, and the
callback. Every solver made is in the end released, which the journal shows too.

## Main definitions

* `Engine` — the kinds of solvers.
* `Solver`, `SolverM` — a solver, and computations with one.
* `Solver.make`, `Solver.release`.
* `Solver.add`, `Solver.addClause`, `Solver.addFormula`, `Solver.assume`, `Solver.solve`,
  `Solver.value?`, `Solver.setTerminate`.
-/

namespace GovernedSat

/-- A callback which tells a solve whether to stop. -/
abbrev Callback := ProcessM Bool

/-- A kind of solver. The operations which may leave the range of the literals have no result where
they do. -/
class Engine (E : Type) where
  /-- The name by which a solver is announced in the log when it is made, for the kinds which
  announce themselves. -/
  signature? : Option String
  /-- Makes a solver. -/
  create : ProcessM (Except SolverError E)
  /-- Adds a clause. -/
  insert : E → Clause → E
  /-- Assumes a literal for the next solve. -/
  assume : E → Literal → E
  /-- Solves the clauses under the assumptions. -/
  solve : E → Option Callback → ProcessM (Option Report × E)
  /-- The literal of an atom which is true on the last model found, or `0`. -/
  value? : E → Atom → Option Literal
  /-- A number of satisfiable solves, one after another, after which no procedure on so many atoms
  of interest can find yet another one. -/
  allowance : Process → Nat → Nat

/-- A solver of some kind. -/
structure Solver (E : Type) where
  /-- The number of the solver. -/
  id : Nat
  /-- The literals of the clause which is not yet closed. -/
  openClause : Clause := []
  /-- The callback which is asked during a solve. -/
  terminate : Option Callback := none
  /-- The state of its kind. -/
  engine : E

/-- Computations with a solver. -/
abbrev SolverM (E : Type) := StateT (Solver E) ProcessM

namespace Solver

variable {E : Type} [Engine E]

open Process

/-! ### Making and releasing -/

/-- Makes a solver, and gives it the next number. -/
def make : ProcessM (Except SolverError (Solver E)) := do
  match ← Engine.create (E := E) with
  | .error e => return .error e
  | .ok engine =>
    let id := (← get).made + 1
    modify fun p => { p with made := id, live := p.live + 1 }
    record (.init id)
    if let some signature := Engine.signature? E then
      logEvent (.initialised signature)
    return .ok { id, engine }

/-- Releases a solver, which is of no use afterwards. -/
def release (s : Solver E) : ProcessM Unit := do
  modify fun p => { p with live := p.live - 1 }
  record (.release s.id)
  if (Engine.signature? E).isSome then
    logEvent .released

/-! ### Clauses and assumptions -/

/-- Adds a literal to the open clause, or closes the clause if given `0`. -/
def add (l : Literal) : SolverM E Unit := do
  let s ← get
  if l = 0 then
    record (.clause s.id s.openClause)
    set { s with openClause := [], engine := Engine.insert s.engine s.openClause }
  else
    set { s with openClause := s.openClause ++ [l] }

/-- Adds the literals of a clause, and closes it. -/
def addClause (c : Clause) : SolverM E Unit := do
  c.forM add
  add 0

/-- Adds the clauses of a formula. -/
def addFormula (f : Formula) : SolverM E Unit := f.forM addClause

/-- Assumes a literal for the next solve. -/
def assume (l : Literal) : SolverM E Unit := do
  let s ← get
  record (.assume s.id l)
  set { s with engine := Engine.assume s.engine l }

/-- Sets the callback, or clears it. -/
def setTerminate (callback : Option Callback) : SolverM E Unit :=
  modify fun s => { s with terminate := callback }

/-! ### Solving -/

/-- Solves the clauses under the assumptions. -/
def solve : SolverM E (Option Report) := do
  let s ← get
  record (.solve s.id)
  let (report, engine) ← Engine.solve s.engine s.terminate
  set { s with engine }
  return report

/-- The literal of an atom which is true on the last model found, or `0`. -/
def value? (s : Solver E) (a : Atom) : Option Literal := Engine.value? s.engine a

end Solver

end GovernedSat
