import GovernedSat.Process.Resource
import GovernedSat.Clause

/-!
# Scripts and journals of solvers

A *script* says beforehand what solvers answer, one step for each solve, and may have a signal
delivered before or after the answer. A *journal* lists the calls made to solvers, each with the
number of its solver.

## Main definitions

* `ScriptAnswer`, `ScriptStep` — the steps of a script.
* `Call` — the entries of a journal.
-/

namespace GovernedSat

/-- What a step of a script answers. -/
inductive ScriptAnswer where
  /-- No solver is made. To a solve, an interruption. -/
  | refuse
  /-- Satisfiable, with the literals true on the model, whatever they are. -/
  | sat (model : List Literal)
  /-- Unsatisfiable. -/
  | unsat
  /-- Interrupted. -/
  | interrupted
  deriving DecidableEq, Repr

/-- A step of a script. -/
structure ScriptStep where
  /-- What the step answers. -/
  answer : ScriptAnswer
  /-- A signal delivered once, when the step is first to be taken by a solve. -/
  before : Option Signal := none
  /-- A signal delivered after the step is taken. -/
  after : Option Signal := none
  /-- The numeric code reported in place of the one of the answer, by solvers which report
  codes. -/
  code : Option Int32 := none
  deriving DecidableEq, Repr

/-- A call to a solver, which is given by its number. -/
inductive Call where
  /-- The solver was made. -/
  | init (id : Nat)
  /-- A clause was closed. -/
  | clause (id : Nat) (c : Clause)
  /-- A literal was assumed. -/
  | assume (id : Nat) (l : Literal)
  /-- A solve was begun. -/
  | solve (id : Nat)
  /-- The solver was released. -/
  | release (id : Nat)
  deriving DecidableEq, Repr

namespace Call

/-- The number of the solver called. -/
def id : Call → Nat
  | init i => i
  | clause i _ => i
  | assume i _ => i
  | solve i => i
  | release i => i

end Call

end GovernedSat
