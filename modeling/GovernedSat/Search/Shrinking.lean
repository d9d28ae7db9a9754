import GovernedSat.Convention
import GovernedSat.Search.Basic

/-!
# Shrinking a model

The inputs which are true on a model are its *minim*, and the other inputs its *facts*. Shrinking
forbids that the whole minim is true again, keeps the facts false, and solves: a model found has a
smaller minim, and when there is none, no model has a smaller one.

The facts are kept false either by assumptions, which leave the solver as it is, or by clauses,
which are stronger but only fit a solver which is of no use afterwards. The clauses which forbid the
minims stay in both cases.

## Main definitions

* `FactKeeping` — how the facts are kept false.
* `shrinkModel` — a minim which cannot be shrunk.
-/

namespace GovernedSat

/-- How the inputs which are false on a model are kept false. -/
inductive FactKeeping where
  /-- By assumptions for the next solve. -/
  | byAssumption
  /-- By clauses. -/
  | byClause
  deriving DecidableEq, Repr

variable {E : Type} [Engine E]

/-- The atoms in order, each with whether it counts as true on the last model of a solver. -/
def readValues (s : Solver E) (atoms : List Atom) (convention : ValueConvention) :
    Option (List (Atom × Bool)) :=
  atoms.mapM fun a => (s.value? a).map fun v => (a, convention.holds v)

/-- Keeps the atom of a negative literal false. -/
def FactKeeping.keep : FactKeeping → Literal → SolverM E Unit
  | byAssumption, l => Solver.assume l
  | byClause, l => Solver.addClause [l]

/-- Forbids that the minim of the last model found is true again, keeps its facts false, and gives
the minim. -/
def forbidMinim (inputs : List Atom) (convention : ValueConvention) (facts : FactKeeping) :
    SearchM E (List Atom) := do
  let values ← orOverflow (readValues (← get) inputs convention)
  let (trues, falses) := values.partition (·.2)
  let minim := trues.map (·.1)
  Process.logEvent (.shrinking minim.length)
  let negated ← orOverflow (minim.mapM fun a => Literal.ofAtom? a false)
  let kept ← orOverflow (falses.mapM fun p => Literal.ofAtom? p.1 false)
  onSolver do
    Solver.addClause negated
    kept.forM facts.keep
  return minim

/-- `shrinkModel` with fewer solves than allowed. -/
def shrinkWithin (inputs : List Atom) (convention : ValueConvention) (facts : FactKeeping) :
    Nat → SearchM E (List Atom)
  | 0 => throw .outOfAllowance
  | allowance + 1 => do
    let minim ← forbidMinim inputs convention facts
    if ← isSatisfiable then shrinkWithin inputs convention facts allowance else return minim

/-- The inputs true on some model and on no model with fewer of them, starting from the last model
found. -/
def shrinkModel (inputs : List Atom) (convention : ValueConvention) (facts : FactKeeping) :
    SearchM E (List Atom) := do
  shrinkWithin inputs convention facts (← currentAllowance E inputs.length)

end GovernedSat
