import GovernedSat.Config.Basic
import GovernedSat.Search.Shrinking

/-!
# Prime implicants with one solver

A model of the formula is found and shrunk, and the inputs left, as positive literals, are a prime
implicant: some model has exactly these inputs true, and none has fewer. The clauses which the
shrinking leaves in the solver forbid that all of them are true again, so the next model found leads
to another prime implicant, until none is left.

## Main definitions

* `oneSolverImplicants` — the prime implicants of a formula with respect to the inputs.
-/

namespace GovernedSat

section

variable {E : Type} [Engine E]

/-- The prime implicants which are left, provided that they are fewer than allowed. -/
def implicantsWithin (inputs : List Atom) (convention : ValueConvention) :
    Nat → SearchM E (List Clause)
  | 0 => throw .outOfAllowance
  | allowance + 1 => do
    if ← isSatisfiable then
      let minim ← shrinkModel inputs convention .byAssumption
      let implicant := minim.map Literal.positive
      Process.logEvent (.implicantFound implicant)
      return implicant :: (← implicantsWithin inputs convention allowance)
    else return []

end

/-- The prime implicants of a formula with respect to the inputs, in the order in which the solver
finds them. -/
def oneSolverImplicants (E : Type) [Engine E] (c : Config) (f : Formula) (inputs : List Atom) :
    ProcedureM (List Clause) := do
  orFormulaError (f.validate inputs)
  governed c.limits do
    withSolver (E := E) f do
      let allowance ← currentAllowance E inputs.length
      let implicants ← implicantsWithin inputs c.convention allowance
      Process.logEvent (.implicantsExhausted implicants.length)
      return implicants

end GovernedSat
