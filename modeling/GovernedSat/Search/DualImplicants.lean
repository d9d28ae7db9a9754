import GovernedSat.Config.Basic
import GovernedSat.Search.Shrinking
import GovernedSat.Valuation

/-!
# Prime implicants with two solvers

One solver, the *enumerator*, has the formula and only finds models. For each model a fresh solver,
the *minimiser*, is made over the same atoms, where an atom now stands for "this atom keeps the
value it has on the model": each clause of the formula becomes the clause of the atoms of its
literals true on the model, and an input which is in none of these is made false. Shrinking the
minimiser gives the fewest inputs which have to keep their values, and these, with the polarity they
have on the model, are the prime implicant. Its negation is the only clause which the enumerator is
given besides the formula.

## Main definitions

* `modelOn` — the model of a solver on the atoms of a formula.
* `minimiserClauses` — the clauses of the minimiser.
* `twoSolverImplicants` — the prime implicants of a formula with respect to the inputs.
-/

namespace GovernedSat

/-- The literals of a clause which are true on a model, as the positive literals of their atoms. -/
def satisfiedAtoms (model : SparseValuation) (c : Clause) : Clause :=
  (c.filter (Valuation.satisfies model)).map fun l => Literal.positive l.atom

/-- The clauses of the minimiser: for each clause of the formula the atoms of its literals true on
the model, and then a negative unit for each input which is in none of these. -/
def minimiserClauses (f : Formula) (inputs : List Atom) (model : SparseValuation) :
    Option Formula :=
  let kept : Formula := f.map (satisfiedAtoms model)
  let free := inputs.filter fun a => a ∉ kept.atoms
  (free.mapM fun a => (Literal.ofAtom? a false).map fun l => [l]).map (kept ++ ·)

section

variable {E : Type} [Engine E]

/-- The last model of a solver, on the atoms of a formula. -/
def modelOn (s : Solver E) (f : Formula) (convention : ValueConvention) :
    Option SparseValuation :=
  (readValues s f.atoms convention).map SparseValuation.ofList

variable (E) in
/-- The inputs which have to keep their values on a model. -/
def minimise (f : Formula) (inputs : List Atom) (convention : ValueConvention)
    (model : SparseValuation) : ProcedureM (List Atom) :=
  withSolver (E := E) [] do
    onSolver (Solver.addFormula (← orOverflow (minimiserClauses f inputs model)))
    if ← isSatisfiable then
      shrinkModel inputs convention .byClause
    else
      Process.logEvent .minimiserWithoutModel
      throw (.error .invalidState)

/-- The prime implicants which are left, provided that they are fewer than allowed. Each one found
is blocked in the enumerator. -/
def dualImplicantsWithin (f : Formula) (inputs : List Atom) (convention : ValueConvention) :
    Nat → SearchM E (List Clause)
  | 0 => throw .outOfAllowance
  | allowance + 1 => do
    if ← isSatisfiable then
      let model ← orOverflow (modelOn (← get) f convention)
      let minim ← ExceptT.mk (liftM (minimise E f inputs convention model).run)
      let implicant : Clause ← orOverflow
        (minim.mapM fun a => Literal.ofAtom? a (Valuation.satisfies model (Literal.positive a)))
      Process.logEvent (.implicantFound implicant)
      onSolver (Solver.addClause (← orOverflow implicant.negation?))
      return implicant :: (← dualImplicantsWithin f inputs convention allowance)
    else return []

end

/-- The prime implicants of a formula with respect to the inputs, in the order in which the
enumerator leads to them. -/
def twoSolverImplicants (E : Type) [Engine E] (c : Config) (f : Formula) (inputs : List Atom) :
    ProcedureM (List Clause) := do
  orFormulaError (f.validate inputs)
  governed c.limits do
    withSolver (E := E) f do
      let allowance ← currentAllowance E inputs.length
      let implicants ← dualImplicantsWithin f inputs c.convention allowance
      Process.logEvent (.implicantsExhausted implicants.length)
      return implicants

end GovernedSat
