import GovernedSat.Proofs.Search.Contract
import GovernedSat.Search.DualImplicants
import GovernedSat.Search.Implicants
import GovernedSat.Search.ModelStream

/-!
# Laws of searches

The searches of the procedures are put together from a few parts: clauses and assumptions for the
solver at hand, solves with their checkpoints, the values of the last model, and events. A *law* is
a property of operations on a solver, and one of searches, which these parts have and which is kept
when parts are put together. Every search of the procedures is subject to every law.

The search with two solvers is subject to those laws which the procedure with the second solver is
subject to.

## Main definitions

* `SearchLaw` — a property of operations and of searches.

## Main results

* `SearchLaw.findModel`, `SearchLaw.implicantsWithin`, `SearchLaw.dualImplicantsWithin` — the
  searches of the procedures.
-/

namespace GovernedSat

/-- A property of operations on a solver and one of searches, which the parts of the searches have
and which is kept when they are put together. -/
structure SearchLaw (E : Type) [Engine E] where
  /-- The property of operations on a solver. -/
  operates {α : Type} : SolverM E α → Prop
  /-- The property of searches. -/
  searches {α : Type} : SearchM E α → Prop
  operates_pure {α : Type} (a : α) : operates (pure a)
  operates_bind {α β : Type} {x : SolverM E α} {f : α → SolverM E β} (hx : operates x)
    (hf : ∀ a, operates (f a)) : operates (x >>= f)
  operates_add (l : Literal) : operates (Solver.add l)
  operates_assume (l : Literal) : operates (Solver.assume l)
  searches_pure {α : Type} (a : α) : searches (pure a)
  searches_throw {α : Type} (halt : Halt) : searches (throw halt : SearchM E α)
  searches_bind {α β : Type} {x : SearchM E α} {f : α → SearchM E β} (hx : searches x)
    (hf : ∀ a, searches (f a)) : searches (x >>= f)
  /-- An operation on the solver at hand. -/
  searches_onSolver {α : Type} {y : SolverM E α} (hy : operates y) : searches (onSolver y)
  /-- What is read off the last model, if it is in range. -/
  searches_read {α : Type} (read : (Atom → Option Literal) → Option α) :
    searches (do orOverflow (read (← get).value?))
  /-- An event about the search for minimal sets. -/
  searches_logEvent {e : LogEvent} (he : e.target = .minimisation) :
    searches (liftM (Process.logEvent e))
  searches_currentAllowance (atoms : Nat) : searches (liftM (currentAllowance E atoms))
  searches_isSatisfiable : searches isSatisfiable

namespace SearchLaw

variable {E : Type} [Engine E] (L : SearchLaw E) {α β : Type}

/-! ### Operations on a solver -/

/-- The same operation with one thing after another. -/
theorem forM {operation : α → SolverM E Unit} (h : ∀ a, L.operates (operation a)) (as : List α) :
    L.operates (as.forM operation) := by
  induction as with
  | nil => exact L.operates_pure ()
  | cons a as ih => exact L.operates_bind (h a) fun _ => ih

theorem addClause (c : Clause) : L.operates (Solver.addClause c) :=
  L.operates_bind (L.forM L.operates_add c) fun _ => L.operates_add 0

theorem addFormula (f : Formula) : L.operates (Solver.addFormula f) := L.forM L.addClause f

/-! ### Parts of searches -/

theorem orOverflow (o : Option α) : L.searches (orOverflow o) := by
  cases o with
  | some a => exact L.searches_pure a
  | none => exact L.searches_throw _

/-- What is read off the last model comes before the rest. -/
theorem bind_read (read : (Atom → Option Literal) → Option α) {f : α → SearchM E β}
    (hf : ∀ a, L.searches (f a)) :
    L.searches (get >>= fun s => GovernedSat.orOverflow (read s.value?) >>= f) := by
  rw [← bind_assoc]
  exact L.searches_bind (L.searches_read read) hf

/-- An event comes before the rest. -/
theorem bind_logEvent {e : LogEvent} (he : e.target = .minimisation) {x : SearchM E β}
    (hx : L.searches x) : L.searches (do Process.logEvent e; x) :=
  L.searches_bind (L.searches_logEvent he) fun _ => hx

/-- An operation on the solver comes before the rest. -/
theorem bind_onSolver {y : SolverM E α} (hy : L.operates y) {x : SearchM E β}
    (hx : L.searches x) : L.searches (do let _ ← onSolver y; x) :=
  L.searches_bind (L.searches_onSolver hy) fun _ => hx

variable {inputs : List Atom} {convention : ValueConvention}

theorem forbidMinim (facts : FactKeeping) :
    L.searches (forbidMinim inputs convention facts) := by
  have hkeep : ∀ l, L.operates (facts.keep (E := E) l) := by
    intro l
    cases facts with
    | byAssumption => exact L.operates_assume l
    | byClause => exact L.addClause [l]
  refine L.bind_read (fun value? => inputs.mapM fun a =>
    (value? a).map fun v => (a, convention.holds v)) fun values => ?_
  exact L.bind_logEvent rfl <| L.searches_bind (L.orOverflow _) fun negated =>
    L.searches_bind (L.orOverflow _) fun kept =>
    L.bind_onSolver (L.operates_bind (L.addClause negated) fun _ => L.forM hkeep kept)
      (L.searches_pure _)

/-! ### The searches of the procedures -/

theorem findModel (projection : List Atom) (convention : ValueConvention) :
    L.searches (ModelStream.findModel projection convention) := by
  refine L.searches_bind L.searches_isSatisfiable fun found => ?_
  split
  · refine L.bind_read (fun value? => projection.mapM fun a =>
      (value? a).bind fun v => Literal.ofAtom? a (convention.holds v)) fun model => ?_
    exact L.searches_bind (L.orOverflow _) fun negation =>
      L.bind_onSolver (L.addClause negation) (L.searches_pure _)
  · exact L.searches_pure _

theorem shrinkWithin (facts : FactKeeping) (allowance : Nat) :
    L.searches (shrinkWithin inputs convention facts allowance) := by
  induction allowance with
  | zero => exact L.searches_throw _
  | succ allowance ih =>
    refine L.searches_bind (L.forbidMinim facts) fun minim =>
      L.searches_bind L.searches_isSatisfiable fun found => ?_
    split
    · exact ih
    · exact L.searches_pure minim

theorem shrinkModel (facts : FactKeeping) :
    L.searches (shrinkModel (E := E) inputs convention facts) :=
  L.searches_bind (L.searches_currentAllowance _) fun _ => L.shrinkWithin facts _

theorem implicantsWithin (allowance : Nat) :
    L.searches (implicantsWithin (E := E) inputs convention allowance) := by
  induction allowance with
  | zero => exact L.searches_throw _
  | succ allowance ih =>
    refine L.searches_bind L.searches_isSatisfiable fun found => ?_
    split
    · exact L.searches_bind (L.shrinkModel _) fun minim =>
        L.bind_logEvent rfl <| L.searches_bind ih fun rest => L.searches_pure _
    · exact L.searches_pure []

/-- The search of the minimiser. -/
theorem minimiserBody (f : Formula) (model : SparseValuation) :
    L.searches (E := E) (do
      onSolver (Solver.addFormula (← GovernedSat.orOverflow (minimiserClauses f inputs model)))
      if ← isSatisfiable then
        GovernedSat.shrinkModel inputs convention .byClause
      else
        Process.logEvent .minimiserWithoutModel
        throw (.error .invalidState)) := by
  refine L.searches_bind (L.orOverflow _) fun clauses => L.bind_onSolver (L.addFormula clauses) <|
    L.searches_bind L.searches_isSatisfiable fun found => ?_
  split
  · exact L.shrinkModel _
  · exact L.bind_logEvent rfl (L.searches_throw _)

theorem dualImplicantsWithin {f : Formula}
    (hminimise : ∀ model, L.searches
      (ExceptT.mk (liftM (minimise E f inputs convention model).run))) (allowance : Nat) :
    L.searches (dualImplicantsWithin f inputs convention allowance) := by
  induction allowance with
  | zero => exact L.searches_throw _
  | succ allowance ih =>
    refine L.searches_bind L.searches_isSatisfiable fun found => ?_
    split
    · refine L.bind_read (fun value? => (f.atoms.mapM fun a =>
        (value? a).map fun v => (a, convention.holds v)).map SparseValuation.ofList)
        fun model => ?_
      exact L.searches_bind (hminimise model) fun minim =>
        L.searches_bind (L.orOverflow _) fun implicant => L.bind_logEvent rfl <|
        L.searches_bind (L.orOverflow _) fun negation => L.bind_onSolver (L.addClause negation) <|
        L.searches_bind ih fun rest => L.searches_pure _
    · exact L.searches_pure []

/-- All prime implicants, by a search for those which are left. -/
theorem allWithin {search : Nat → SearchM E (List Clause)}
    (hsearch : ∀ allowance, L.searches (search allowance)) (atoms : Nat) :
    L.searches (do
      let implicants ← search (← currentAllowance E atoms)
      Process.logEvent (.implicantsExhausted implicants.length)
      return implicants) :=
  L.searches_bind (L.searches_currentAllowance atoms) fun allowance =>
    L.searches_bind (hsearch allowance) fun _ => L.bind_logEvent rfl (L.searches_pure _)

end SearchLaw

end GovernedSat
