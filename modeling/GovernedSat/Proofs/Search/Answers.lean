import GovernedSat.Proofs.Process.Pace
import GovernedSat.Proofs.Reading
import GovernedSat.Proofs.Restriction
import GovernedSat.Proofs.Search.Contract
import GovernedSat.Proofs.Solver.Calls
import GovernedSat.Search.ModelStream

/-!
# What a search for a model finds

Whatever the process is and whatever kind of solver is at hand, what is found depends on the report
of the solve, on the checkpoint which follows, and on the answers for the atoms. A model which is
found is an assignment as seen on the atoms, so it has a negation, by which it is blocked.

## Main definitions

* `satisfiability` — what a solve tells once its checkpoint is passed.
* `ModelStream.found` — what is found then.

## Main results

* `run_isSatisfiable_ok`, `run_isSatisfiable_error` — a solve and its checkpoint.
* `ModelStream.readModel_eq` — the model which is read.
* `ModelStream.run_findModel_ok`, `ModelStream.run_findModel_error` — the search for a model.
-/

namespace GovernedSat

open Process

variable {E : Type} [Engine E]

/-! ### Solves with their checkpoints -/

/-- Satisfiability as a solve tells it. -/
def satisfiability : Except LimitError Report → Except Halt Bool
  | .error e => .error (.error (.limit e))
  | .ok .satisfiable => .ok true
  | .ok .unsatisfiable => .ok false
  | .ok .interrupted => .error (.error (.solver .interrupted))

/-- The solver left the range of the literals. -/
theorem run_isSatisfiable_overflow {s s' : Solver E} {p q : Process}
    (hsolve : (Solver.solve.run s).run p = pure ((none, s'), q)) :
    ((isSatisfiable : SearchM E Bool).run.run s).run p = pure ((.error .overflow, s'), q) := by
  rw [isSatisfiable, onSolver, ExceptT.run_bind_lift, StateT.run_bind, StateT.run_bind, hsolve]
  rfl

section Solve

variable {s s' : Solver E} {p q q' : Process} {report : Report}
  (hsolve : (Solver.solve.run s).run p = pure ((some report, s'), q))
include hsolve

/-- The report waits for the checkpoint. -/
theorem run_isSatisfiable : ((isSatisfiable : SearchM E Bool).run.run s).run p =
    (checkpoint >>= fun c => ((do
      orLimitError c
      logEvent (.solved report)
      match report with
      | .satisfiable => return true
      | .unsatisfiable => return false
      | .interrupted => throw (.error (.solver .interrupted)) :
        SearchM E Bool).run.run s')).run q := by
  let rest (o : Option Report) : SearchM E Bool := do
    let report ← orOverflow o
    orLimitError (← checkpoint)
    logEvent (.solved report)
    match report with
    | .satisfiable => return true
    | .unsatisfiable => return false
    | .interrupted => throw (.error (.solver .interrupted))
  have hrun : ((isSatisfiable : SearchM E Bool).run.run s).run p =
      (let r := (Solver.solve.run s).run p; ((rest r.1.1).run.run r.1.2).run r.2) := rfl
  rw [hrun, hsolve]
  rfl

/-- The checkpoint fails. -/
theorem run_isSatisfiable_error {e : LimitError} (hc : checkpoint.run q = pure (.error e, q')) :
    ((isSatisfiable : SearchM E Bool).run.run s).run p =
      pure ((satisfiability (.error e), s'), q') := by
  rw [run_isSatisfiable hsolve, StateT.run_bind, hc]
  rfl

/-- The checkpoint is passed. -/
theorem run_isSatisfiable_ok (hc : checkpoint.run q = pure (.ok (), q')) :
    ((isSatisfiable : SearchM E Bool).run.run s).run p =
      pure ((satisfiability (.ok report), s'),
        { q' with log := q'.log.push (.solved report) }) := by
  rw [run_isSatisfiable hsolve, StateT.run_bind, hc]
  cases report <;> rfl

end Solve

/-! ### Finding models -/

namespace ModelStream

variable {P : List Atom} {convention : ValueConvention}

/-- On the projection the model is read as the restriction of an assignment. -/
theorem readModel_eq {s : Solver E} (convention : ValueConvention)
    (hs : ∀ a, (s.value? a).isSome) (hP : ∀ a ∈ P, a.InRange) :
    readModel s P convention = some ((convention.reading s.value?).restrict P) := by
  refine mapM_eq_some_map fun a ha => ?_
  obtain ⟨v, hv⟩ := Option.isSome_iff_exists.mp (hs a)
  rw [hv, Option.bind_some, ValueConvention.reading, hv, Option.any_some]
  exact (hP a ha).ofAtom?_eq_some

/-- What is found by a solver after a solve whose checkpoint was passed. A model is blocked. -/
def found (P : List Atom) (convention : ValueConvention) (s : Solver E) :
    Report → Except Halt (Option Clause) × Solver E
  | .satisfiable =>
    let model := (convention.reading s.value?).restrict P
    (.ok (some model), { s with
      openClause := [], engine := Engine.insert s.engine (s.openClause ++ model.map (-·)) })
  | .unsatisfiable => (.ok none, s)
  | .interrupted => (.error (.error (.solver .interrupted)), s)

/-- The number of the solver does not matter. -/
theorem found_withId (s : Solver E) (i : Nat) (report : Report) :
    found P convention { s with id := i } report =
      ((found P convention s report).1, { (found P convention s report).2 with id := i }) := by
  cases report <;> rfl

section Solve

variable {s s' : Solver E} {p q q' : Process} {report : Report}
  (hsolve : (Solver.solve.run s).run p = pure ((some report, s'), q))
include hsolve

theorem run_findModel_error {e : LimitError} (hc : checkpoint.run q = pure (.error e, q')) :
    ((findModel P convention).run.run s).run p =
      pure ((.error (.error (.limit e)), s'), q') := by
  rw [findModel, ExceptT.run_bind, StateT.run_bind, StateT.run_bind,
    run_isSatisfiable_error hsolve hc]
  rfl

/-- Nothing but the journal and the log change after the checkpoint. -/
theorem run_findModel_ok (hc : checkpoint.run q = pure (.ok (), q')) (hP : ∀ a ∈ P, a.InRange)
    (hvalue : report = .satisfiable → ∀ a, (s'.value? a).isSome) :
    ∃ journal log, ((findModel P convention).run.run s).run p =
      pure (found P convention s' report, { q' with journal, log }) := by
  rw [findModel, ExceptT.run_bind, StateT.run_bind, StateT.run_bind,
    run_isSatisfiable_ok hsolve hc]
  cases report with
  | satisfiable =>
    have hr : Clause.InRange ((convention.reading s'.value?).restrict P) :=
      Assignment.inRange_restrict hP
    have hblock : 0 ∉ ((convention.reading s'.value?).restrict P).map (-·) :=
      fun h₀ => (hr.map_neg 0 h₀).1 rfl
    change ∃ journal log, ((do
      let model ← orOverflow (readModel s' P convention)
      onSolver (Solver.addClause (← orOverflow model.negation?))
      return some model : SearchM E (Option Clause)).run.run s').run _ = _
    simp only [readModel_eq convention (hvalue rfl) hP, Clause.negation?_eq_some hr,
      orOverflow_some, pure_bind]
    rw [onSolver, ExceptT.run_bind_lift, StateT.run_bind, StateT.run_bind,
      Solver.run_addClause _ _ hblock]
    exact ⟨_, _, rfl⟩
  | unsatisfiable => exact ⟨_, _, rfl⟩
  | interrupted => exact ⟨_, _, rfl⟩

end Solve

end ModelStream

end GovernedSat
