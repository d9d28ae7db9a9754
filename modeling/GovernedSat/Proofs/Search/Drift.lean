import GovernedSat.Proofs.Search.Moves
import GovernedSat.Proofs.Solver.Drift

/-!
# What searches do to a process

A search drives solvers, passes checkpoints and logs, and nothing else, so a process drifts under
it, and so it does under what a procedure does while its governor is armed.

## Main definitions

* `SearchDrifts` — searches under which every process drifts.

## Main results

* `searchDrifts_isSatisfiable`, `searchDrifts_findModel` — a solve, and the search for a model.
* `drifts_freshSolver`, `drifts_withSolver` — making a solver, and a search with a fresh one.
-/

namespace GovernedSat

open Process

variable {E : Type} {α : Type}

/-- Every process drifts under the search with a tame solver, which stays tame. -/
def SearchDrifts (x : SearchM E α) : Prop :=
  ∀ s : Solver E, s.IsTame → Drifts (x.run.run s) fun r => r.2.IsTame

theorem SolverMoves.drifts {y : SolverM E α} (hy : SolverMoves Drift (fun _ => True) y)
    {s : Solver E} (h : s.IsTame) : Drifts (y.run s) fun r => r.2.IsTame :=
  (hy s trivial h).mono fun r hr => by
    rw [Solver.IsTame, hr.terminate]
    exact h

theorem SearchMoves.drifts {x : SearchM E α} (hx : SearchMoves Drift (fun _ => True) x) :
    SearchDrifts x := fun s h => (hx s trivial h).mono fun r hr => by
  rw [Solver.IsTame, hr.terminate]
  exact h

variable [Engine E] [Engine.IsTame E]

/-- What is done with a fresh solver lets a process drift. -/
theorem admitsSolvers_drift : AdmitsSolvers Drift E where
  engine := Engine.IsTame.obeys
  call _ _ p := (drifts_record _ p).1
  stopRequested := lulls_stopRequested.drifts
  checkpoint := drifts_checkpoint
  logEvent _ p := (drifts_logEvent _ p).1
  make := drift_afterMake
  release := drift_afterRelease

theorem searchDrifts_isSatisfiable : SearchDrifts (isSatisfiable : SearchM E Bool) :=
  admitsSolvers_drift.searchMoves_isSatisfiable.drifts

theorem searchDrifts_findModel (projection : List Atom) (convention : ValueConvention) :
    SearchDrifts (ModelStream.findModel (E := E) projection convention) :=
  SearchMoves.drifts (admitsSolvers_drift.law.findModel projection convention)

theorem Solver.drifts_addClause {s : Solver E} (h : s.IsTame) (c : Clause) :
    Drifts ((addClause c).run s) fun r => r.2.IsTame :=
  SolverMoves.drifts (admitsSolvers_drift.law.addClause c) h

theorem Solver.drifts_addFormula {s : Solver E} (h : s.IsTame) (f : Formula) :
    Drifts ((addFormula f).run s) fun r => r.2.IsTame :=
  SolverMoves.drifts (admitsSolvers_drift.law.addFormula f) h

theorem drifts_freshSolver (f : Formula) :
    Drifts (freshSolver (E := E) f).run fun r => ∀ s, r = .ok s → s.IsTame :=
  (admitsSolvers_drift.moves_freshSolver f).mono fun _ hr s hs => by
    rw [Solver.IsTame, hr s hs]
    exact Callback.tame_stopRequested

/-- The solver is released in the end. -/
theorem drifts_withSolver (f : Formula) {body : SearchM E α}
    (h : SearchMoves Drift (fun _ => True) body) :
    Drifts (withSolver f body).run fun _ => True :=
  admitsSolvers_drift.moves_withSolver f h

end GovernedSat
