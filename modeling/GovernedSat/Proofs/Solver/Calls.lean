import GovernedSat.Solver.Basic

/-!
# What calls to a solver change

Each call to a solver is shown in the journal and changes the solver at hand. Nothing else of the
process is changed, apart from what the callback does during a solve. A clause added as a whole
closes the clause which was open, so it is added as it is when none was.

## Main definitions

* `Call.isUse` — calls other than those by which a solver is made or released.
* `Process.journaled` — the process after a call is journaled.

## Main results

* `Solver.run_add_zero`, `Solver.run_add`, `Solver.run_addClause`, `Solver.run_assume`,
  `Solver.run_solve` — the effect of each call.
-/

namespace GovernedSat

/-- Whether a call is made to a solver which was made before and is not released by it. -/
def Call.isUse : Call → Bool
  | clause .. | assume .. | solve _ => true
  | init _ | release _ => false

/-- The process after a call is journaled. -/
def Process.journaled (p : Process) (c : Call) : Process := { p with journal := p.journal.push c }

/-- The process after the clauses of a formula are journaled. -/
def Process.afterClauses (p : Process) (i : Nat) (g : Formula) : Process :=
  g.foldl (fun p c => p.journaled (.clause i c)) p

namespace Solver

variable {E : Type} [Engine E] (s : Solver E) (p : Process)

theorem run_add_zero : ((add 0).run s).run p =
    (((), { s with openClause := [], engine := Engine.insert s.engine s.openClause }),
      p.journaled (.clause s.id s.openClause)) := rfl

theorem run_add {l : Literal} (h : l ≠ 0) : ((add l).run s).run p =
    (((), { s with openClause := s.openClause ++ [l] }), p) := by
  simp only [add, if_neg h]
  rfl

theorem run_forM_add {c : Clause} (h : 0 ∉ c) : ((c.forM add).run s).run p =
    (((), { s with openClause := s.openClause ++ c }), p) := by
  induction c generalizing s with
  | nil =>
    rw [List.append_nil]
    rfl
  | cons l c ih =>
    rw [List.mem_cons, not_or] at h
    change ((add l >>= fun _ => c.forM add).run s).run p = _
    rw [StateT.run_bind, StateT.run_bind, run_add s p (Ne.symm h.1)]
    refine (ih { s with openClause := s.openClause ++ [l] } h.2).trans ?_
    rw [List.append_assoc, List.singleton_append]

/-- Adding a clause closes it, together with what was open. -/
theorem run_addClause {c : Clause} (h : 0 ∉ c) : ((addClause c).run s).run p =
    (((), { s with openClause := [], engine := Engine.insert s.engine (s.openClause ++ c) }),
      p.journaled (.clause s.id (s.openClause ++ c))) := by
  rw [addClause, StateT.run_bind, StateT.run_bind, run_forM_add s p h]
  rfl

/-- The clauses of a formula are added in turn. -/
theorem run_addFormula {g : Formula} (hg : ∀ c ∈ g, 0 ∉ c) (hs : s.openClause = []) :
    ((addFormula g).run s).run p =
      (((), { s with engine := g.foldl Engine.insert s.engine }), p.afterClauses s.id g) := by
  induction g generalizing s p with
  | nil => rfl
  | cons c g ih =>
    obtain ⟨hc, hg⟩ := List.forall_mem_cons.mp hg
    change ((addClause c >>= fun _ => addFormula g).run s).run p = _
    rw [StateT.run_bind, StateT.run_bind, run_addClause s p hc, hs]
    exact ih { s with openClause := [], engine := Engine.insert s.engine c } _ hg rfl

theorem run_assume (l : Literal) : ((assume l).run s).run p =
    (((), { s with engine := Engine.assume s.engine l }), p.journaled (.assume s.id l)) := rfl

/-- A solve is journaled before the callback is asked for the first time. -/
theorem run_solve : (solve.run s).run p =
    let r := (Engine.solve s.engine s.terminate).run (p.journaled (.solve s.id))
    ((r.1.1, { s with engine := r.1.2 }), r.2) := rfl

end Solver

end GovernedSat
