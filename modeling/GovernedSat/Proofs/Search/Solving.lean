import GovernedSat.Proofs.Backtracking.Solve
import GovernedSat.Proofs.Search.Contract
import GovernedSat.Proofs.Solver.Calls
import Mathlib.Algebra.Group.Nat.Defs

/-!
# Searches with a backtracking solver

What a search knows of the backtracking solver at hand is the clauses it has and the literals
assumed for the next solve. A solve in an idle process is not interrupted, so it tells whether all
of them can be true, and after a satisfiable one whatever agrees with the answers of the solver
makes them true.

## Main definitions

* `IsQuiet` — a callback which never asks to stop in an idle process.
* `Solver.Holds` — the clauses and the assumptions of a solver.
* `Solver.Shows` — what the last model found makes true.

## Main results

* `Solver.Holds.addClause`, `Solver.Holds.addFormula`, `Solver.Holds.assume` — the calls.
* `Solver.Holds.solved` — a solve in any process.
* `Solver.Holds.isSatisfiable` — a solve tells whether there is a model.
* `gives_withSolver` — a search with a fresh solver.
-/

namespace GovernedSat

variable {k : Coverage} {s : Solver (Backtracking k)} {f g : Formula} {as c : Clause}

/-- In an idle process the callback, if there is one, answers no and makes no solve. -/
def IsQuiet (callback : Option Callback) : Prop :=
  ∀ ask, callback = some ask → Ensures ask fun stop n => stop = false ∧ n = 0

theorem isQuiet_stopRequested : IsQuiet (some stopRequested) := by
  rintro _ ⟨⟩
  exact ensures_stopRequested

namespace Solver

/-- The solver has the clauses and the assumptions given, all in range, no clause is open, and the
callback is quiet. -/
structure Holds (s : Solver (Backtracking k)) (f : Formula) (as : Clause) : Prop where
  /-- No clause is open. -/
  openClause : s.openClause = []
  /-- The clauses. -/
  clauses : s.engine.clauses = f
  /-- The literals assumed. -/
  assumptions : s.engine.assumptions = as
  /-- The clauses are in range. -/
  inRange : f.InRange
  /-- The literals assumed are in range. -/
  assumedInRange : Clause.InRange as
  /-- The callback is quiet. -/
  quiet : IsQuiet s.terminate

/-- The answers of the solver are those of a model of the clauses and the assumptions given. -/
structure Shows (s : Solver (Backtracking k)) (f : Formula) (as : Clause) : Prop where
  /-- There is an answer for every atom. -/
  proper : Answers.IsProper s.value?
  /-- What agrees with the answers makes the clauses and the assumptions true. -/
  isTrueOn : ∀ σ : Assignment, σ.AgreesWith s.value? → f.IsTrueOn σ ∧ ∀ l ∈ as, l.IsTrueOn σ

/-! ### Clauses and assumptions -/

namespace Holds

/-- A clause added joins the others, and the model stays. -/
theorem addClause (h : s.Holds f as) (hc : Clause.InRange c) :
    Ensures ((addClause c).run s) fun r n =>
      r.2.Holds (f ++ [c]) as ∧ r.2.value? = s.value? ∧ n = 0 := by
  intro p hp
  rw [run_addClause s p fun h₀ => (hc 0 h₀).1 rfl, h.openClause, List.nil_append]
  refine ⟨hp, 0, Array.countP_push, ?_, rfl, rfl⟩
  exact ⟨rfl, congrArg (· ++ [c]) h.clauses, h.assumptions,
    Formula.inRange_append.mpr ⟨h.inRange, by simpa using hc⟩, h.assumedInRange, h.quiet⟩

theorem addFormula (h : s.Holds f as) (hg : g.InRange) :
    Ensures ((addFormula g).run s) fun r n => r.2.Holds (f ++ g) as ∧ n = 0 := by
  induction g generalizing s f with
  | nil => exact ensures_pure ⟨by rwa [List.append_nil], rfl⟩
  | cons c g ih =>
    rw [Formula.inRange_cons] at hg
    change Ensures ((Solver.addClause c).run s >>= fun r => (Solver.addFormula g).run r.2) _
    refine (h.addClause hg.1).bind ?_
    rintro ⟨⟨⟩, s'⟩ _ ⟨h', -, rfl⟩
    have hrest := ih h' hg.2
    rw [List.append_assoc, List.singleton_append] at hrest
    exact hrest.mono fun r n hr => ⟨hr.1, by omega⟩

theorem assume (h : s.Holds f as) {l : Literal} (hl : l.InRange) :
    Ensures ((assume l).run s) fun r n =>
      r.2.Holds f (as ++ [l]) ∧ r.2.value? = s.value? ∧ n = 0 := by
  intro p hp
  rw [run_assume]
  refine ⟨hp, 0, Array.countP_push, ?_, rfl, rfl⟩
  refine ⟨h.openClause, h.clauses, congrArg (· ++ [l]) h.assumptions, h.inRange, ?_, h.quiet⟩
  exact List.forall_mem_append.mpr ⟨h.assumedInRange, by simpa using hl⟩

/-! ### Solves -/

/-- A solve in any process tells whether the clauses can be true under the assumptions, which it
forgets, unless it is interrupted. -/
theorem solved (h : s.Holds f as) (p : Process) :
    let r := (Solver.solve.run s).run p
    r.1.2.Holds f [] ∧
      (r.1.1 = some .satisfiable ∧ r.1.2.Shows f as ∨
        r.1.1 = some .unsatisfiable ∧
          (∀ σ : Assignment, (∀ l ∈ as, l.IsTrueOn σ) → ¬ f.IsTrueOn σ) ∨
        r.1.1 = some .interrupted) := by
  have hs := Backtracking.solved_solve (h.clauses ▸ h.inRange) (h.assumptions ▸ h.assumedInRange)
    s.terminate (p.journaled (.solve s.id))
  generalize hr : s.engine.solve s.terminate (p.journaled (.solve s.id)) = r at hs
  have hrun : (Solver.solve.run s).run p = ((r.1.1, { s with engine := r.1.2 }), r.2) :=
    hr ▸ run_solve s p
  rw [hrun]
  refine ⟨⟨h.openClause, hs.clauses_eq.trans h.clauses, hs.assumptions_eq, h.inRange,
    Clause.inRange_nil, h.quiet⟩, ?_⟩
  obtain ⟨⟨report, b⟩, p'⟩ := r
  cases hs with
  | satisfiable proper filled clauses assumptions =>
    refine .inl ⟨rfl, proper.answers, fun σ hσ => ?_⟩
    have ht := proper.isTrueOn_trail hσ
    exact ⟨h.clauses ▸ clauses.isTrueOn ht, fun l hl => ht l (assumptions (h.assumptions ▸ hl))⟩
  | unsatisfiable refuted =>
    refine .inr (.inl ⟨rfl, fun σ hσ => ?_⟩)
    rw [← h.clauses]
    exact refuted σ (by rwa [h.assumptions])
  | interrupted => exact .inr (.inr rfl)

/-- A solve in an idle process tells whether the clauses can be true under the assumptions, which
it forgets. -/
theorem solve (h : s.Holds f as) :
    Ensures (Solver.solve.run s) fun r n => r.2.Holds f [] ∧ n = 1 ∧
      (r.1 = some .satisfiable ∧ r.2.Shows f as ∨
        r.1 = some .unsatisfiable ∧
          ∀ σ : Assignment, (∀ l ∈ as, l.IsTrueOn σ) → ¬ f.IsTrueOn σ) := by
  intro p hp
  -- The callback leaves the process idle and makes no solve, whenever it is asked.
  let kept : Process → Prop := fun q => q.IsIdle ∧ q.solves = p.solves + 1
  have hstart : kept (p.journaled (.solve s.id)) := ⟨hp, Array.countP_push⟩
  have hask : ∀ ask, s.terminate = some ask → ∀ q, kept q →
      (ask.run q).1 = false ∧ kept (ask.run q).2 := by
    rintro ask hs q ⟨hq, hn⟩
    obtain ⟨hi, n, hn', hstop, rfl⟩ := h.quiet ask hs q hq
    exact ⟨hstop, hi, hn'.trans hn⟩
  obtain ⟨hne, hi, hn⟩ := Backtracking.not_interrupted_of_preserves hask hstart
  obtain ⟨hholds, hreport⟩ := h.solved p
  refine ⟨hi, 1, hn, hholds, rfl, hreport.imp_right fun hr => hr.resolve_right hne⟩

/-- **A solve followed by a checkpoint tells whether the clauses can be true under the
assumptions.** -/
theorem isSatisfiable (h : s.Holds f as) :
    Yields isSatisfiable s fun b s' n => s'.Holds f [] ∧ n = 1 ∧
      (b = true ∧ s'.Shows f as ∨
        b = false ∧ ∀ σ : Assignment, (∀ l ∈ as, l.IsTrueOn σ) → ¬ f.IsTrueOn σ) := by
  refine (yields_lift h.solve).bind ?_
  rintro _ s' _ ⟨h', rfl, ⟨rfl, hs⟩ | ⟨rfl, hu⟩⟩
  all_goals
    simp only [orOverflow_some, pure_bind]
    refine .bind_process ensures_checkpoint ?_
    simp only [orLimitError_ok, pure_bind]
    refine .bind_process (ensures_logEvent _) ?_
  · exact yields_pure ⟨h', rfl, .inl ⟨rfl, hs⟩⟩
  · exact yields_pure ⟨h', rfl, .inr ⟨rfl, hu⟩⟩

end Holds

/-! ### Quiet callbacks -/

/-- In an idle process a quiet callback does not interrupt a solve. -/
theorem run_solve_of_isIdle {p : Process} (ht : IsQuiet s.terminate) (hp : p.IsIdle) :
    ∃ q, (Solver.solve.run s).run p =
      pure ((s.engine.solveAlone.1, { s with engine := s.engine.solveAlone.2 }), q) ∧
        q.IsIdle := by
  have hask : ∀ ask, s.terminate = some ask → ∀ q : Process, q.IsIdle →
      (ask.run q).1 = false ∧ (ask.run q).2.IsIdle := by
    intro ask ha q hq
    obtain ⟨hq', n, -, hstop, -⟩ := ht ask ha q hq
    exact ⟨hstop, hq'⟩
  have hstart : (p.journaled (.solve s.id)).IsIdle := hp
  obtain ⟨hne, hidle⟩ := Backtracking.not_interrupted_of_preserves (b := s.engine) hask hstart
  have hrun : (Engine.solve s.engine s.terminate).run (p.journaled (.solve s.id)) =
      (s.engine.solveAlone, (s.engine.solve s.terminate (p.journaled (.solve s.id))).2) :=
    Prod.ext (s.engine.eq_solveAlone_of_ne _ _ hne) rfl
  refine ⟨_, ?_, hidle⟩
  rw [run_solve, hrun]
  rfl

/-! ### Fresh solvers -/

/-- A new solver has no clauses. -/
theorem ensures_make : Ensures (make (E := Backtracking k)) fun r n =>
    ∃ s, r = .ok s ∧ s.Holds [] [] ∧ n = 0 := by
  intro p hp
  exact ⟨hp, 0, Array.countP_push, _, rfl,
    ⟨rfl, rfl, rfl, Formula.inRange_nil, Clause.inRange_nil, nofun⟩, rfl⟩

theorem ensures_release (s : Solver (Backtracking k)) : Ensures s.release fun _ n => n = 0 :=
  fun _ hp => ⟨hp, 0, Array.countP_push, rfl⟩

end Solver

/-- In every process the allowance exceeds the number of sets of the atoms. -/
theorem two_pow_lt_allowance (k : Coverage) (p : Process) (atoms : Nat) :
    2 ^ atoms < Engine.allowance (Backtracking k) p atoms := by
  have h := Nat.le_mul_of_pos_right (2 ^ atoms) (show 0 < atoms + 3 by omega)
  change 2 ^ atoms < 2 ^ atoms * (atoms + 3) + 2
  omega

/-- The allowance does not depend on the process, and exceeds both the number of sets of the atoms
and the number of the atoms. -/
theorem exists_allowance (k : Coverage) (atoms : Nat) :
    ∃ a, (Ensures (currentAllowance (Backtracking k) atoms) fun b n => b = a ∧ n = 0) ∧
      2 ^ atoms < a ∧ atoms < a := by
  refine ⟨2 ^ atoms * (atoms + 3) + 2, fun _ hp => ⟨hp, 0, rfl, rfl, rfl⟩, ?_, ?_⟩
  · exact two_pow_lt_allowance k { host := .steady ⟨0, 0, 0⟩ } atoms
  · have h := Nat.le_mul_of_pos_left (atoms + 3) (Nat.two_pow_pos atoms)
    omega

theorem gives_freshSolver (hf : f.InRange) :
    Gives (freshSolver (E := Backtracking k) f) fun s n => s.Holds f [] ∧ n = 0 := by
  refine (gives_lift Solver.ensures_make).bind ?_
  rintro _ _ ⟨s, rfl, h, rfl⟩
  simp only [orSolverError_ok, pure_bind]
  have hload : Ensures ((do Solver.addFormula f; Solver.setTerminate (some stopRequested) :
      SolverM (Backtracking k) Unit).run s) fun r n => r.2.Holds f [] ∧ n = 0 := by
    change Ensures ((Solver.addFormula f).run s >>= fun r =>
      (Solver.setTerminate (some stopRequested)).run r.2) _
    refine (h.addFormula hf).bind ?_
    rintro ⟨⟨⟩, s'⟩ _ ⟨h', rfl⟩
    exact ensures_pure ⟨{ h' with quiet := isQuiet_stopRequested }, rfl⟩
  refine (gives_lift hload).bind ?_
  rintro ⟨⟨⟩, s'⟩ _ ⟨h', rfl⟩
  exact .bind_process (ensures_logEvent _) (gives_pure ⟨h', rfl⟩)

/-- A search with a fresh solver starts from the clauses of the formula, and the solver is released
at the end. -/
theorem gives_withSolver {α : Type} {body : SearchM (Backtracking k) α} {P : α → Nat → Prop}
    (hf : f.InRange) (hbody : ∀ s, s.Holds f [] → Yields body s fun a _ n => P a n) :
    Gives (withSolver f body) P := by
  refine (gives_freshSolver hf).bind ?_
  rintro s _ ⟨h, rfl⟩
  refine (gives_lift (hbody s h)).bind ?_
  rintro ⟨_, s'⟩ n ⟨a, rfl, ha⟩
  refine (gives_lift (Solver.ensures_release s')).bind ?_
  rintro _ _ rfl
  exact gives_pure (by simpa using ha)

end GovernedSat
