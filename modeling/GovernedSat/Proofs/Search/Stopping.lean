import GovernedSat.Proofs.Search.Answers
import GovernedSat.Proofs.Search.Law
import GovernedSat.Proofs.Search.Solving

/-!
# Searches which are stopped

A search with a backtracking solver is stopped when the callback of the solver answers yes during a
solve, and when a checkpoint finds a breach. Either ends the search with an error which tells which
of the two it was. A search which is not stopped takes no notice of the callback and of the process:
it gives what it gives with a quiet callback in an idle process, and leaves its solver in the same
state, but for the number and the callback of the solver.

## Main definitions

* `IsStopped` — how a search ends which is stopped.
* `OperatesAlike`, `UnlessStopped` — operations which take no notice of the callback and of the
  process, and searches which do not unless they are stopped.

## Main results

* `unlessStopped_isSatisfiable` — a solve with its checkpoint.
* `stoppingLaw` — searches with backtracking solvers.
-/

namespace GovernedSat

open Process

variable {k : Coverage} {α β : Type}

/-- How a search ends which is stopped: with which error, and in which process. -/
inductive IsStopped (callback : Option Callback) : Halt → Process → Prop
  /-- The callback answered yes during a solve, and the checkpoint which followed passed. -/
  | asked {ask : Callback} {q q' r : Process} (callback_eq : callback = some ask)
      (yes : ask.run q = pure (true, q')) (passed : checkpoint.run q' = pure (.ok (), r)) :
      IsStopped callback (.error (.solver .interrupted))
        { r with log := r.log.push (.solved .interrupted) }
  /-- A checkpoint found a breach. -/
  | breached {q r : Process} {e : LimitError} (failed : checkpoint.run q = pure (.error e, r)) :
      IsStopped callback (.error (.limit e)) r

theorem IsStopped.exists_error {callback : Option Callback} {halt : Halt} {p : Process}
    (h : IsStopped callback halt p) : ∃ e, halt = .error e := by
  cases h with
  | asked => exact ⟨_, rfl⟩
  | breached => exact ⟨_, rfl⟩

/-- The operation does in any process what it does, with a solver of any number and with any quiet
callback, in an idle one. -/
def OperatesAlike (y : SolverM (Backtracking k) α) : Prop :=
  ∀ (s : Solver (Backtracking k)) (i : Nat) (callback : Option Callback) (p q : Process),
    IsQuiet callback → q.IsIdle →
    let a := (y.run s).run p
    let b := (y.run { s with id := i, terminate := callback }).run q
    b.1 = (a.1.1, { a.1.2 with id := i, terminate := callback }) ∧
      a.1.2.terminate = s.terminate ∧ b.2.IsIdle

/-- The same of a search, unless it is stopped. -/
def UnlessStopped (x : SearchM (Backtracking k) α) : Prop :=
  ∀ (s : Solver (Backtracking k)) (i : Nat) (callback : Option Callback) (p q : Process),
    IsQuiet callback → q.IsIdle →
    let a := (x.run.run s).run p
    let b := (x.run.run { s with id := i, terminate := callback }).run q
    (∃ halt, a.1.1 = .error halt ∧ IsStopped s.terminate halt a.2) ∨
      b.1 = (a.1.1, { a.1.2 with id := i, terminate := callback }) ∧
        a.1.2.terminate = s.terminate ∧ b.2.IsIdle

/-! ### Putting together -/

theorem OperatesAlike.bind {x : SolverM (Backtracking k) α} {f : α → SolverM (Backtracking k) β}
    (hx : OperatesAlike x) (hf : ∀ a, OperatesAlike (f a)) : OperatesAlike (x >>= f) := by
  intro s i callback p q ht hq a b
  have hb : b = (let r := (x.run { s with id := i, terminate := callback }).run q
    ((f r.1.1).run r.1.2).run r.2) := rfl
  have hfirst := hx s i callback p q ht hq
  generalize (x.run { s with id := i, terminate := callback }).run q = r at hb hfirst
  obtain ⟨_, q'⟩ := r
  obtain ⟨rfl, hs', hq'⟩ := hfirst
  obtain ⟨hrun, hs'', hq''⟩ := hf _ _ i callback _ q' ht hq'
  rw [hb]
  exact ⟨hrun, hs''.trans hs', hq''⟩

theorem unlessStopped_pure (a : α) : UnlessStopped (pure a : SearchM (Backtracking k) α) :=
  fun _ _ _ _ _ _ hq => .inr ⟨rfl, rfl, hq⟩

theorem unlessStopped_throw (halt : Halt) :
    UnlessStopped (throw halt : SearchM (Backtracking k) α) :=
  fun _ _ _ _ _ _ hq => .inr ⟨rfl, rfl, hq⟩

theorem unlessStopped_orOverflow (o : Option α) :
    UnlessStopped (orOverflow o : SearchM (Backtracking k) α) := by
  cases o with
  | some a => exact unlessStopped_pure a
  | none => exact unlessStopped_throw _

/-- A search is stopped when its first part is, and otherwise when the rest is. -/
theorem UnlessStopped.bind {x : SearchM (Backtracking k) α} {f : α → SearchM (Backtracking k) β}
    (hx : UnlessStopped x) (hf : ∀ a, UnlessStopped (f a)) : UnlessStopped (x >>= f) := by
  intro s i callback p q ht hq a b
  have ha : a = (let r := (x.run.run s).run p
    ((ExceptT.bindCont f r.1.1).run r.1.2).run r.2) := rfl
  have hb : b = (let r := (x.run.run { s with id := i, terminate := callback }).run q
    ((ExceptT.bindCont f r.1.1).run r.1.2).run r.2) := rfl
  have hfirst := hx s i callback p q ht hq
  generalize (x.run.run s).run p = r at ha hfirst
  generalize (x.run.run { s with id := i, terminate := callback }).run q = r' at hb hfirst
  obtain ⟨⟨first, s'⟩, p'⟩ := r
  obtain ⟨_, q'⟩ := r'
  obtain ⟨halt, rfl, hstopped⟩ | ⟨rfl, hs', hq'⟩ := hfirst
  · rw [ha]
    exact .inl ⟨halt, rfl, hstopped⟩
  · rw [ha, hb]
    cases first with
    | ok c =>
      have hrest := hf c s' i callback p' q' ht hq'
      dsimp only at hs' hrest
      rw [hs'] at hrest
      exact hrest
    | error halt => exact .inr ⟨rfl, hs', hq'⟩

theorem unlessStopped_onSolver {y : SolverM (Backtracking k) α} (hy : OperatesAlike y) :
    UnlessStopped (onSolver y) := by
  intro s i callback p q ht hq a b
  obtain ⟨hrun, hs', hq'⟩ := hy s i callback p q ht hq
  refine .inr ⟨?_, hs', hq'⟩
  exact congrArg (fun r => (Except.ok r.1, r.2)) hrun

/-- What concerns the process alone, and has the same result in every process. -/
theorem unlessStopped_process {y : ProcessM α} (hy : ∀ p q : Process, q.IsIdle →
    (y.run q).1 = (y.run p).1 ∧ (y.run q).2.IsIdle) :
    UnlessStopped (liftM y : SearchM (Backtracking k) α) := by
  intro s i callback p q ht hq
  obtain ⟨hresult, hq'⟩ := hy p q hq
  exact .inr ⟨congrArg (fun r =>
    (Except.ok r, ({ s with id := i, terminate := callback } : Solver _))) hresult, rfl, hq'⟩

/-! ### Solves -/

/-- After a solve which is interrupted the process is as the callback left it when it answered
yes. -/
theorem Solver.exists_ask_of_interrupted {s s' : Solver (Backtracking k)} {p p' : Process}
    (hsolve : (Solver.solve.run s).run p = pure ((some .interrupted, s'), p')) :
    ∃ ask q, s.terminate = some ask ∧ ask.run q = pure (true, p') := by
  let asked : Process → Prop :=
    fun r => ∃ ask q, s.terminate = some ask ∧ ask.run q = pure (true, r)
  have hask : CallbackPreserves (fun _ => True) asked s.terminate := by
    intro ask ha q _
    split_ifs with hyes
    · exact ⟨ask, q, ha, Prod.ext hyes rfl⟩
    · trivial
  have hs := Backtracking.solve_preserves (b := s.engine) hask
    (s := p.journaled (.solve s.id)) trivial
  rw [Solver.run_solve] at hsolve
  have hreport : (s.engine.solve s.terminate (p.journaled (.solve s.id))).1.1 = some .interrupted :=
    congrArg (·.1.1) hsolve
  have hprocess : (s.engine.solve s.terminate (p.journaled (.solve s.id))).2 = p' :=
    congrArg (·.2) hsolve
  rw [if_pos hreport, hprocess] at hs
  exact hs

/-- **A solve with its checkpoint is stopped, or takes no notice of the callback and of the
process.** -/
theorem unlessStopped_isSatisfiable :
    UnlessStopped (isSatisfiable : SearchM (Backtracking k) Bool) := by
  intro s i callback p q ht hq a b
  obtain ⟨⟨⟨report, s'⟩, p'⟩, hsolve⟩ : ∃ r, (Solver.solve.run s).run p = pure r := ⟨_, rfl⟩
  obtain ⟨q', hidle, hq'⟩ :=
    Solver.run_solve_of_isIdle (s := { s with id := i, terminate := callback }) ht hq
  by_cases hi : report = some .interrupted
  · subst hi
    obtain ⟨ask, q₀, hask, hyes⟩ := Solver.exists_ask_of_interrupted hsolve
    obtain ⟨p'', -, -, ⟨_, -, hc⟩ | ⟨-, hc⟩⟩ := checkpoint_cases p'
    · have ha : a = _ := run_isSatisfiable_error hsolve hc
      rw [ha]
      exact .inl ⟨_, rfl, .breached hc⟩
    · have ha : a = _ := run_isSatisfiable_ok hsolve hc
      rw [ha]
      exact .inl ⟨_, rfl, .asked hask hyes hc⟩
  · have halone : (report, s') = (s.engine.solveAlone.1,
        { s with engine := s.engine.solveAlone.2 }) := by
      rw [Solver.run_solve] at hsolve
      cases hsolve
      have heq := s.engine.eq_solveAlone_of_ne s.terminate (p.journaled (.solve s.id)) hi
      exact congrArg (fun r => (r.1, ({ s with engine := r.2 } : Solver _))) heq
    cases halone
    cases hreport : s.engine.solveAlone.1 with
    | none =>
      rw [hreport] at hsolve
      have hidle : (Solver.solve.run { s with id := i, terminate := callback }).run q =
          pure ((none, { s with
            id := i, terminate := callback, engine := s.engine.solveAlone.2 }), q') :=
        hreport ▸ hidle
      have ha : a = _ := run_isSatisfiable_overflow hsolve
      have hb : b = _ := run_isSatisfiable_overflow hidle
      rw [ha, hb]
      exact .inr ⟨rfl, rfl, hq'⟩
    | some report =>
      rw [hreport] at hsolve
      have hidle : (Solver.solve.run { s with id := i, terminate := callback }).run q =
          pure ((some report, { s with
            id := i, terminate := callback, engine := s.engine.solveAlone.2 }), q') :=
        hreport ▸ hidle
      have hb : b = _ := run_isSatisfiable_ok hidle (run_checkpoint hq')
      obtain ⟨p'', -, -, ⟨_, -, hc⟩ | ⟨-, hc⟩⟩ := checkpoint_cases p'
      · have ha : a = _ := run_isSatisfiable_error hsolve hc
        rw [ha]
        exact .inl ⟨_, rfl, .breached hc⟩
      · have ha : a = _ := run_isSatisfiable_ok hsolve hc
        rw [ha, hb]
        exact .inr ⟨rfl, rfl, hq'⟩

/-! ### Searches -/

/-- **Searches with backtracking solvers**, unless they are stopped, do with any callback and in any
process what they do with a quiet one in an idle process. -/
def stoppingLaw (k : Coverage) : SearchLaw (Backtracking k) where
  operates := OperatesAlike
  searches := UnlessStopped
  operates_pure _ _ _ _ _ _ _ hq := ⟨rfl, rfl, hq⟩
  operates_bind := OperatesAlike.bind
  operates_add l s i callback p q ht hq := by
    by_cases hl : l = 0
    · subst hl
      exact ⟨rfl, rfl, hq⟩
    · simp only [Solver.add, if_neg hl]
      exact ⟨rfl, rfl, hq⟩
  operates_assume _ _ _ _ _ _ _ hq := ⟨rfl, rfl, hq⟩
  searches_pure := unlessStopped_pure
  searches_throw := unlessStopped_throw
  searches_bind := UnlessStopped.bind
  searches_onSolver := unlessStopped_onSolver
  searches_read read s := unlessStopped_orOverflow (read s.value?) s
  searches_logEvent _ := unlessStopped_process fun _ _ hq => ⟨rfl, hq⟩
  searches_currentAllowance _ := unlessStopped_process fun _ _ hq => ⟨rfl, hq⟩
  searches_isSatisfiable := unlessStopped_isSatisfiable

end GovernedSat
