import GovernedSat.Proofs.Search.Stopping
import GovernedSat.Proofs.Search.Twins

/-!
# Searches which are interrupted

In a process which is not idle a poll may ask to stop, and a checkpoint may fail. Either ends a
search with an error. A search with a backtracking solver which is not ended so takes no notice of
the process: it gives what it gives in an idle process, and leaves its solver in the same state, but
for the number of the solver.

## Main definitions

* `SolverTwins`, `SearchTwins`, `ProcedureTwins` — operations, searches and procedures which do in
  any process what they do in an idle one, unless an error ends them.

## Main results

* `twinLaw` — searches with backtracking solvers.
* `procedureTwins_withSolver`, `procedureTwins_minimise` — searches with a fresh solver.
-/

namespace GovernedSat

open Process

variable {k : Coverage} {α β : Type}

/-- The operation, on a solver which asks the governor whether to stop, does in any process what it
does, with a solver of any number, in an idle one. -/
def SolverTwins (y : SolverM (Backtracking k) α) : Prop :=
  ∀ (s : Solver (Backtracking k)) (i : Nat) (p q : Process), s.terminate = some stopRequested →
    q.IsIdle →
    let a := (y.run s).run p
    let b := (y.run { s with id := i }).run q
    b.1 = (a.1.1, { a.1.2 with id := i }) ∧ a.1.2.terminate = some stopRequested ∧ b.2.IsIdle

/-- The same of a search, unless it ends with an error. -/
def SearchTwins (x : SearchM (Backtracking k) α) : Prop :=
  ∀ (s : Solver (Backtracking k)) (i : Nat) (p q : Process), s.terminate = some stopRequested →
    q.IsIdle →
    let a := (x.run.run s).run p
    let b := (x.run.run { s with id := i }).run q
    (∃ e, a.1.1 = .error (.error e)) ∨
      b.1 = (a.1.1, { a.1.2 with id := i }) ∧ a.1.2.terminate = some stopRequested ∧ b.2.IsIdle

/-- The procedure gives in any process what it gives in an idle one, unless it ends with an
error. -/
def ProcedureTwins (x : ProcedureM α) : Prop :=
  ∀ p q : Process, q.IsIdle →
    let a := x.run.run p
    let b := x.run.run q
    (∃ e, a.1 = .error (.error e)) ∨ b.1 = a.1 ∧ b.2.IsIdle

/-! ### Putting together -/

theorem SolverTwins.bind {x : SolverM (Backtracking k) α} {f : α → SolverM (Backtracking k) β}
    (hx : SolverTwins x) (hf : ∀ a, SolverTwins (f a)) : SolverTwins (x >>= f) := by
  intro s i p q hs hq a b
  have hb : b = (let r := (x.run { s with id := i }).run q; ((f r.1.1).run r.1.2).run r.2) := rfl
  have hfirst := hx s i p q hs hq
  generalize (x.run { s with id := i }).run q = r at hb hfirst
  obtain ⟨_, q'⟩ := r
  obtain ⟨rfl, hs', hq'⟩ := hfirst
  rw [hb]
  exact hf _ _ i _ q' hs' hq'

theorem searchTwins_pure (a : α) : SearchTwins (pure a : SearchM (Backtracking k) α) :=
  fun _ _ _ _ hs hq => .inr ⟨rfl, hs, hq⟩

theorem searchTwins_throw (halt : Halt) :
    SearchTwins (throw halt : SearchM (Backtracking k) α) :=
  fun _ _ _ _ hs hq => .inr ⟨rfl, hs, hq⟩

theorem searchTwins_orOverflow (o : Option α) :
    SearchTwins (orOverflow o : SearchM (Backtracking k) α) := by
  cases o with
  | some a => exact searchTwins_pure a
  | none => exact searchTwins_throw _

/-- An error of the first part is one of the whole. -/
theorem SearchTwins.bind {x : SearchM (Backtracking k) α} {f : α → SearchM (Backtracking k) β}
    (hx : SearchTwins x) (hf : ∀ a, SearchTwins (f a)) : SearchTwins (x >>= f) := by
  intro s i p q hs hq a b
  have ha : a = (let r := (x.run.run s).run p;
    ((ExceptT.bindCont f r.1.1).run r.1.2).run r.2) := rfl
  have hb : b = (let r := (x.run.run { s with id := i }).run q;
    ((ExceptT.bindCont f r.1.1).run r.1.2).run r.2) := rfl
  have hfirst := hx s i p q hs hq
  generalize (x.run.run s).run p = r at ha hfirst
  generalize (x.run.run { s with id := i }).run q = r' at hb hfirst
  obtain ⟨⟨first, s'⟩, p'⟩ := r
  obtain ⟨_, q'⟩ := r'
  obtain ⟨e, rfl⟩ | ⟨rfl, hs', hq'⟩ := hfirst
  · rw [ha]
    exact .inl ⟨e, rfl⟩
  · rw [ha, hb]
    cases first with
    | ok c => exact hf c s' i p' q' hs' hq'
    | error halt => exact .inr ⟨rfl, hs', hq'⟩

theorem searchTwins_onSolver {y : SolverM (Backtracking k) α} (hy : SolverTwins y) :
    SearchTwins (onSolver y) := by
  intro s i p q hs hq a b
  obtain ⟨hrun, hs', hq'⟩ := hy s i p q hs hq
  refine .inr ⟨?_, hs', hq'⟩
  exact congrArg (fun r => (Except.ok r.1, r.2)) hrun

/-- What concerns the process alone, and has the same result in every process. -/
theorem searchTwins_process {y : ProcessM α} (hy : ∀ p q : Process, q.IsIdle →
    (y.run q).1 = (y.run p).1 ∧ (y.run q).2.IsIdle) :
    SearchTwins (liftM y : SearchM (Backtracking k) α) := by
  intro s i p q hs hq
  obtain ⟨hresult, hq'⟩ := hy p q hq
  exact .inr ⟨congrArg (fun r => (Except.ok r, ({ s with id := i } : Solver _))) hresult, hs, hq'⟩

/-- A procedure in the course of a search. -/
theorem searchTwins_procedure {x : ProcedureM α} (hx : ProcedureTwins x) :
    SearchTwins (ExceptT.mk (liftM x.run) : SearchM (Backtracking k) α) := by
  intro s i p q hs hq
  obtain ⟨e, he⟩ | ⟨hresult, hq'⟩ := hx p q hq
  · exact .inl ⟨e, he⟩
  · exact .inr ⟨congrArg (fun r => (r, ({ s with id := i } : Solver _))) hresult, hs, hq'⟩

/-! ### Solves -/

/-- To be stopped is to end with an error, and polls of the governor are quiet. -/
theorem UnlessStopped.searchTwins {x : SearchM (Backtracking k) α} (hx : UnlessStopped x) :
    SearchTwins x := by
  intro s i p q hs hq
  have hsame : ({ s with id := i, terminate := some stopRequested } : Solver (Backtracking k)) =
      { s with id := i } := by rw [← hs]
  obtain ⟨halt, hhalt, hstopped⟩ | ⟨hrun, hs', hq'⟩ :=
    hx s i (some stopRequested) p q isQuiet_stopRequested hq
  · obtain ⟨e, rfl⟩ := hstopped.exists_error
    exact .inl ⟨e, hhalt⟩
  · rw [hsame] at hrun hq'
    refine .inr ⟨?_, hs'.trans hs, hq'⟩
    rw [hrun, ← hs, ← hs']

/-! ### Searches -/

/-- **Searches with backtracking solvers**, unless an error ends them, do in any process what they
do in an idle one. -/
def twinLaw (k : Coverage) : SearchLaw (Backtracking k) where
  operates := SolverTwins
  searches := SearchTwins
  operates_pure _ _ _ _ _ hs hq := ⟨rfl, hs, hq⟩
  operates_bind := SolverTwins.bind
  operates_add l s i p q hs hq := by
    by_cases hl : l = 0
    · subst hl
      exact ⟨rfl, hs, hq⟩
    · simp only [Solver.add, if_neg hl]
      exact ⟨rfl, hs, hq⟩
  operates_assume _ _ _ _ _ hs hq := ⟨rfl, hs, hq⟩
  searches_pure := searchTwins_pure
  searches_throw := searchTwins_throw
  searches_bind := SearchTwins.bind
  searches_onSolver := searchTwins_onSolver
  searches_read read s := searchTwins_orOverflow (read s.value?) s
  searches_logEvent _ := searchTwins_process fun _ _ hq => ⟨rfl, hq⟩
  searches_currentAllowance _ := searchTwins_process fun _ _ hq => ⟨rfl, hq⟩
  searches_isSatisfiable := unlessStopped_isSatisfiable.searchTwins

/-! ### Fresh solvers -/

/-- A fresh solver differs in its number only. -/
theorem procedureTwins_withSolver {f : Formula} (hf : ∀ c ∈ f, 0 ∉ c)
    {body : SearchM (Backtracking k) α} (hbody : SearchTwins body) :
    ProcedureTwins (withSolver f body) := by
  intro p q hq a b
  obtain ⟨p', hp'⟩ := run_freshSolver (E := Backtracking k) hf (p := p) (q := p) rfl
  obtain ⟨q', hq'⟩ := run_freshSolver (E := Backtracking k) hf (p := q) (q := q) rfl
  have hidle := ((admitsSolvers_keepsIdle k).moves_freshSolver f q).1 hq
  rw [hq'] at hidle
  let r := (body.run.run (.fresh (p.made + 1) {} f)).run p'
  let r' := (body.run.run (.fresh (q.made + 1) {} f)).run q'
  have ha : a = (r.1.1, (r.1.2.release.run r.2).2) := run_withSolver_ok hp'
  have hb : b = (r'.1.1, (r'.1.2.release.run r'.2).2) := run_withSolver_ok hq'
  rw [ha, hb]
  obtain ⟨e, he⟩ | ⟨hrun, -, hr⟩ := hbody (.fresh (p.made + 1) {} f) (q.made + 1) p' q' rfl hidle
  · exact .inl ⟨e, he⟩
  · have hresult : r'.1.1 = r.1.1 := congrArg (fun x => x.1) hrun
    exact .inr ⟨hresult, ((admitsSolvers_keepsIdle k).releases.moves_release r'.1.2 r'.2).1 hr⟩

/-- The search for a minimal set in a model, in the course of another search. -/
theorem searchTwins_minimise (f : Formula) (inputs : List Atom) (convention : ValueConvention)
    (model : SparseValuation) :
    SearchTwins (ExceptT.mk (liftM
      (minimise (Backtracking k) f inputs convention model).run) :
        SearchM (Backtracking k) (List Atom)) :=
  searchTwins_procedure
    (procedureTwins_withSolver (by rintro _ ⟨⟩) ((twinLaw k).minimiserBody f model))

end GovernedSat
