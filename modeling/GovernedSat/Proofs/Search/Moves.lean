import GovernedSat.Proofs.Search.Law
import GovernedSat.Proofs.Solver.Moves

/-!
# How searches change a process

A search changes a process by the calls to the solver at hand, by solves, by checkpoints and by
events. A preorder between processes which allows these changes holds between the process before and
after a search, and if it also allows solvers to be made and released, between the process before
and after a search with a fresh solver.

## Main definitions

* `Solver.Persists` — what operations and searches leave of a solver as it is.
* `SolverMoves`, `SearchMoves` — operations and searches by which processes are changed in a certain
  way.
* `AdmitsSearch`, `AdmitsSolvers` — relations which allow what searches and procedures do.

## Main results

* `AdmitsSearch.law` — searches change processes as the relation says.
* `AdmitsSolvers.moves_withSolver` — and so do searches with a fresh solver.
-/

namespace GovernedSat

open Process

variable {R : Process → Process → Prop} {I : Nat → Prop} {E : Type} {α β : Type}

/-! ### Operations and searches -/

/-- The number and the callback of a solver stay as they are. -/
structure Solver.Persists (s t : Solver E) : Prop where
  id : t.id = s.id
  terminate : t.terminate = s.terminate

namespace Solver.Persists

variable {s t u : Solver E}

theorem refl (s : Solver E) : s.Persists s := ⟨rfl, rfl⟩

theorem trans (h : s.Persists t) (h' : t.Persists u) : s.Persists u :=
  ⟨h'.id.trans h.id, h'.terminate.trans h.terminate⟩

end Solver.Persists

/-- Every process changes as `R` says under the operation with a solver whose number is one of `I`
and whose callback obeys `R`. -/
def SolverMoves (R : Process → Process → Prop) (I : Nat → Prop) (y : SolverM E α) : Prop :=
  ∀ s : Solver E, I s.id → Callback.Obeys R s.terminate →
    Moves R (y.run s) fun r => s.Persists r.2

/-- Every process changes as `R` says under the search with such a solver. -/
def SearchMoves (R : Process → Process → Prop) (I : Nat → Prop) (x : SearchM E α) : Prop :=
  ∀ s : Solver E, I s.id → Callback.Obeys R s.terminate →
    Moves R (x.run.run s) fun r => s.Persists r.2

section Searches

theorem searchMoves_pure [Std.Refl R] (a : α) : SearchMoves R I (pure a : SearchM E α) :=
  fun _ _ _ => moves_pure (.refl _)

theorem searchMoves_throw [Std.Refl R] (halt : Halt) :
    SearchMoves R I (throw halt : SearchM E α) :=
  fun _ _ _ => moves_pure (.refl _)

theorem searchMoves_orOverflow [Std.Refl R] (o : Option α) :
    SearchMoves R I (orOverflow o : SearchM E α) := by
  cases o with
  | some a => exact searchMoves_pure a
  | none => exact searchMoves_throw _

theorem searchMoves_orLimitError [Std.Refl R] (r : Except LimitError α) :
    SearchMoves R I (orLimitError r : SearchM E α) := by
  cases r with
  | ok a => exact searchMoves_pure a
  | error e => exact searchMoves_throw _

variable [Std.Refl R] [Trans R R R]

omit [Std.Refl R] in
theorem SolverMoves.bind {x : SolverM E α} {f : α → SolverM E β} (hx : SolverMoves R I x)
    (hf : ∀ a, SolverMoves R I (f a)) : SolverMoves R I (x >>= f) := by
  intro s hi h
  rw [StateT.run_bind]
  refine (hx s hi h).bind ?_
  rintro ⟨a, s'⟩ hs
  exact (hf a s' (hs.id ▸ hi) (hs.terminate ▸ h)).mono fun _ hr => hs.trans hr

/-- A search which halts early does nothing more. -/
theorem SearchMoves.bind {x : SearchM E α} {f : α → SearchM E β} (hx : SearchMoves R I x)
    (hf : ∀ a, SearchMoves R I (f a)) : SearchMoves R I (x >>= f) := by
  intro s hi h
  change Moves R (x.run.run s >>= fun r => (ExceptT.bindCont f r.1).run r.2) _
  refine (hx s hi h).bind ?_
  rintro ⟨r, s'⟩ hs
  cases r with
  | ok a => exact (hf a s' (hs.id ▸ hi) (hs.terminate ▸ h)).mono fun _ hr => hs.trans hr
  | error halt => exact moves_pure hs

/-- What concerns the process alone. -/
theorem searchMoves_process {y : ProcessM α} (hy : Moves R y fun _ => True) :
    SearchMoves R I (liftM y : SearchM E α) := by
  intro s _ _
  change Moves R ((y >>= fun a => pure (a, s)) >>= fun r => pure (Except.ok r.1, r.2)) _
  rw [bind_assoc]
  exact hy.bind fun _ _ => moves_pure (.refl _)

theorem searchMoves_onSolver {y : SolverM E α} (hy : SolverMoves R I y) :
    SearchMoves R I (onSolver y) := by
  intro s hi h
  change Moves R (y.run s >>= fun r => pure (Except.ok r.1, r.2)) _
  exact (hy s hi h).bind fun _ hr => moves_pure hr

/-- A procedure in the course of a search. -/
theorem searchMoves_procedure {x : ProcedureM α} (hx : Moves R x.run fun _ => True) :
    SearchMoves R I (ExceptT.mk (liftM x.run) : SearchM E α) := by
  intro s _ _
  change Moves R (x.run >>= fun r => pure (r, s)) _
  exact hx.bind fun _ _ => moves_pure (.refl _)

end Searches

/-- The relation allows what searches do with a solver whose number is one of `I`. -/
structure AdmitsSearch (R : Process → Process → Prop) (I : Nat → Prop) (E : Type) [Engine E] :
    Prop where
  engine : Engine.Obeys R E
  /-- The solver at hand is called. -/
  call : ∀ {c : Call}, I c.id → c.isUse = true → ∀ p : Process, R p (p.journaled c)
  stopRequested : Moves R stopRequested fun _ => True
  checkpoint : Moves R checkpoint fun _ => True
  /-- An event is logged which is not about governors. -/
  logEvent : ∀ {e : LogEvent}, e.target ≠ .governor →
    ∀ p : Process, R p { p with log := p.log.push e }

namespace AdmitsSearch

variable [Std.Refl R] [Trans R R R] [Engine E] (hR : AdmitsSearch R I E)
include hR

theorem searchMoves_isSatisfiable : SearchMoves R I (isSatisfiable : SearchM E Bool) := by
  have hsolve : SolverMoves R I (Solver.solve (E := E)) := by
    intro s hi h
    change Moves R (record (.solve s.id) >>= fun _ =>
      Engine.solve s.engine s.terminate >>= fun r => pure (r.1, { s with engine := r.2 })) _
    exact Moves.bind (moves_modify (hR.call (c := .solve s.id) hi rfl)) fun _ _ =>
      (hR.engine.solve s.engine h).bind fun _ _ => moves_pure ⟨rfl, rfl⟩
  refine (searchMoves_onSolver hsolve).bind fun r => (searchMoves_orOverflow r).bind fun report =>
    (searchMoves_process hR.checkpoint).bind fun passed =>
    (searchMoves_orLimitError passed).bind fun _ =>
    (searchMoves_process (moves_modify (hR.logEvent (e := .solved report) nofun))).bind
      fun _ => ?_
  cases report with
  | satisfiable => exact searchMoves_pure true
  | unsatisfiable => exact searchMoves_pure false
  | interrupted => exact searchMoves_throw _

/-- Searches change processes as the relation says. -/
def law : SearchLaw E where
  operates := SolverMoves R I
  searches := SearchMoves R I
  operates_pure _ _ _ _ := moves_pure (.refl _)
  operates_bind := SolverMoves.bind
  operates_add l s hi h := by
    by_cases hl : l = 0
    · subst hl
      exact fun p => ⟨hR.call (c := .clause s.id s.openClause) hi rfl p, rfl, rfl⟩
    · simp only [Solver.add, if_neg hl]
      exact moves_pure ⟨rfl, rfl⟩
  operates_assume l s hi h p := ⟨hR.call (c := .assume s.id l) hi rfl p, rfl, rfl⟩
  searches_pure := searchMoves_pure
  searches_throw := searchMoves_throw
  searches_bind := SearchMoves.bind
  searches_onSolver := searchMoves_onSolver
  searches_read read s := searchMoves_orOverflow (read s.value?) s
  searches_logEvent he := searchMoves_process (moves_modify (hR.logEvent (by rw [he]; nofun)))
  searches_currentAllowance _ :=
    searchMoves_process (moves_get.bind fun _ _ => moves_pure trivial)
  searches_isSatisfiable := hR.searchMoves_isSatisfiable

/-- A solver which was made is given the clauses, and then asks the governor whether to stop. -/
theorem moves_load (f : Formula) {s : Solver E} (hi : I s.id) (hs : s.terminate = none) :
    Moves R ((do Solver.addFormula f; Solver.setTerminate (some GovernedSat.stopRequested) :
      SolverM E Unit).run s) fun r =>
      r.2.id = s.id ∧ r.2.terminate = some GovernedSat.stopRequested := by
  have h : Callback.Obeys R s.terminate := by
    rw [hs]
    exact Callback.obeys_none
  change Moves R ((Solver.addFormula f).run s >>= fun r =>
    pure ((), { r.2 with terminate := some GovernedSat.stopRequested })) _
  exact (hR.law.addFormula f s hi h).bind fun r hr =>
    moves_pure ⟨hr.id, rfl⟩

end AdmitsSearch

/-! ### Procedures -/

section Procedures

variable {x : ProcedureM α} {f : α → ProcedureM β} {P : Except Halt β → Prop}

/-- A procedure which halts early does nothing more. -/
theorem Moves.bind_procedure [Std.Refl R] [Trans R R R] {Q : Except Halt α → Prop}
    (hx : Moves R x.run Q) (hf : ∀ a, Q (.ok a) → Moves R (f a).run P)
    (hhalt : ∀ halt, P (.error halt)) : Moves R (x >>= f).run P := by
  change Moves R (x.run >>= ExceptT.bindCont f) P
  refine hx.bind fun r hr => ?_
  cases r with
  | ok a => exact hf a hr
  | error halt => exact moves_pure (hhalt halt)

/-- What never halts early comes before the rest of a procedure. -/
theorem run_process_bind (y : ProcessM α) (f : α → ProcedureM β) :
    (liftM y >>= f).run = y >>= fun a => (f a).run := by
  change (y >>= fun a => pure (Except.ok a)) >>= ExceptT.bindCont f = _
  rw [bind_assoc]
  rfl

theorem Moves.bind_process [Trans R R R] {y : ProcessM α} {Q : α → Prop} (hy : Moves R y Q)
    (hf : ∀ a, Q a → Moves R (f a).run P) : Moves R (liftM y >>= f).run P := by
  rw [run_process_bind]
  exact hy.bind hf

/-- A fresh solver: it has the clauses of a formula, and asks the governor whether to stop. -/
def Solver.fresh [Engine E] (id : Nat) (engine : E) (f : Formula) : Solver E where
  id := id
  terminate := some stopRequested
  engine := f.foldl Engine.insert engine

/-- The process after a solver with the clauses of a formula was made. -/
def Process.afterLoad (E : Type) [Engine E] (p : Process) (f : Formula) : Process :=
  let q := (Solver.announced E p.afterMake .initialised).afterClauses (p.made + 1) f
  { q with log := q.log.push (.loaded f.length) }

theorem run_freshSolver_eq [Engine E] {f : Formula} (hf : ∀ c ∈ f, 0 ∉ c) {p q : Process}
    {engine : E} (h : (Engine.create (E := E)).run p = pure (.ok engine, q)) :
    (freshSolver f).run.run p = pure (.ok (.fresh (q.made + 1) engine f), q.afterLoad E f) := by
  have hload : ((do Solver.addFormula f; Solver.setTerminate (some stopRequested) :
      SolverM E Unit).run { id := q.made + 1, engine }).run
        (Solver.announced E q.afterMake .initialised) = (((), .fresh (q.made + 1) engine f),
          (Solver.announced E q.afterMake .initialised).afterClauses (q.made + 1) f) := by
    rw [StateT.run_bind, StateT.run_bind, Solver.run_addFormula _ _ hf rfl]
    rfl
  rw [freshSolver, run_process_bind, StateT.run_bind, Solver.run_make_ok h, pure_bind,
    orSolverError_ok, pure_bind, run_process_bind, StateT.run_bind, hload]
  rfl

theorem run_freshSolver [Engine E] {f : Formula} (hf : ∀ c ∈ f, 0 ∉ c) {p q : Process} {engine : E}
    (h : (Engine.create (E := E)).run p = pure (.ok engine, q)) :
    ∃ q', (freshSolver f).run.run p = pure (.ok (.fresh (q.made + 1) engine f), q') :=
  ⟨_, run_freshSolver_eq hf h⟩

/-- No solver is made. -/
theorem run_freshSolver_error [Engine E] (f : Formula) {p q : Process} {e : SolverError}
    (h : (Engine.create (E := E)).run p = pure (.error e, q)) :
    (freshSolver (E := E) f).run.run p = pure (.error (.error (.solver e)), q) := by
  rw [freshSolver, run_process_bind, StateT.run_bind, Solver.run_make_error h]
  rfl

/-- A solver which was made for a search is a fresh one. -/
theorem exists_eq_fresh [Engine E] {f : Formula} (hf : ∀ c ∈ f, 0 ∉ c) {p q : Process}
    {s : Solver E} (h : (freshSolver f).run.run p = pure (.ok s, q)) :
    ∃ id engine, s = .fresh id engine f := by
  obtain ⟨⟨r, q'⟩, hcreate⟩ : ∃ r, (Engine.create (E := E)).run p = pure r := ⟨_, rfl⟩
  cases r with
  | error e => cases (run_freshSolver_error f hcreate).symm.trans h
  | ok engine =>
    obtain ⟨q'', hrun⟩ := run_freshSolver hf hcreate
    cases hrun.symm.trans h
    exact ⟨_, _, rfl⟩

/-- The solver is released, whatever the search gives. -/
theorem run_withSolver [Engine E] (f : Formula) (body : SearchM E α) :
    (withSolver f body).run = (do
      match ← (freshSolver f).run with
      | .error halt => return .error halt
      | .ok s =>
        let r ← body.run.run s
        r.2.release
        return r.1) := by
  change (freshSolver f).run >>= ExceptT.bindCont _ = _
  refine congrArg (_ >>= ·) (funext fun r => ?_)
  cases r with
  | error halt => rfl
  | ok s => rfl

/-- Without a solver there is no search. -/
theorem run_withSolver_error [Engine E] {f : Formula} {body : SearchM E α} {p q : Process}
    {halt : Halt} (h : (freshSolver (E := E) f).run.run p = pure (.error halt, q)) :
    (withSolver f body).run.run p = pure (.error halt, q) := by
  rw [run_withSolver, StateT.run_bind, h]
  rfl

theorem run_withSolver_ok [Engine E] {f : Formula} {body : SearchM E α} {p q : Process}
    {s : Solver E} (h : (freshSolver f).run.run p = pure (.ok s, q)) :
    (withSolver f body).run.run p =
      (let r := (body.run.run s).run q
      pure (r.1.1, (r.1.2.release.run r.2).2)) := by
  rw [run_withSolver, StateT.run_bind, h]
  rfl

/-- Without a governor there is nothing to be run. -/
theorem run_governed_error {l : Limits} {p q : Process} {e : LimitError}
    (h : (Governor.arm l).run p = pure (.error e, q)) :
    (governed l x).run.run p = pure (.error (.error (.limit e)), q) := by
  change StateT.run (Governor.arm l >>= _) p = _
  rw [StateT.run_bind, h]
  rfl

/-- The governor is disarmed, whatever the body gives. -/
theorem run_governed_ok {l : Limits} {p q : Process} {g : Governor}
    (h : (Governor.arm l).run p = pure (.ok g, q)) :
    (governed l x).run.run p =
      pure ((x.run.run q).1, (g.disarm.run (x.run.run q).2).2) := by
  change StateT.run (Governor.arm l >>= _) p = _
  rw [StateT.run_bind, h]
  rfl

end Procedures

/-- The relation allows what is done when a search has ended. -/
structure AdmitsReleases (R : Process → Process → Prop) : Prop where
  /-- A solver is released. -/
  release : ∀ (p : Process) (i : Nat), R p (p.afterRelease i)
  /-- An event is logged which is not about governors. -/
  logEvent : ∀ {e : LogEvent}, e.target ≠ .governor →
    ∀ p : Process, R p { p with log := p.log.push e }

theorem AdmitsReleases.moves_release [Std.Refl R] [Trans R R R] [Engine E]
    (hR : AdmitsReleases R) (s : Solver E) : Moves R s.release fun _ => True :=
  Solver.moves_release hR.release (hR.logEvent nofun) s

/-- The relation allows what is done with a fresh solver. -/
structure AdmitsSolvers (R : Process → Process → Prop) (E : Type) [Engine E] : Prop
    extends AdmitsSearch R (fun _ => True) E where
  /-- A solver is made. -/
  make : ∀ p : Process, R p p.afterMake
  /-- A solver is released. -/
  release : ∀ (p : Process) (i : Nat), R p (p.afterRelease i)

namespace AdmitsSolvers

variable [Std.Refl R] [Trans R R R] [Engine E] (hR : AdmitsSolvers R E)
include hR

/-- A solver has no callback at first. -/
theorem moves_make : Moves R (Solver.make (E := E)) fun r => ∀ s, r = .ok s →
    s.terminate = none :=
  Solver.moves_make hR.engine.create hR.make fun _ => hR.logEvent nofun

omit [Std.Refl R] [Trans R R R] in
theorem releases : AdmitsReleases R := ⟨hR.release, hR.logEvent⟩

theorem moves_freshSolver (f : Formula) :
    Moves R (freshSolver (E := E) f).run fun r => ∀ s, r = .ok s →
      s.terminate = some stopRequested := by
  refine hR.moves_make.bind_process fun made hmade => ?_
  cases made with
  | error e => exact moves_pure nofun
  | ok s =>
    rw [orSolverError_ok, pure_bind]
    refine (hR.moves_load f trivial (hmade s rfl)).bind_process fun r hr =>
      Moves.bind_process (moves_modify (hR.logEvent (e := .loaded f.length) nofun))
      fun _ _ => moves_pure ?_
    rintro _ ⟨⟩
    exact hr.2

/-- The solver is released in the end. -/
theorem moves_withSolver (f : Formula) {body : SearchM E α}
    (h : SearchMoves R (fun _ => True) body) : Moves R (withSolver f body).run fun _ => True := by
  rw [run_withSolver]
  refine (hR.moves_freshSolver f).bind fun r hr => ?_
  cases r with
  | error halt => exact moves_pure trivial
  | ok s =>
    have hobeys : Callback.Obeys R s.terminate := by
      rw [hr s rfl]
      exact Callback.obeys_some hR.stopRequested
    exact (h s trivial hobeys).bind fun r _ => (hR.releases.moves_release r.2).bind fun _ _ =>
      moves_pure trivial

/-- The search for a minimal set in a model, in the course of another search. -/
theorem searchMoves_minimise (f : Formula) (inputs : List Atom) (convention : ValueConvention)
    (model : SparseValuation) :
    SearchMoves R (fun _ => True) (ExceptT.mk (liftM (minimise E f inputs convention model).run) :
      SearchM E (List Atom)) :=
  searchMoves_procedure (hR.moves_withSolver [] (hR.law.minimiserBody f model))

end AdmitsSolvers

end GovernedSat
