import GovernedSat.Proofs.Process.Idle
import GovernedSat.Search.Basic

/-!
# Contracts of procedures and searches

A procedure *gives* a result, and a search *yields* one together with the state it leaves behind,
when in every idle process it does not halt early and what its contract says is true of the result
and of the number of solves. Both are contracts in the sense of `Ensures`, and are put together in
the same way: by the parts of a sequence, each starting where the one before ended.

## Main definitions

* `Gives`, `Yields` — the contracts of a procedure, and of a search from a state.

## Main results

* `Gives.bind`, `Yields.bind` — contracts of sequences.
* `gives_lift`, `yields_lift`, `yields_process` — contracts of what never halts early.
* `Gives.governed` — a computation without limits.
-/

namespace GovernedSat

variable {α β S : Type}

/-! ### Halting -/

section Halting

variable {m : Type → Type} [Monad m] {a : α}

@[simp] theorem orLimitError_ok : (orLimitError (.ok a) : ExceptT Halt m α) = pure a := rfl

@[simp] theorem orSolverError_ok : (orSolverError (.ok a) : ExceptT Halt m α) = pure a := rfl

@[simp] theorem orFormulaError_ok : (orFormulaError (.ok a) : ExceptT Halt m α) = pure a := rfl

@[simp] theorem orOverflow_some : (orOverflow (some a) : ExceptT Halt m α) = pure a := rfl

end Halting

/-! ### Procedures -/

/-- Run in an idle process, the procedure has a result, of which `post` is true. -/
def Gives (x : ProcedureM α) (post : α → Nat → Prop) : Prop :=
  Ensures x.run fun r n => ∃ a, r = .ok a ∧ post a n

section Gives

variable {x : ProcedureM α} {P Q : α → Nat → Prop}

theorem Gives.mono (hx : Gives x P) (h : ∀ a n, P a n → Q a n) : Gives x Q :=
  Ensures.mono hx fun _ n ⟨a, hr, ha⟩ => ⟨a, hr, h a n ha⟩

/-- The run of the procedure in an idle process. -/
theorem Gives.exists_run (hx : Gives x P) {p : Process} (hp : p.IsIdle) :
    ∃ a p' n, x.run.run p = pure (.ok a, p') ∧ p'.IsIdle ∧ p'.solves = p.solves + n ∧ P a n := by
  obtain ⟨hi, n, hn, a, ha, h⟩ := hx p hp
  exact ⟨a, _, n, Prod.ext ha rfl, hi, hn, h⟩

theorem gives_pure {a : α} (h : P a 0) : Gives (pure a) P := ensures_pure ⟨a, rfl, h⟩

theorem Gives.bind {f : α → ProcedureM β} {R : β → Nat → Prop} (hx : Gives x P)
    (hf : ∀ a n, P a n → Gives (f a) fun b m => R b (n + m)) : Gives (x >>= f) R := by
  change Ensures (x.run >>= ExceptT.bindCont f) _
  refine Ensures.bind hx ?_
  rintro _ n ⟨a, rfl, ha⟩
  exact hf a n ha

theorem gives_lift {y : ProcessM α} (hy : Ensures y P) : Gives (ExceptT.lift y) P :=
  hy.bind fun a _ ha => ensures_pure ⟨a, rfl, ha⟩

/-- A part which makes no solve and whose result is certain. -/
theorem Gives.bind_process {y : ProcessM α} {f : α → ProcedureM β} {R : β → Nat → Prop} {a : α}
    (hy : Ensures y fun b n => b = a ∧ n = 0) (hf : Gives (f a) R) : Gives (liftM y >>= f) R := by
  refine (gives_lift hy).bind ?_
  rintro _ _ ⟨rfl, rfl⟩
  simpa only [Nat.zero_add] using hf

/-- Without limits, a procedure does under a governor what it does without one. -/
theorem Gives.governed {l : Limits} (hl : l.isUnbounded = true) (hx : Gives x P) :
    Gives (governed l x) P := by
  refine (ensures_arm hl).bind ?_
  rintro _ _ ⟨⟨g, rfl, hg⟩, rfl⟩
  refine Ensures.bind hx ?_
  rintro _ n ⟨a, rfl, ha⟩
  have hd : g.disarm = pure () := by
    rw [Governor.disarm, hg]
  change Ensures ((g.disarm : ProcessM Unit) >>= fun _ => pure (Except.ok a)) _
  rw [hd, pure_bind]
  exact ensures_pure ⟨a, rfl, by simpa using ha⟩

end Gives

/-! ### Searches -/

/-- Run in an idle process from the state `s`, the search has a result, of which, together with the
state left behind, `post` is true. -/
def Yields (x : ExceptT Halt (StateT S ProcessM) α) (s : S) (post : α → S → Nat → Prop) : Prop :=
  Ensures (x.run.run s) fun r n => ∃ a, r.1 = .ok a ∧ post a r.2 n

section Yields

variable {x : ExceptT Halt (StateT S ProcessM) α} {s : S} {P Q : α → S → Nat → Prop}

theorem Yields.mono (hx : Yields x s P) (h : ∀ a s' n, P a s' n → Q a s' n) : Yields x s Q :=
  Ensures.mono hx fun r n ⟨a, hr, ha⟩ => ⟨a, hr, h a r.2 n ha⟩

/-- The contract of a search is that of whatever is run in the same way. -/
theorem Yields.of_run_eq {y : ExceptT Halt (StateT S ProcessM) α} (h : x.run.run s = y.run.run s)
    (hy : Yields y s P) : Yields x s P := by
  rw [Yields, h]
  exact hy

/-- The run of the search in an idle process. -/
theorem Yields.exists_run (hx : Yields x s P) {p : Process} (hp : p.IsIdle) :
    ∃ a s' p' n, (x.run.run s).run p = pure ((.ok a, s'), p') ∧ p'.IsIdle ∧
      p'.solves = p.solves + n ∧ P a s' n := by
  obtain ⟨hi, n, hn, a, ha, h⟩ := hx p hp
  exact ⟨a, _, _, n, Prod.ext (Prod.ext ha rfl) rfl, hi, hn, h⟩

/-- A part with a result is run first. -/
theorem run_search_bind_ok {f : α → ExceptT Halt (StateT S ProcessM) β} {p p' : Process} {a : α}
    {s' : S} (hx : (x.run.run s).run p = pure ((.ok a, s'), p')) :
    ((x >>= f).run.run s).run p = ((f a).run.run s').run p' := by
  change (x.run.run s >>= fun r => (ExceptT.bindCont f r.1).run r.2).run p = _
  rw [StateT.run_bind, hx]
  rfl

/-- An error ends a search. -/
theorem run_search_bind_error {f : α → ExceptT Halt (StateT S ProcessM) β} {p p' : Process}
    {halt : Halt} {s' : S} (hx : (x.run.run s).run p = pure ((.error halt, s'), p')) :
    ((x >>= f).run.run s).run p = pure ((.error halt, s'), p') := by
  change (x.run.run s >>= fun r => (ExceptT.bindCont f r.1).run r.2).run p = _
  rw [StateT.run_bind, hx]
  rfl

/-- A call to the solver in the course of a search. -/
theorem run_onSolver {E : Type} [Engine E] {y : SolverM E α} {t t' : Solver E} {p p' : Process}
    {a : α} (hy : (y.run t).run p = ((a, t'), p')) :
    ((onSolver y).run.run t).run p = pure ((.ok a, t'), p') := by
  change (y.run t >>= fun r => pure (Except.ok r.1, r.2)).run p = _
  rw [StateT.run_bind, hy]
  rfl

/-- Reading the state of a search. -/
theorem run_search_get (s : S) (p : Process) :
    ((get : ExceptT Halt (StateT S ProcessM) S).run.run s).run p = pure ((.ok s, s), p) := rfl

/-- An event in the course of a search. -/
theorem run_search_logEvent (e : LogEvent) (s : S) (p : Process) :
    ((liftM (Process.logEvent e) : ExceptT Halt (StateT S ProcessM) Unit).run.run s).run p =
      pure ((.ok (), s), { p with log := p.log.push e }) := rfl

/-- A procedure which is run in the course of a search leaves the state as it is. -/
theorem run_onProcedure {y : ProcedureM α} (s : S) {p p' : Process} {r : Except Halt α}
    (hy : y.run.run p = pure (r, p')) :
    ((ExceptT.mk (liftM y.run) : ExceptT Halt (StateT S ProcessM) α).run.run s).run p =
      pure ((r, s), p') := by
  change (y.run.run p >>= fun r => pure ((r.1, s), r.2)) = _
  rw [hy]
  rfl

theorem yields_pure {a : α} (h : P a s 0) : Yields (pure a) s P := ensures_pure ⟨a, rfl, h⟩

theorem Yields.bind {f : α → ExceptT Halt (StateT S ProcessM) β} {R : β → S → Nat → Prop}
    (hx : Yields x s P) (hf : ∀ a s' n, P a s' n → Yields (f a) s' fun b s'' m => R b s'' (n + m)) :
    Yields (x >>= f) s R := by
  change Ensures (x.run.run s >>= fun r => (ExceptT.bindCont f r.1).run r.2) _
  refine Ensures.bind hx ?_
  rintro ⟨_, s'⟩ n ⟨a, rfl, ha⟩
  exact hf a s' n ha

theorem yields_lift {y : StateT S ProcessM α} {R : α × S → Nat → Prop} (hy : Ensures (y.run s) R) :
    Yields (ExceptT.lift y) s fun a s' n => R (a, s') n := by
  change Ensures (y.run s >>= fun r => pure (Except.ok r.1, r.2)) _
  exact hy.bind fun r _ hr => ensures_pure ⟨r.1, rfl, hr⟩

/-- What concerns the process alone leaves the state as it is. -/
theorem yields_process {y : ProcessM α} {R : α → Nat → Prop} (hy : Ensures y R) :
    Yields (liftM y) s fun a s' n => s = s' ∧ R a n := by
  change Ensures ((y >>= fun a => pure (a, s)) >>= fun r => pure (Except.ok r.1, r.2)) _
  rw [bind_assoc]
  exact hy.bind fun a _ ha => ensures_pure ⟨a, rfl, rfl, ha⟩

/-- A procedure with a result, run in the course of a search, leaves the state as it is. -/
theorem yields_procedure {x : ProcedureM α} {R : α → Nat → Prop} (hx : Gives x R) :
    Yields (ExceptT.mk (liftM x.run)) s fun a s' n => s = s' ∧ R a n := by
  change Ensures (x.run >>= fun r => pure (r, s)) _
  refine Ensures.bind hx ?_
  rintro _ n ⟨a, rfl, ha⟩
  exact ensures_pure ⟨a, rfl, rfl, ha⟩

/-- A part which concerns the process alone, makes no solve, and whose result is certain. -/
theorem Yields.bind_process {y : ProcessM α} {f : α → ExceptT Halt (StateT S ProcessM) β}
    {R : β → S → Nat → Prop} {a : α} (hy : Ensures y fun b n => b = a ∧ n = 0)
    (hf : Yields (f a) s R) : Yields (liftM y >>= f) s R := by
  refine (yields_process hy).bind ?_
  rintro _ _ _ ⟨rfl, rfl, rfl⟩
  simpa only [Nat.zero_add] using hf

/-- The state is read. -/
theorem Yields.bind_get {f : S → ExceptT Halt (StateT S ProcessM) β} {R : β → S → Nat → Prop}
    (hf : Yields (f s) s R) : Yields (get >>= f) s R := hf

/-- The state is replaced. -/
theorem Yields.bind_set {f : Unit → ExceptT Halt (StateT S ProcessM) β} {R : β → S → Nat → Prop}
    {s' : S} (hf : Yields (f ()) s' R) : Yields (set s' >>= f) s R := hf

end Yields

end GovernedSat
