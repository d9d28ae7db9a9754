import GovernedSat.Proofs.Search.Answers
import GovernedSat.Proofs.Search.StreamMoves

/-!
# Computations which no breach disturbs

Limits are raised, and breaches noted, only in the course of a solve, and the checkpoint which
follows finds the breach. So a search, or a procedure, which is not ended by a limit has left the
limits on resources and the breach noted as they were: one which has a result, one for which no
solver can be made, and one whose last solve was interrupted without a breach.

## Main definitions

* `Process.Rests` — the limits on resources and the breach noted stay.
* `IsUndisturbed` — results which tell that no breach was found.
* `SearchCalm`, `ProcedureCalm` — computations which leave those as they were unless disturbed.
* `Engine.MakesQuietly` — kinds of solvers which take of the script at most when one is made.

## Main results

* `searchCalm_isSatisfiable` — a solve and its checkpoint.
* `calmLaw` — searches.
* `procedureCalm_procedureBody` — the bodies of procedures.
-/

namespace GovernedSat

open Process

/-! ### Resting -/

namespace Process

/-- The limits on resources and the breach noted stay. -/
structure Rests (p q : Process) : Prop where
  limits : q.limits = p.limits
  breach : q.governance.breach = p.governance.breach

variable {p q r : Process}

theorem Rests.refl (p : Process) : p.Rests p := ⟨rfl, rfl⟩

theorem Rests.trans (h : p.Rests q) (h' : q.Rests r) : p.Rests r :=
  ⟨h'.limits.trans h.limits, h'.breach.trans h.breach⟩

instance : Std.Refl Rests := ⟨Rests.refl⟩

instance : Trans Rests Rests Rests := ⟨Rests.trans⟩

/-- Without a breach in the end nothing has happened to the limits. -/
theorem Drift.rests (h : p.Drift q) (hb : q.governance.breach = none) : p.Rests q where
  limits := by
    have hget : ∀ x, q.limits.get x = p.limits.get x := fun x => by
      rcases h.limit x with he | ⟨-, hsome, -⟩
      · exact he
      · rw [hb] at hsome
        cases hsome
    have hcpu := hget .cpuTime
    have hspace := hget .addressSpace
    have hfile := hget .fileSize
    cases hp : p.limits
    cases hq : q.limits
    rw [hp, hq] at hcpu hspace hfile
    exact (Resource.Table.mk.injEq ..).mpr ⟨hcpu, hspace, hfile⟩
  breach := hb.trans (h.breach_eq_none hb).symm

theorem admitsReleases_rests : AdmitsReleases Rests where
  release _ _ := ⟨rfl, rfl⟩
  logEvent _ _ := ⟨rfl, rfl⟩

end Process

/-! ### Making a solver -/

/-- A kind of solver of which nothing but the script changes when a solver is made, or refused. -/
class Engine.MakesQuietly (E : Type) [Engine E] : Prop where
  exists_script : ∀ p : Process, ∃ script,
    ((Engine.create (E := E)).run p).2 = { p with script }

instance {k : Coverage} : Engine.MakesQuietly (Backtracking k) where
  exists_script p := ⟨p.script, rfl⟩

instance {form : AnswerForm} : Engine.MakesQuietly (Scripted form) where
  exists_script p := by
    change ∃ script, ((@Scripted.create form).run p).2 = _
    obtain ⟨_, rest, -, -, hrun⟩ | hrun := @Scripted.create_cases form p
    · exact ⟨rest, by rw [hrun]; rfl⟩
    · exact ⟨p.script, by rw [hrun]; rfl⟩

/-! ### Results which tell of no breach -/

variable {E : Type} {α β : Type}

/-- There is a result, or what ended the computation was a solver. -/
def IsUndisturbed : Except Halt α → Prop
  | .ok _ => True
  | .error halt => ∃ e, halt = .error (.solver e)

/-- A search whose solver asks the governor whether to stop leaves limits and breach as they are
unless it is disturbed. -/
def SearchCalm (x : SearchM E α) : Prop :=
  ∀ (s : Solver E) (p : Process), s.terminate = some stopRequested →
    let a := (x.run.run s).run p
    a.1.2.terminate = some stopRequested ∧ (IsUndisturbed a.1.1 → p.Rests a.2)

/-- A procedure leaves limits and breach as they are unless it is disturbed. -/
def ProcedureCalm (x : ProcedureM α) : Prop :=
  ∀ p : Process, IsUndisturbed (x.run.run p).1 → p.Rests (x.run.run p).2

/-! ### Putting together -/

theorem searchCalm_pure (a : α) : SearchCalm (pure a : SearchM E α) :=
  fun _ p hs => ⟨hs, fun _ => .refl p⟩

theorem searchCalm_throw (halt : Halt) : SearchCalm (throw halt : SearchM E α) :=
  fun _ p hs => ⟨hs, fun _ => .refl p⟩

theorem searchCalm_orOverflow (o : Option α) : SearchCalm (orOverflow o : SearchM E α) := by
  cases o with
  | some a => exact searchCalm_pure a
  | none => exact searchCalm_throw _

theorem SearchCalm.bind {x : SearchM E α} {f : α → SearchM E β} (hx : SearchCalm x)
    (hf : ∀ a, SearchCalm (f a)) : SearchCalm (x >>= f) := by
  intro s p hs a
  have ha : a = (let r := (x.run.run s).run p;
    ((ExceptT.bindCont f r.1.1).run r.1.2).run r.2) := rfl
  have hfirst := hx s p hs
  generalize (x.run.run s).run p = r at ha hfirst
  obtain ⟨⟨first, s'⟩, q⟩ := r
  obtain ⟨hs', hq⟩ := hfirst
  rw [ha]
  cases first with
  | error halt => exact ⟨hs', hq⟩
  | ok b =>
    obtain ⟨hs'', hrest⟩ := hf b s' q hs'
    exact ⟨hs'', fun h => (hq trivial).trans (hrest h)⟩

/-- What concerns the process alone. -/
theorem searchCalm_process {y : ProcessM α} (hy : Moves Rests y fun _ => True) :
    SearchCalm (liftM y : SearchM E α) :=
  fun _ p hs => ⟨hs, fun _ => (hy p).1⟩

/-- A procedure in the course of a search. -/
theorem searchCalm_procedure {x : ProcedureM α} (hx : ProcedureCalm x) :
    SearchCalm (ExceptT.mk (liftM x.run) : SearchM E α) :=
  fun _ p hs => ⟨hs, hx p⟩

variable [Engine E] [Engine.IsTame E]

/-- **A solve which passes its checkpoint has found no breach.** -/
theorem searchCalm_isSatisfiable : SearchCalm (isSatisfiable : SearchM E Bool) := by
  intro s p hs a
  have htame : s.IsTame := by
    rw [Solver.IsTame, hs]
    exact Callback.tame_stopRequested
  obtain ⟨⟨⟨report, s'⟩, q⟩, hsolve⟩ : ∃ r, (Solver.solve.run s).run p = pure r := ⟨_, rfl⟩
  have hdrift := (Solver.drifts_solve htame p).1
  have hs' : ((Solver.solve.run s).run p).1.2.terminate = some stopRequested := hs
  rw [hsolve] at hdrift hs'
  cases report with
  | none =>
    have ha : a = _ := run_isSatisfiable_overflow hsolve
    rw [ha]
    exact ⟨hs', by rintro ⟨_, ⟨⟩⟩⟩
  | some report =>
    obtain ⟨q', hl, -, ⟨b, -, hc⟩ | ⟨hb, hc⟩⟩ := checkpoint_cases q
    · have ha : a = _ := run_isSatisfiable_error hsolve hc
      rw [ha]
      exact ⟨hs', by rintro ⟨_, ⟨⟩⟩⟩
    · have ha : a = _ := run_isSatisfiable_ok hsolve hc
      rw [ha]
      exact ⟨hs', fun _ => ((hdrift.trans hl.toDrift).rests hb).trans ⟨rfl, rfl⟩⟩

/-- **Searches are calm.** -/
def calmLaw (E : Type) [Engine E] [Engine.IsTame E] : SearchLaw E where
  operates y := ∀ s : Solver E, Moves Rests (y.run s) fun r => r.2.terminate = s.terminate
  searches := SearchCalm
  operates_pure _ _ := moves_pure rfl
  operates_bind hx hf s := by
    rw [StateT.run_bind]
    exact (hx s).bind fun r hr => (hf r.1 r.2).mono fun _ ht => ht.trans hr
  operates_add l s := by
    by_cases hl : l = 0
    · subst hl
      exact fun p => ⟨⟨rfl, rfl⟩, rfl⟩
    · simp only [Solver.add, if_neg hl]
      exact moves_pure rfl
  operates_assume l s p := ⟨⟨rfl, rfl⟩, rfl⟩
  searches_pure := searchCalm_pure
  searches_throw := searchCalm_throw
  searches_bind := SearchCalm.bind
  searches_onSolver hy s p hs := ⟨(hy s p).2.trans hs, fun _ => (hy s p).1⟩
  searches_read read s := searchCalm_orOverflow (read s.value?) s
  searches_logEvent _ := searchCalm_process (moves_modify fun _ => ⟨rfl, rfl⟩)
  searches_currentAllowance _ := searchCalm_process (moves_get.bind fun _ _ => moves_pure trivial)
  searches_isSatisfiable := searchCalm_isSatisfiable

/-! ### Searches with a fresh solver -/

section FreshSolvers

variable [Engine.MakesQuietly E]

omit [Engine.IsTame E] in
theorem rests_create : Moves Rests (Engine.create (E := E)) fun _ => True := by
  intro p
  obtain ⟨script, hscript⟩ := Engine.MakesQuietly.exists_script (E := E) p
  rw [hscript]
  exact ⟨⟨rfl, rfl⟩, trivial⟩

theorem rests_freshSolver (f : Formula) : Moves Rests (freshSolver (E := E) f).run fun r =>
    ∀ s, r = .ok s → s.terminate = some stopRequested := by
  have hmake := Solver.moves_make (E := E) rests_create (fun _ => ⟨rfl, rfl⟩)
    fun _ _ => ⟨rfl, rfl⟩
  refine hmake.bind_process fun made _ => ?_
  cases made with
  | error e => exact moves_pure nofun
  | ok s =>
    rw [orSolverError_ok, pure_bind]
    have hload : Moves Rests ((do
        Solver.addFormula f
        Solver.setTerminate (some stopRequested) : SolverM E Unit).run s) fun r =>
        r.2.terminate = some stopRequested :=
      ((calmLaw E).addFormula f s).bind fun r _ => moves_pure rfl
    refine hload.bind_process fun r hr => Moves.bind_process (Q := fun _ => True)
      (moves_modify fun _ => ⟨rfl, rfl⟩) fun _ _ => moves_pure ?_
    rintro _ ⟨⟩
    exact hr

/-- What is done with a fresh solver is disturbed when the rest is. -/
theorem procedureCalm_freshSolver_bind (f : Formula) {rest : Solver E → ProcedureM β}
    (hrest : ∀ s, s.terminate = some stopRequested → ProcedureCalm (rest s)) :
    ProcedureCalm (freshSolver f >>= rest) := by
  intro p
  change IsUndisturbed (((freshSolver f).run >>= ExceptT.bindCont rest).run p).1 →
    p.Rests (((freshSolver f).run >>= ExceptT.bindCont rest).run p).2
  rw [StateT.run_bind]
  obtain ⟨hfresh, hs⟩ := rests_freshSolver (E := E) f p
  obtain ⟨⟨r, q⟩, hrun⟩ : ∃ r, (freshSolver (E := E) f).run.run p = pure r := ⟨_, rfl⟩
  rw [hrun] at hfresh hs
  rw [hrun, pure_bind]
  cases r with
  | error halt => exact fun _ => hfresh
  | ok s => exact fun hend => hfresh.trans (hrest s (hs s rfl) q hend)

theorem procedureCalm_withSolver (f : Formula) {body : SearchM E α} (h : SearchCalm body) :
    ProcedureCalm (withSolver f body) :=
  procedureCalm_freshSolver_bind f fun s hs p hend =>
    ((h s p hs).2 hend).trans (admitsReleases_rests.moves_release _ _).1

/-- The search for a minimal set in a model, in the course of another search. -/
theorem searchCalm_minimise (f : Formula) (inputs : List Atom) (convention : ValueConvention)
    (model : SparseValuation) :
    SearchCalm (ExceptT.mk (liftM (minimise E f inputs convention model).run) :
      SearchM E (List Atom)) :=
  searchCalm_procedure (procedureCalm_withSolver [] ((calmLaw E).minimiserBody f model))

end FreshSolvers

/-! ### Streams without limits -/

section Streams

open ModelStream

variable {m : ModelStream E}

theorem calm_next (hm : m.IsUnlimited) (p : Process) :
    let a := ((next (E := E)).run.run m).run p
    IsUndisturbed a.1.1 → p.Rests a.2 := by
  intro a
  cases h : m.solver with
  | none =>
    have ha : a = pure ((.ok none, m), p) := by
      change ((next (E := E)).run.run m).run p = _
      rw [run_next_none h]
      rfl
    rw [ha]
    exact fun _ => .refl p
  | some s =>
    obtain ⟨⟨⟨found, s'⟩, q⟩, hfind⟩ :
      ∃ r, ((findModel m.projection m.convention).run.run s).run p = pure r := ⟨_, rfl⟩
    have hcalm := (calmLaw E).findModel m.projection m.convention s p (hm.isPolite s h)
    rw [hfind] at hcalm
    obtain ⟨hs', hq⟩ := hcalm
    have ha : a = _ := run_next_of_findModel h hfind
    rw [ha]
    intro hend
    rw [(run_settle_fst m s' found q).1] at hend
    exact (hq hend).trans (admitsReleases_rests.moves_settle hm.governor hs' found q).1

theorem calm_restWithin (allowance : Nat) (hm : m.IsUnlimited) (p : Process) :
    let a := ((restWithin (E := E) allowance).run.run m).run p
    IsUndisturbed a.1.1 → p.Rests a.2 := by
  induction allowance generalizing m p with
  | zero => exact fun _ => .refl p
  | succ allowance ih =>
    have hnext := calm_next hm p
    have hm' := (admitsSolvers_drift.moves_next hm p).2
    obtain ⟨⟨⟨found, m'⟩, q⟩, hrun⟩ :
      ∃ r, ((next (E := E)).run.run m).run p = pure r := ⟨_, rfl⟩
    rw [hrun] at hnext hm'
    rw [run_restWithin_succ, StateT.run_bind, hrun, pure_bind]
    obtain halt | _ | model := found
    · exact hnext
    · exact hnext
    · have hrest := ih (m := m') hm' q
      obtain ⟨⟨⟨rest, m''⟩, q'⟩, hrun'⟩ :
        ∃ r, ((restWithin (E := E) allowance).run.run m').run q = pure r := ⟨_, rfl⟩
      rw [hrun'] at hrest
      dsimp only
      rw [StateT.run_bind, hrun', pure_bind]
      cases rest with
      | error halt => exact fun h => (hnext trivial).trans (hrest h)
      | ok models => exact fun h => (hnext trivial).trans (hrest trivial)

theorem procedureCalm_drain (hm : m.IsUnlimited) : ProcedureCalm m.drain := by
  intro p
  rw [run_drain, StateT.run_bind]
  change IsUndisturbed ((drainWithin (Engine.allowance E p m.projection.length) m).run p).1 → _
  have hrest := calm_restWithin (Engine.allowance E p m.projection.length) hm p
  have hm' := (admitsSolvers_drift.moves_restWithin
    (Engine.allowance E p m.projection.length) hm p).2
  exact fun h => (hrest h).trans (admitsReleases_rests.moves_close hm'.governor _).1

end Streams

/-! ### Starting streams, and the bodies of procedures -/

section Bodies

variable [Engine.MakesQuietly E] {f : Formula} {atoms : List Atom}

/-- What is done with a fresh stream is disturbed when the rest is. -/
theorem procedureCalm_start_bind (v : ValueConvention) {rest : ModelStream E → ProcedureM β}
    (hrest : ∀ m, m.IsUnlimited → ProcedureCalm (rest m)) :
    ProcedureCalm (ModelStream.start f atoms v >>= rest) := by
  cases hf : f.validate atoms with
  | error e =>
    rw [ModelStream.start, hf]
    exact fun p _ => .refl p
  | ok u =>
    rw [ModelStream.start, hf, orFormulaError_ok, pure_bind, bind_assoc]
    refine procedureCalm_freshSolver_bind f fun s hs => ?_
    rw [pure_bind]
    refine hrest _ ⟨?_, by rintro _ ⟨⟩⟩
    rintro _ ⟨⟩
    exact hs

theorem procedureCalm_start (v : ValueConvention) :
    ProcedureCalm (ModelStream.start (E := E) f atoms v) := by
  rw [← bind_pure (ModelStream.start f atoms v)]
  exact procedureCalm_start_bind v fun _ _ p _ => .refl p

theorem procedureCalm_procedureBody (v : ValueConvention) (kind : ProcedureKind) :
    ProcedureCalm (Session.procedureBody E v f atoms kind) := by
  cases kind with
  | enumerate => exact procedureCalm_start_bind v fun _ hm => procedureCalm_drain hm
  | single =>
    exact procedureCalm_withSolver f ((calmLaw E).allWithin (calmLaw E).implicantsWithin _)
  | dual =>
    exact procedureCalm_withSolver f ((calmLaw E).allWithin
      ((calmLaw E).dualImplicantsWithin (searchCalm_minimise f atoms v)) _)

end Bodies

end GovernedSat
