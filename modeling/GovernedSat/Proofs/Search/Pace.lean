import GovernedSat.Proofs.Search.Answers
import GovernedSat.Proofs.Search.Drift
import GovernedSat.Proofs.Search.Moves
import GovernedSat.Proofs.Solver.Pace

/-!
# Searches under limits and without

A search which drives scripted solvers does the same under limits as without until it is cut. It is
cut at the checkpoint of some solve, and then it halts with the error of the breach, whatever the
solver has reported for that solve. All that is left to be done is to release the solvers, as it is
when a procedure halts for any other reason.

## Main definitions

* `checkedSolve` — a solve with its checkpoint.
* `PaceInvariant`, `StaysPaced` — computations with a state, and what they keep of it.
* `SearchPaced`, `ProcedurePaced` — searches with a solver at hand, and procedures.
* `paceLaw` — the law that searches stay in pace.

## Main results

* `paced_checkedSolve` — where a run is cut.
* `StaysPaced.bind` — computations one after another.
* `procedurePaced_withSolver` — procedures with a fresh solver.
-/

namespace GovernedSat

open Process

variable {form : AnswerForm} {α β S : Type} {held : List Nat}

/-! ### A solve with its checkpoint -/

section Solve

variable {y : ProcessM (Report × β)}

/-- A solve, followed by the checkpoint. -/
def checkedSolve (i : Nat) (y : ProcessM (Report × β)) :
    ProcessM (Except LimitError Report × β) := do
  record (.solve i)
  let (report, b) ← y
  match ← checkpoint with
  | .error e => return (.error e, b)
  | .ok () =>
    logEvent (.solved report)
    return (.ok report, b)

variable {i : Nat} {p q : Process}

theorem run_checkedSolve (i : Nat) (y : ProcessM (Report × β)) (p : Process) :
    (checkedSolve i y).run p = (checkpoint >>= fun c => match c with
      | .error e => pure (.error e, (y.run (p.afterBegin i)).1.2)
      | .ok () => do
        logEvent (.solved (y.run (p.afterBegin i)).1.1)
        pure (.ok (y.run (p.afterBegin i)).1.1, (y.run (p.afterBegin i)).1.2)).run
      (y.run (p.afterBegin i)).2 := by
  rw [checkedSolve, StateT.run_bind]
  exact StateT.run_bind y _ (p.afterBegin i)

/-- The checkpoint fails. -/
theorem run_checkedSolve_error {e : LimitError}
    (h : checkpoint.run (y.run (p.afterBegin i)).2 = pure (.error e, q)) :
    (checkedSolve i y).run p = pure ((.error e, (y.run (p.afterBegin i)).1.2), q) := by
  rw [run_checkedSolve, StateT.run_bind, h]
  rfl

/-- The checkpoint is passed. -/
theorem run_checkedSolve_ok (h : checkpoint.run (y.run (p.afterBegin i)).2 = pure (.ok (), q)) :
    (checkedSolve i y).run p =
      pure ((.ok (y.run (p.afterBegin i)).1.1, (y.run (p.afterBegin i)).1.2),
        { q with log := q.log.push (.solved (y.run (p.afterBegin i)).1.1) }) := by
  rw [run_checkedSolve, StateT.run_bind, h]
  rfl

theorem drifts_checkedSolve (i : Nat) (hy : Drifts y fun _ => True) :
    Drifts (checkedSolve i y) fun _ => True := by
  refine (drifts_record _).bind fun _ _ => hy.bind fun r _ => drifts_checkpoint.bind fun c _ => ?_
  cases c with
  | error e => exact moves_pure trivial
  | ok u => exact (drifts_logEvent _).bind fun _ _ => moves_pure trivial

/-- **A solve passes its checkpoint with the same report in both processes, or is where the run
under limits is cut.** -/
theorem paced_checkedSolve (i : Nat) (hy : Follows y) :
    Paced (checkedSolve i y) held (fun _ => True)
      (fun r held' => (∃ report, r.1 = .ok report) ∧ held' = held)
      (fun b r held' => r.1 = .error b.toError ∧ held' = held) := by
  refine ⟨drifts_checkedSolve i hy.lulls.drifts, fun start p p₀ hp => ?_⟩
  have hbegin : (p.afterBegin i).Agrees (p₀.afterBegin i) := ⟨hp.agrees.script, hp.agrees.made⟩
  have hbegin₀ : (p₀.afterBegin i).IsUnwatched :=
    (drifts_record (.solve i) p₀).1.isUnwatched hp.unwatched
  have hlull := (hy.lulls (p.afterBegin i)).1
  have hlull₀ := (hy.lulls (p₀.afterBegin i)).1
  obtain ⟨q₀, hl₀, ha₀, ⟨b, hb₀, -⟩ | ⟨-, hc₀⟩⟩ := checkpoint_cases (y.run (p₀.afterBegin i)).2
  · rw [((hlull₀.trans hl₀).isUnwatched hbegin₀).idle.breach] at hb₀
    cases hb₀
  rw [run_checkedSolve_ok hc₀]
  obtain ⟨q, hl, ha, ⟨b, hb, hc⟩ | ⟨hb, hc⟩⟩ := checkpoint_cases (y.run (p.afterBegin i)).2
  · rw [run_checkedSolve_error hc]
    exact .inr ⟨b, held, ⟨rfl, rfl⟩, hp.cut (hlull.trans hl) hb
      ((hlull₀.trans hl₀).toDrift.trans (drifts_logEvent _ q₀).1)⟩
  · -- No breach was noted, so the solve did the same in both processes.
    obtain ⟨he, hagree⟩ := hy.follows _ _ hbegin hbegin₀ (hl.breach_eq_none hb)
    rw [run_checkedSolve_ok hc, he]
    refine .inl ⟨rfl, held, ⟨⟨_, rfl⟩, rfl⟩,
      hp.solved (hlull.trans hl) (hlull₀.trans hl₀) ?_ hb _ _⟩
    exact ⟨ha.script.trans (hagree.script.trans ha₀.script.symm),
      ha.made.trans (hagree.made.trans ha₀.made.symm)⟩

end Solve

/-! ### Computations with a state -/

/-- What is true of a state in the course of a computation. -/
structure PaceInvariant (S : Type) where
  /-- What is always true of it. -/
  tame : S → Prop
  /-- What is true of it, and of the solvers alive, while processes are in pace, and after a cut. -/
  holds : S → List Nat → Prop
  /-- The latter implies the former. -/
  tame_of_holds : ∀ {s held}, holds s held → tame s

/-- Run in processes in pace, the computation keeps the invariant, and if it is cut it halts with
the error of the breach. -/
structure StaysPaced (I : PaceInvariant S) (x : ExceptT Halt (StateT S ProcessM) α) : Prop where
  /-- The run without limits drifts. -/
  drifts : ∀ s, I.tame s → Drifts (x.run.run s) fun r => I.tame r.2
  /-- The runs stay in pace, or the one under limits is cut. -/
  paced : ∀ s held, I.holds s held → Paced (x.run.run s) held (fun r => I.tame r.2)
    (fun r held' => I.holds r.2 held')
    fun b r held' => r.1 = .error (.error (.limit b.toError)) ∧ I.holds r.2 held'

section StaysPaced

variable {I : PaceInvariant S} {x : ExceptT Halt (StateT S ProcessM) α}

theorem staysPaced_pure (a : α) :
    StaysPaced I (pure a : ExceptT Halt (StateT S ProcessM) α) where
  drifts _ h := moves_pure h
  paced _ _ h := paced_pure (I.tame_of_holds h) h

theorem staysPaced_throw (halt : Halt) :
    StaysPaced I (throw halt : ExceptT Halt (StateT S ProcessM) α) where
  drifts _ h := moves_pure h
  paced _ _ h := paced_pure (I.tame_of_holds h) h

theorem staysPaced_get : StaysPaced I (get : ExceptT Halt (StateT S ProcessM) S) where
  drifts _ h := moves_pure h
  paced _ _ h := paced_pure (I.tame_of_holds h) h

/-- After a cut nothing more is done. -/
theorem StaysPaced.bind {f : α → ExceptT Halt (StateT S ProcessM) β} (hx : StaysPaced I x)
    (hf : ∀ a, StaysPaced I (f a)) : StaysPaced I (x >>= f) := by
  have hrest : ∀ r : Except Halt α × S, I.tame r.2 →
      Drifts ((ExceptT.bindCont f r.1).run r.2) fun r' => I.tame r'.2 := by
    rintro ⟨halt | a, s⟩ h
    · exact moves_pure h
    · exact (hf a).drifts s h
  refine ⟨fun s h => (hx.drifts s h).bind hrest, fun s held h => ?_⟩
  refine (hx.paced s held h).bind hrest ?_ ?_
  · rintro ⟨halt | a, s'⟩ held' h'
    · exact paced_pure (I.tame_of_holds h') h'
    · exact (hf a).paced s' held' h'
  · rintro b ⟨_, s'⟩ held' ⟨rfl, h'⟩
    exact finishes_pure ⟨rfl, h'⟩

/-- What concerns the process alone, and makes neither a call nor a solve. -/
theorem staysPaced_process {y : ProcessM α}
    (hy : ∀ held, Paced y held (fun _ => True) (fun _ held' => held' = held) NeverCut) :
    StaysPaced I (liftM y : ExceptT Halt (StateT S ProcessM) α) where
  drifts s h := ((hy []).drifts.bind fun _ _ => moves_pure h).bind fun _ hr => moves_pure hr
  paced s held h := by
    have htame := I.tame_of_holds h
    change Paced ((y >>= fun a => pure (a, s)) >>= fun r => pure (Except.ok r.1, r.2)) held _ _ _
    rw [bind_assoc]
    refine (hy held).bind (fun _ _ => moves_pure htame) ?_ nofun
    rintro a _ rfl
    exact paced_pure htame h

theorem staysPaced_logEvent {e : LogEvent} (he : e.outcome? = none) :
    StaysPaced I (liftM (logEvent e) : ExceptT Halt (StateT S ProcessM) Unit) :=
  staysPaced_process (paced_logEvent he)

theorem staysPaced_orOverflow (o : Option α) :
    StaysPaced I (orOverflow o : ExceptT Halt (StateT S ProcessM) α) := by
  cases o with
  | some a => exact staysPaced_pure a
  | none => exact staysPaced_throw _

end StaysPaced

/-! ### Searches -/

/-- The solver at hand is the latest one alive, and asks the governor whether to stop. -/
def Solver.AtHand (id : Nat) (rest : List Nat) : PaceInvariant (Solver (Scripted form)) where
  tame := IsTame
  holds s held := s.terminate = some stopRequested ∧ s.id = id ∧ held = id :: rest
  tame_of_holds h := by
    rw [IsTame, h.1]
    exact Callback.tame_stopRequested

/-- The search with a solver at hand stays in pace. -/
abbrev SearchPaced (x : SearchM (Scripted form) α) : Prop :=
  ∀ id rest, StaysPaced (Solver.AtHand id rest) x

section Searches

theorem searchPaced_onSolver {y : SolverM (Scripted form) α} (hy : Solver.KeepsPace y) :
    SearchPaced (onSolver y) := by
  refine fun id rest => ⟨fun s h => (hy s [] h).drifts.bind fun _ hr => moves_pure hr, ?_⟩
  intro s held h
  change Paced (y.run s >>= fun r => pure (Except.ok r.1, r.2)) held _ _ _
  refine (hy s held ((Solver.AtHand id rest).tame_of_holds h)).bind
    (fun _ hr => moves_pure hr) ?_ nofun
  rintro r held' ⟨hr, hheld⟩
  rw [hheld]
  have h' : (Solver.AtHand id rest).holds r.2 held := ⟨hr.2.trans h.1, hr.1.trans h.2.1, h.2.2⟩
  exact paced_pure ((Solver.AtHand id rest).tame_of_holds h') h'

/-- Both scripts are as long. -/
theorem paced_currentAllowance (atoms : Nat) (held : List Nat) :
    Paced (currentAllowance (Scripted form) atoms) held (fun _ => True)
      (fun _ held' => held' = held) NeverCut := by
  refine ⟨moves_get.bind fun _ _ => moves_pure trivial, fun start p p₀ hp => .inl ?_⟩
  exact ⟨congrArg (fun script : List ScriptStep => script.length + 1) hp.agrees.script, held, rfl,
    hp⟩

theorem run_isSatisfiable_eq_checkedSolve (s : Solver (Scripted form)) :
    (isSatisfiable : SearchM (Scripted form) Bool).run.run s = (do
      let r ← checkedSolve s.id (s.engine.solve s.terminate)
      return (satisfiability r.1, { s with engine := r.2 })) := by
  refine StateT.ext fun p => ?_
  have hsolve : (Solver.solve.run s).run p =
      (let r := (s.engine.solve s.terminate).run (p.afterBegin s.id)
       pure ((some r.1.1, { s with engine := r.1.2 }), r.2)) := rfl
  rw [run_isSatisfiable hsolve, StateT.run_bind (checkedSolve _ _), run_checkedSolve,
    StateT.run_bind, StateT.run_bind]
  generalize (s.engine.solve s.terminate).run (p.afterBegin s.id) = r
  generalize checkpoint.run r.2 = c
  obtain ⟨⟨report, engine⟩, q⟩ := r
  obtain ⟨e | u, q'⟩ := c
  · rfl
  · cases report <;> rfl

theorem searchPaced_isSatisfiable : SearchPaced (isSatisfiable : SearchM (Scripted form) Bool) := by
  refine fun id rest => ⟨fun s h => searchDrifts_isSatisfiable s h, fun s held h => ?_⟩
  have htame := (Solver.AtHand id rest).tame_of_holds h
  have hsolve : Follows (s.engine.solve s.terminate) := by
    rw [h.1]
    exact s.engine.follows_solve
  rw [run_isSatisfiable_eq_checkedSolve]
  refine (paced_checkedSolve s.id hsolve).bind (fun r _ => moves_pure htame) ?_ ?_
  · rintro r _ ⟨-, rfl⟩
    exact paced_pure htame h
  · rintro b r _ ⟨hr, rfl⟩
    exact finishes_pure ⟨by rw [hr]; rfl, h⟩

/-- Searches stay in pace. -/
def paceLaw : SearchLaw (Scripted form) where
  operates := Solver.KeepsPace
  searches := SearchPaced
  operates_pure := Solver.keepsPace_pure
  operates_bind := Solver.KeepsPace.bind
  operates_add := Solver.keepsPace_add
  operates_assume := Solver.keepsPace_assume
  searches_pure a _ _ := staysPaced_pure a
  searches_throw halt _ _ := staysPaced_throw halt
  searches_bind hx hf id rest := (hx id rest).bind fun a => hf a id rest
  searches_onSolver := searchPaced_onSolver
  searches_read _ _ _ := staysPaced_get.bind fun _ => staysPaced_orOverflow _
  searches_logEvent he _ _ := staysPaced_logEvent (LogEvent.outcome?_eq_none_of_target he)
  searches_currentAllowance atoms _ _ := staysPaced_process (paced_currentAllowance atoms)
  searches_isSatisfiable := searchPaced_isSatisfiable

end Searches

/-! ### Procedures -/

/-- Run in processes in pace, the procedure releases what it makes, and if it is cut it halts with
the error of the breach. -/
def ProcedurePaced (x : ProcedureM α) : Prop :=
  ∀ held, Paced x.run held (fun _ => True) (fun _ held' => held' = held)
    fun b r held' => r = .error (.error (.limit b.toError)) ∧ held' = held

section Procedures

/-- What never halts early, and makes no solve, comes before the rest of a procedure. -/
theorem Paced.bind_process {y : ProcessM α} {g : α → ProcedureM β} {A : α → Prop}
    {P : α → List Nat → Prop} {B : Except Halt β → Prop} {Q : Except Halt β → List Nat → Prop}
    {D : Breach → Except Halt β → List Nat → Prop} (hy : Paced y held A P NeverCut)
    (hB : ∀ a, A a → Drifts (g a).run B)
    (hg : ∀ a held', P a held' → Paced (g a).run held' B Q D) :
    Paced (liftM y >>= g).run held B Q D := by
  change Paced ((y >>= fun a => pure (Except.ok a)) >>= ExceptT.bindCont g) held B Q D
  rw [bind_assoc]
  exact hy.bind hB hg nofun

/-- The solver made is at hand, or none is made. -/
def Solver.HeldIfMade (held : List Nat) (r : Except Halt (Solver (Scripted form)))
    (held' : List Nat) : Prop :=
  match r with
  | .ok s => (AtHand s.id held).holds s held'
  | .error _ => held' = held

/-- A new solver is given the clauses, and then the callback. -/
theorem Solver.paced_load (f : Formula) {s : Solver (Scripted form)} (hs : s.terminate = none)
    (held : List Nat) :
    Paced ((do addFormula f; setTerminate (some stopRequested) :
      SolverM (Scripted form) Unit).run s) (s.id :: held) (fun r => r.2.IsTame)
      (fun r held' => (AtHand s.id held).holds r.2 held') NeverCut := by
  refine (paceLaw.addFormula f s _ (isTame_of_none hs)).bind
    (fun r _ => drifts_setTerminate r.2 Callback.tame_stopRequested) ?_ nofun
  rintro r _ ⟨hr, rfl⟩
  exact paced_pure Callback.tame_stopRequested ⟨rfl, hr.1, rfl⟩

theorem paced_freshSolver (f : Formula) (held : List Nat) :
    Paced (freshSolver (E := Scripted form) f).run held (fun r => ∀ s, r = .ok s → s.IsTame)
      (Solver.HeldIfMade held) NeverCut := by
  -- What is done with a solver which was made.
  have hload : ∀ s : Solver (Scripted form), s.terminate = none →
      Paced (do
        let ((), s) ← (do Solver.addFormula f; Solver.setTerminate (some stopRequested) :
          SolverM (Scripted form) Unit).run s
        Process.logEvent (.loaded f.length)
        return s : ProcedureM (Solver (Scripted form))).run (s.id :: held)
        (fun r => ∀ s, r = .ok s → s.IsTame) (Solver.HeldIfMade held) NeverCut := by
    intro s hs
    refine (Solver.paced_load f hs held).bind_process
      (fun r hr => (drifts_logEvent _).bind_process fun _ _ => moves_pure ?_) fun r held' h => ?_
    · rintro _ ⟨⟩
      exact hr
    · have htame : ∀ t, Except.ok (ε := Halt) r.2 = .ok t → t.IsTame := by
        rintro _ ⟨⟩
        exact (Solver.AtHand s.id held).tame_of_holds h
      refine (paced_logEvent rfl held').bind_process (fun _ _ => moves_pure htame) ?_
      rintro _ _ rfl
      exact paced_pure htame ⟨h.1, rfl, h.2.1 ▸ h.2.2⟩
  refine Solver.paced_make.bind_process ?_ ?_
  · rintro (e | s) h
    · exact moves_pure nofun
    · exact (hload s (h s rfl)).drifts
  · rintro (e | s) held' h
    · exact paced_pure nofun h
    · obtain ⟨hs, rfl⟩ := h
      exact hload s hs

theorem procedurePaced_withSolver (f : Formula) {body : SearchM (Scripted form) α}
    (h : SearchPaced body) : ProcedurePaced (withSolver f body) := by
  intro held
  have hrelease : ∀ r : Except Halt α × Solver (Scripted form),
      Steady (do r.2.release; return r.1) (r.2.id :: held) (fun _ => True)
        fun a held' => a = r.1 ∧ held' = held := fun r =>
    (Solver.steady_release r.2 held).bind (fun _ _ => moves_pure trivial)
      fun _ _ hheld => steady_pure trivial ⟨rfl, hheld⟩
  have hbody : ∀ s, s.IsTame →
      Drifts (do let r ← body.run.run s; r.2.release; return r.1) fun _ => True := fun s hs =>
    ((h 0 []).drifts s hs).bind fun r _ => (hrelease r).paced.drifts
  rw [run_withSolver]
  refine (paced_freshSolver f held).bind ?_ ?_ nofun
  · rintro (halt | s) hs
    · exact moves_pure trivial
    · exact hbody s (hs s rfl)
  · rintro (halt | s) held' hs
    · exact paced_pure trivial hs
    · refine ((h s.id held).paced s held' hs).bind (fun r _ => (hrelease r).paced.drifts) ?_ ?_
      · rintro r _ ⟨-, hid, rfl⟩
        rw [← hid]
        exact (hrelease r).paced.mono (fun _ => id) (fun _ _ => And.right) fun _ _ _ => nofun
      · rintro b r _ ⟨hr, -, hid, rfl⟩
        rw [← hid, ← hr]
        exact (hrelease r).finishes b

/-- A procedure in the course of a search. -/
theorem searchPaced_procedure {x : ProcedureM α} (hx : ProcedurePaced x) :
    SearchPaced (ExceptT.mk (liftM x.run) : SearchM (Scripted form) α) := by
  refine fun id rest => ⟨fun s h => (hx []).drifts.bind fun _ _ => moves_pure h, fun s held h => ?_⟩
  have htame := (Solver.AtHand id rest).tame_of_holds h
  change Paced (x.run >>= fun r => pure (r, s)) held _ _ _
  refine (hx held).bind (fun _ _ => moves_pure htame) ?_ ?_
  · rintro r _ rfl
    exact paced_pure htame h
  · rintro b _ _ ⟨rfl, rfl⟩
    exact finishes_pure ⟨rfl, h⟩

/-- The search for a minimal set in a model, in the course of another search. -/
theorem searchPaced_minimise (f : Formula) (inputs : List Atom) (convention : ValueConvention)
    (model : SparseValuation) :
    SearchPaced (ExceptT.mk (liftM (minimise (Scripted form) f inputs convention model).run) :
      SearchM (Scripted form) (List Atom)) :=
  searchPaced_procedure (procedurePaced_withSolver [] (paceLaw.minimiserBody f model))

end Procedures

end GovernedSat
