import GovernedSat.Proofs.Governor.Moves
import GovernedSat.Proofs.Search.Enumeration
import GovernedSat.Proofs.Search.Runs

/-!
# Models one at a time and at once

All models at once are the models of a stream under the same limits, which is asked for the next one
until there is none. With the solvers of this library such a stream always comes to an end: a model
is not found again by a backtracking solver, as it is blocked, and a scripted one takes a step of
the script for each model.

## Main results

* `ModelStream.descends_backtracking`, `ModelStream.descends_scripted` — with the solvers of this
  library every run ends.
* `allModels_eq_collected` — models one at a time and at once.
-/

namespace GovernedSat

open Process

variable {f : Formula} {P : List Atom} {convention : ValueConvention}

/-! ### Backtracking solvers -/

section Backtracking

variable {k : Coverage}

/-- The number of models which are left decreases, as those found are blocked. -/
theorem ModelStream.descends_backtracking (hP : ∀ a ∈ P, a.InRange) :
    Descends P convention (fun s : Solver (Backtracking k) => s.Holds s.engine.clauses [])
      fun s _ => s.engine.clauses.modelCount P := by
  intro s p hs
  obtain ⟨hholds, hreport⟩ := hs.solved p
  obtain ⟨⟨⟨r, s'⟩, q⟩, hrun⟩ : ∃ r, (Solver.solve.run s).run p = r := ⟨_, rfl⟩
  rw [hrun] at hholds hreport
  rw [hrun]
  rcases hreport with ⟨rfl, hproper, htrue⟩ | ⟨rfl, -⟩ | rfl
  · refine ⟨_, s', q, rfl, fun _ => ⟨hproper.isSome, ?_⟩⟩
    have hσ := (htrue _ (hproper.agreesWith_reading convention)).1
    have hfound : (found P convention s' .satisfiable).2.Holds _ [] := hholds.found hP
    dsimp only
    rw [hfound.clauses]
    exact ⟨hfound, Formula.modelCount_block_lt (List.Subset.refl _) hP hσ⟩
  · exact ⟨_, s', q, rfl, nofun⟩
  · exact ⟨_, s', q, rfl, nofun⟩

theorem Backtracking.foldl_insert (b : Backtracking k) (f : Formula) :
    f.foldl Engine.insert b = { b with clauses := b.clauses ++ f } := by
  induction f generalizing b with
  | nil => rw [List.foldl_nil, List.append_nil]
  | cons c f ih =>
    rw [List.foldl_cons, ih]
    change ({ b with clauses := b.clauses ++ [c] ++ f } : Backtracking k) = _
    rw [List.append_assoc]
    rfl

/-- In any process a fresh solver has the clauses of the formula. -/
theorem Solver.holds_fresh (hf : f.InRange) (id : Nat) :
    (Solver.fresh id ({} : Backtracking k) f).Holds f [] where
  openClause := rfl
  clauses := by
    rw [fresh, Backtracking.foldl_insert]
    rfl
  assumptions := by
    rw [fresh, Backtracking.foldl_insert]
  inRange := hf
  assumedInRange := Clause.inRange_nil
  quiet := isQuiet_stopRequested

instance : Engine.IsBounded (Backtracking k) where
  descends {f P} convention hf := by
    refine ⟨_, _, ModelStream.descends_backtracking (Formula.atomInRange_of_validate hf),
      fun p s q hs => ?_⟩
    obtain ⟨q', hrun⟩ := run_freshSolver (E := Backtracking k)
      (Formula.zero_notMem_of_validate hf) (p := p) (q := p) rfl
    cases hrun.symm.trans hs
    have hholds := Solver.holds_fresh (k := k) (Formula.inRange_of_validate hf) (p.made + 1)
    rw [hholds.clauses]
    exact ⟨hholds, Nat.lt_of_le_of_lt (f.modelCount_le P) (two_pow_lt_allowance k q P.length)⟩

end Backtracking

/-! ### Scripted solvers -/

section Scripted

variable {form : AnswerForm}

/-- The answers which the script still holds. -/
def Process.answers (p : Process) : List ScriptAnswer := p.script.map ScriptStep.answer

/-- The script stays as it is. -/
def Process.KeepsScript (p q : Process) : Prop := q.script = p.script

instance : Std.Refl KeepsScript := ⟨fun _ => rfl⟩

instance : Trans KeepsScript KeepsScript KeepsScript := ⟨fun h h' => Eq.trans h' h⟩

/-- Governors, signals, polls and checkpoints do not change the script. -/
theorem AdmitsNoting.keepsScript : AdmitsNoting KeepsScript where
  readings _ _ := rfl
  limits _ _ := rfl
  actions _ _ := rfl
  governance _ _ _ := rfl
  event _ _ _ := rfl
  note _ _ := rfl
  breachFound _ _ := rfl

namespace Scripted

/-- The first step is still to be taken, and answers what it would have. -/
theorem answers_deliverBefore (p : Process) :
    (deliverBefore.run p).2.answers = p.answers := by
  cases hp : p.script with
  | nil =>
    have hrun : deliverBefore.run p = pure ((), p) := by simp [deliverBefore, hp]
    rw [hrun]
    rfl
  | cons step rest =>
    cases hb : step.before with
    | none =>
      have hrun : deliverBefore.run p = pure ((), p) := by simp [deliverBefore, hp, hb]
      rw [hrun]
      rfl
    | some signal =>
      let p' : Process := { p with script := { step with before := none } :: rest }
      have hkept := (moves_discard (AdmitsNoting.keepsScript.moves_deliver signal) p').1
      have hrun : deliverBefore.run p = (discard (deliver signal)).run p' := by
        simp [deliverBefore, hp, hb, p']
      rw [hrun, answers, answers,
        show ((discard (deliver signal)).run p').2.script = p'.script from hkept, hp]
      rfl

theorem length_script_deliverBefore (p : Process) :
    (deliverBefore.run p).2.script.length = p.script.length := by
  have hlength := congrArg List.length (answers_deliverBefore p)
  rwa [answers, answers, List.length_map, List.length_map] at hlength

/-- The first step is taken. -/
theorem script_takeStep (s : Scripted form) (p : Process) :
    (s.takeStep.run p).2.script = p.script.tail := by
  cases hp : p.script with
  | nil =>
    have hrun : s.takeStep.run p = pure ((.interrupted, s), p) := by simp [takeStep, hp]
    rw [hrun]
    exact hp
  | cons step rest =>
    have hrun : s.takeStep.run p = (s.finishStep step).run { p with script := rest } := by
      rw [takeStep_eq, StateT.run_bind, StateT.run_get, pure_bind]
      dsimp only
      rw [hp]
      rfl
    rw [hrun]
    exact (moves_finishStep AdmitsNoting.keepsScript.moves_deliver s step
      { p with script := rest }).1

/-- A report is due to a step, unless it is an interruption. -/
theorem length_script_takeStep (s : Scripted form) (p : Process)
    (h : (s.takeStep.run p).1.1 ≠ .interrupted) :
    (s.takeStep.run p).2.script.length < p.script.length := by
  rw [script_takeStep]
  cases hp : p.script with
  | nil =>
    have hrun : s.takeStep.run p = pure ((.interrupted, s), p) := by simp [takeStep, hp]
    rw [hrun] at h
    exact absurd rfl h
  | cons step rest => exact Nat.lt_succ_self rest.length

theorem length_script_solve (s : Scripted form) (p : Process)
    (h : ((s.solve (some stopRequested)).run p).1.1 ≠ .interrupted) :
    ((s.solve (some stopRequested)).run p).2.script.length < p.script.length := by
  let asked := stopRequested.run (deliverBefore.run p).2
  have hasked : asked.2.script.length = p.script.length := by
    have hkept := (AdmitsNoting.keepsScript.moves_stopRequested (deliverBefore.run p).2).1
    rw [show asked.2.script = _ from hkept, length_script_deliverBefore]
  have hrun : (s.solve (some stopRequested)).run p =
      (if asked.1 then pure (.interrupted, s) else s.takeStep : ProcessM _).run asked.2 := rfl
  rw [hrun] at h ⊢
  rw [← hasked]
  split at h
  · exact absurd rfl h
  · next hstop =>
    rw [if_neg hstop]
    exact length_script_takeStep s asked.2 h

end Scripted

/-- The script gets shorter. -/
theorem ModelStream.descends_scripted (P : List Atom) (convention : ValueConvention) :
    Descends P convention (fun s : Solver (Scripted form) => s.terminate = some stopRequested)
      fun _ script => script.length := by
  intro s p hs
  let r := (s.engine.solve s.terminate).run (p.journaled (.solve s.id))
  refine ⟨r.1.1, { s with engine := r.1.2 }, r.2, rfl, fun hr => ⟨fun _ => rfl, ?_⟩⟩
  have hlt : r.2.script.length < p.script.length := by
    simp only [r, hs] at hr ⊢
    exact s.engine.length_script_solve _ (by rw [hr]; nofun)
  rw [hr]
  exact ⟨hs, hlt⟩

instance : Engine.IsBounded (Scripted form) where
  descends convention hf := by
    refine ⟨_, _, ModelStream.descends_scripted _ convention,
      fun p s q hs => ⟨?_, Nat.lt_succ_self _⟩⟩
    obtain ⟨id, engine, rfl⟩ := exists_eq_fresh (Formula.zero_notMem_of_validate hf) hs
    rfl

end Scripted

/-! ### All models -/

section AllModels

variable {E : Type} [Engine E] {c : Config} {m : ModelStream E} {p q q' : Process} {g : Governor}

/-- A stream can only be started with a solver. -/
theorem ModelStream.exists_eq_error (hf : f.validate P = .ok ()) {halt : Halt}
    (h : (start (E := E) f P convention).run.run p = pure (.error halt, q)) :
    ∃ e, halt = .error (.solver e) := by
  rw [run_start hf, StateT.run_bind] at h
  obtain ⟨⟨r, p'⟩, hcreate⟩ : ∃ r, (Engine.create (E := E)).run p = pure r := ⟨_, rfl⟩
  cases r with
  | error e =>
    rw [run_freshSolver_error f hcreate] at h
    cases h
    exact ⟨e, rfl⟩
  | ok engine =>
    obtain ⟨q', hrun⟩ := run_freshSolver (Formula.zero_notMem_of_validate hf) hcreate
    rw [hrun] at h
    cases h

/-- The models which are left are found, and closing the stream does nothing more. -/
theorem ModelStream.Runs.run_drain {models : List Clause} {outcome : Option Error}
    {m' : ModelStream E} (h : m.Runs q models outcome m' q') (hm : m.governor = none)
    (hlt : models.length < Engine.allowance E q m.projection.length) :
    m.drain.run.run q = pure (collected models outcome, q') := by
  obtain ⟨hx, hg⟩ := h.isExhausted fun _ => hm
  rw [ModelStream.run_drain]
  change (drainWithin (Engine.allowance E q m.projection.length) m).run q = _
  rw [drainWithin, StateT.run_bind, h.run_restWithin hlt, pure_bind]
  dsimp only
  rw [run_close_of_isExhausted hx hg, pure_bind]
  rfl

/-- All models at once are those of a run of the stream, or the error by which it cannot be
started. -/
theorem exists_allModels_eq [Engine.IsBounded E] (c : Config) (f : Formula) (P : List Atom)
    (p : Process) :
    (∃ e q, (ModelStream.startUnder (E := E) c f P).run.run p = pure (.error (.error e), q) ∧
      (allModels E c f P).run.run p = pure (.error (.error e), q)) ∨
    ∃ m q models outcome m' q',
      (ModelStream.startUnder (E := E) c f P).run.run p = pure (.ok m, q) ∧
      m.Runs q models outcome m' q' ∧
      (allModels E c f P).run.run p = pure (ModelStream.collected models outcome, q') ∧
      m'.isExhausted = true ∧ m'.governor = none := by
  cases hf : f.validate P with
  | error e =>
    refine .inl ⟨.formula e, p, ?_, ?_⟩
    · rw [ModelStream.startUnder, hf]
      rfl
    · rw [allModels, hf]
      rfl
  | ok u =>
    rw [allModels, hf, orFormulaError_ok, pure_bind]
    obtain ⟨⟨armed, p₁⟩, harm⟩ : ∃ r, (Governor.arm c.limits).run p = pure r := ⟨_, rfl⟩
    cases armed with
    | error e =>
      exact .inl ⟨.limit e, p₁, ModelStream.run_startUnder_refused hf harm,
        run_governed_error harm⟩
    | ok g =>
      obtain ⟨⟨r, p₂⟩, hstart⟩ : ∃ r,
        (ModelStream.start (E := E) f P c.convention).run.run p₁ = pure r := ⟨_, rfl⟩
      have hbody : (do
          let m : ModelStream E ← ModelStream.start f P c.convention
          m.drain).run.run p₁ = (ExceptT.bindCont ModelStream.drain r).run p₂ := by
        rw [ExceptT.run_bind, StateT.run_bind, hstart]
        cases r <;> rfl
      rw [run_governed_ok harm, hbody]
      cases r with
      | error halt =>
        obtain ⟨e, rfl⟩ := ModelStream.exists_eq_error hf hstart
        exact .inl ⟨.solver e, _, ModelStream.run_startUnder_error hf harm hstart, rfl⟩
      | ok m =>
        obtain ⟨rfl, hg, hx, models, outcome, m', q', hruns, hlt⟩ :=
          ModelStream.exists_runs_of_start hf hstart
        obtain ⟨hx', hg'⟩ := hruns.isExhausted fun _ => hg
        refine .inr ⟨_, p₂, models, outcome, m', _, ModelStream.run_startUnder_ok hf harm hstart,
          hruns.withGovernor hg hx, ?_, hx', hg'⟩
        have hdrain : (ExceptT.bindCont ModelStream.drain (.ok m)).run p₂ = _ :=
          hruns.run_drain hg hlt
        rw [hdrain]
        rfl

/-- **Eager and lazy enumeration agree.** All models at once give the error by which a stream cannot
be started under the same limits. Otherwise the stream gives models until there is none left, or
until there is an error, and all models at once are these models, or this error. The process is left
the same, and the stream is exhausted: it finds nothing any more and never changes a process. -/
theorem allModels_eq_collected (E : Type) [Engine E] [Engine.IsBounded E] (c : Config)
    (f : Formula) (P : List Atom) (p : Process) :
    (∀ halt q, (ModelStream.startUnder (E := E) c f P).run.run p = pure (.error halt, q) →
      (∃ e, halt = .error e) ∧ (allModels E c f P).run.run p = pure (.error halt, q)) ∧
    ∀ m q, (ModelStream.startUnder (E := E) c f P).run.run p = pure (.ok m, q) →
      ∃ models outcome m' q', m.Runs q models outcome m' q' ∧
        (allModels E c f P).run.run p = pure (ModelStream.collected models outcome, q') ∧
        m'.isExhausted = true ∧
        ∀ (r : ModelStream.Request) (p' : Process),
          (m'.ask r).run p' = pure ((.ok none, m'), p') := by
  obtain ⟨e, q, hstart, hall⟩ | ⟨m, q, models, outcome, m', q', hstart, hruns, hall, hx, hg⟩ :=
    exists_allModels_eq (E := E) c f P p
  · rw [hstart, hall]
    refine ⟨fun halt q' h => ?_, fun m q' h => ?_⟩
    · cases h
      exact ⟨⟨e, rfl⟩, rfl⟩
    · cases h
  · rw [hstart, hall]
    refine ⟨fun halt q' h => ?_, fun m q' h => ?_⟩
    · cases h
    · cases h
      refine ⟨models, outcome, m', _, hruns, rfl, hx, fun r p' => ?_⟩
      rw [ModelStream.ask_of_isExhausted hx hg]
      rfl

/-- Under a limit on CPU time, a stream with a script of two models gives both of them, one after
another, and all models at once are these two. -/
theorem allModels_eq_collected_two :
    let p : Process := {
      host := .steady { cpuTime := 0, resident := 1, addressSpace := 1 }
      script := [{ answer := .sat [1] }, { answer := .sat [-1] }, { answer := .unsat }] }
    let c : Config := .ofLimits { time := 5 } .strictlyTrue
    ∃ m q m' q', (ModelStream.startUnder (E := Scripted .report) c [[1, 2]] [1]).run.run p =
        pure (.ok m, q) ∧
      m.Runs q [[1], [-1]] none m' q' ∧
      (allModels (Scripted .report) c [[1, 2]] [1]).run.run p = pure (.ok [[1], [-1]], q') ∧
      m'.isExhausted = true := by
  intro p c
  obtain ⟨m, q, hstart⟩ : ∃ m q,
    (ModelStream.startUnder (E := Scripted .report) c [[1, 2]] [1]).run.run p =
      pure (.ok m, q) := ⟨_, _, rfl⟩
  obtain ⟨models, outcome, m', q', hruns, hall, hx, -⟩ :=
    (allModels_eq_collected (Scripted .report) c [[1, 2]] [1] p).2 m q hstart
  have hmodels : ModelStream.collected models outcome = .ok [[1], [-1]] := by
    have hresult : ((allModels (Scripted .report) c [[1, 2]] [1]).run.run p).1 =
        .ok [[1], [-1]] := by
      decide +kernel
    rwa [hall] at hresult
  cases outcome with
  | some e => cases hmodels
  | none =>
    cases hmodels
    exact ⟨m, q, m', q', hstart, hruns, hall, hx⟩

end AllModels

end GovernedSat
