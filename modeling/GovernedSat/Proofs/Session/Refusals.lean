import GovernedSat.Proofs.Search.Calm
import GovernedSat.Proofs.Search.Laziness
import GovernedSat.Proofs.Search.Outcomes
import GovernedSat.Proofs.Search.Refusals
import GovernedSat.Proofs.Session.Undoing

/-!
# Calls which are refused

A procedure, or a stream under limits, first checks its formula, then arms a governor, and then
makes a solver. A formula which breaks the contract is refused before anything else is done. Limits
are refused while others are in force, and a reading and an event are all that is left of it. When
no solver can be made, at first or later on, the governor is disarmed again, and what governors
change is as it was before the call, whether other limits are in force then or none.

## Main definitions

* `Process.IsGovernedAs` — what governors change is as it was.
* `IsGuarded` — calls which are refused as described above.
* `RunsUnder` — a computation under a governor, after the formula is checked.
* `Engine.GuardsCalls` — kinds of solvers with which all calls are guarded.

## Main results

* `Process.History.isGovernedAs_disarm` — a governor which nothing has disturbed.
* `RunsUnder.isGuarded` — a computation under a governor.
* `calls_are_guarded` — procedures and streams with the solvers of this library.
-/

namespace GovernedSat

open Process

/-! ### What governors change -/

namespace Process

variable {p₀ p q : Process}

/-- What governors change is in `q` as it is in `p`: the limits, the actions on signals, and the
state of governance but for the count of polls. -/
structure IsGovernedAs (q p : Process) : Prop where
  limits : q.limits = p.limits
  actions : q.actions = p.actions
  /-- The flag of a governor in force, the hook, and the soft limits which are polled. -/
  setup : q.governance.setup = p.governance.setup
  breach : q.governance.breach = p.governance.breach

/-- Between processes in which no governor has limits in force, the settings decide. -/
theorem IsRevertedTo.isGovernedAs (h : q.IsRevertedTo p) (hp : p.IsUnarmed) :
    q.IsGovernedAs p where
  limits := h.limits
  actions := h.actions
  setup := by
    have hunarmed : ∀ {r : Process}, r.IsUnarmed → r.governance.setup = {} := by
      intro r hr
      rw [Governance.setup, hr.armed, hr.memoryHook, hr.idle.deadline, hr.idle.ceiling]
    rw [hunarmed hp, hunarmed h.toIsUnarmed]
  breach := h.idle.breach.trans hp.idle.breach.symm

/-- **Disarming a governor which nothing has disturbed undoes that it was armed**, also when it has
no limits and another one has. -/
theorem History.isGovernedAs_disarm {governor : Option Governor} {noted : List Breach}
    {l : Limits} {g : Governor} {q' : Process} (h₀ : p₀.IsUnarmed)
    (h : p₀.History governor noted p) (harm : (Governor.arm l).run p = pure (.ok g, q))
    (hd : q.Drift q') (hr : q.Rests q') : ((g.disarm.run q').2 : Process).IsGovernedAs p := by
  cases hl : l.isUnbounded with
  | true =>
    obtain ⟨baseline, hrun⟩ := run_arm p hl
    cases hrun.symm.trans harm
    exact ⟨hr.limits, hd.actions, hd.setup, hr.breach⟩
  | false =>
    obtain ⟨rfl, rfl, -⟩ := (h.latches h₀).arm hl harm
    have hp := h.isUnarmed h₀
    exact (Governor.isRevertedTo_disarm_of_arm hp harm hd hr.limits).isGovernedAs hp

end Process

/-! ### Guarded calls -/

section Guarded

variable {E : Type} {α β : Type}

/-- How a call with a configuration, a formula and atoms is refused. The call is given for every
way in which solvers of the kind may be made. -/
structure IsGuarded [i : Engine E] (c : Config) (f : Formula) (atoms : List Atom)
    (call : Engine E → ProcedureM α) : Prop where
  /-- There is a formula error exactly when the formula and the atoms have it. -/
  formula_iff : ∀ p e, ((call i).run.run p).1 = .error (.error (.formula e)) ↔
    f.validate atoms = .error e
  /-- Then nothing is changed. -/
  formula : ∀ p e, f.validate atoms = .error e →
    (call i).run.run p = pure (.error (.error (.formula e)), p)
  /-- Limits are refused while others are in force. -/
  armed : ∀ p, f.validate atoms = .ok () → c.limits.isUnbounded = false →
    p.governance.armed = true → (call i).run.run p = pure (.error (.error (.limit .governorArmed)),
      { p with readings := p.readings + 1, log := p.log.push .armingRefused })
  /-- A governor was armed, and then the first solver is refused. -/
  unmade : ∀ p g q e q', f.validate atoms = .ok () →
    (Governor.arm c.limits).run p = pure (.ok g, q) →
    (Engine.create (E := E)).run q = pure (.error e, q') →
    ((call i).run.run p).1 = .error (.error (.solver e))
  /-- No refusal of a solver goes unnoticed: the call would be the same if solvers were made in
  another way where they are refused, unless its result is the error of a refusal. -/
  heeded : ∀ create, Engine.Mends E create → ProcedureMatches E (call i) (call (.remade E create))
  /-- A call which ends with an error of a solver, in a process which some history leads to, has
  undone what its governor changed. -/
  undone : ∀ (p₀ : Process) g noted p e, p₀.IsUnarmed → p₀.History g noted p →
    ((call i).run.run p).1 = .error (.error (.solver e)) →
    ((call i).run.run p).2.IsGovernedAs p

variable [i : Engine E]

/-- The call checks the formula, and then runs a computation under a governor. -/
structure RunsUnder (c : Config) (f : Formula) (atoms : List Atom) (body : ProcedureM β)
    (call : ProcedureM α) : Prop where
  /-- The formula, or an atom, is not as it should be. -/
  formula : ∀ {e}, f.validate atoms = .error e → ∀ p,
    call.run.run p = pure (.error (.error (.formula e)), p)
  /-- No governor can be armed. -/
  refused : ∀ {p q e}, f.validate atoms = .ok () →
    (Governor.arm c.limits).run p = pure (.error e, q) →
    call.run.run p = pure (.error (.error (.limit e)), q)
  /-- The governor is disarmed after the computation has failed. -/
  failed : ∀ {p q g halt q'}, f.validate atoms = .ok () →
    (Governor.arm c.limits).run p = pure (.ok g, q) →
    body.run.run q = pure (.error halt, q') →
    call.run.run p = pure (.error halt, (g.disarm.run q').2)
  /-- There is a result when the computation has one. -/
  given : ∀ {p q g b q'}, f.validate atoms = .ok () →
    (Governor.arm c.limits).run p = pure (.ok g, q) →
    body.run.run q = pure (.ok b, q') → ∃ a, (call.run.run p).1 = .ok a

namespace RunsUnder

variable {c : Config} {f : Formula} {atoms : List Atom} {body : ProcedureM β}
  {call : ProcedureM α}

/-- An error of the call which is not about the limits is one of the computation. -/
theorem exists_failed (h : RunsUnder c f atoms body call) (hf : f.validate atoms = .ok ())
    {p : Process} {halt : Halt} (hcall : (call.run.run p).1 = .error halt)
    (hhalt : ∀ e, halt ≠ .error (.limit e)) :
    ∃ g q q', (Governor.arm c.limits).run p = pure (.ok g, q) ∧
      body.run.run q = pure (.error halt, q') ∧ (call.run.run p).2 = (g.disarm.run q').2 := by
  obtain ⟨⟨armed, q⟩, harm⟩ : ∃ r, (Governor.arm c.limits).run p = pure r := ⟨_, rfl⟩
  cases armed with
  | error e =>
    rw [h.refused hf harm] at hcall
    cases hcall
    exact absurd rfl (hhalt e)
  | ok g =>
    obtain ⟨⟨result, q'⟩, hbody⟩ : ∃ r, body.run.run q = pure r := ⟨_, rfl⟩
    cases result with
    | ok b =>
      obtain ⟨a, ha⟩ := h.given hf harm hbody
      cases ha.symm.trans hcall
    | error halt' =>
      have hrun := h.failed hf harm hbody
      rw [hrun] at hcall
      cases hcall
      exact ⟨g, q, q', harm, hbody, by rw [hrun]; rfl⟩

/-- **A computation under a governor is guarded**, provided that it begins with a solver, ends with
no formula error, lets the process drift, and is calm. -/
theorem isGuarded {call : Engine E → ProcedureM α}
    (h : RunsUnder c f atoms body (call i))
    (hformula : f.validate atoms = .ok () → ∀ q e,
      (body.run.run q).1 ≠ .error (.error (.formula e)))
    (hunmade : f.validate atoms = .ok () → ∀ {q e q'},
      (Engine.create (E := E)).run q = pure (.error e, q') →
      body.run.run q = pure (.error (.error (.solver e)), q'))
    (hdrift : Drifts body.run fun _ => True) (hcalm : ProcedureCalm body)
    (hheeded : ∀ create, Engine.Mends E create →
      ProcedureMatches E (call i) (call (.remade E create))) :
    IsGuarded c f atoms call where
  formula_iff p e := by
    cases hf : f.validate atoms with
    | error e' =>
      rw [h.formula hf]
      exact ⟨by rintro ⟨⟩; rfl, by rintro ⟨⟩; rfl⟩
    | ok u =>
      refine iff_of_false (fun hcall => ?_) nofun
      obtain ⟨g, q, q', -, hbody, -⟩ := h.exists_failed hf hcall nofun
      exact hformula hf q e (by rw [hbody]; rfl)
  formula p e hf := h.formula hf p
  armed p hf hl ha := h.refused hf (Governor.run_arm_refused ha hl)
  unmade p g q e q' hf harm hcreate := by
    rw [h.failed hf harm (hunmade hf hcreate)]
    rfl
  heeded := hheeded
  undone p₀ g₀ noted p e h₀ hp hcall := by
    cases hf : f.validate atoms with
    | error e' =>
      rw [h.formula hf] at hcall
      cases hcall
    | ok u =>
      obtain ⟨g, q, q', harm, hbody, hend⟩ := h.exists_failed hf hcall nofun
      have hd := (hdrift q).1
      have hr := hcalm q
      rw [hbody] at hd hr
      rw [hend]
      exact hp.isGovernedAs_disarm h₀ harm hd (hr ⟨e, rfl⟩)

end RunsUnder

/-! ### Procedures and streams -/

variable (c : Config) (f : Formula) (atoms : List Atom)

/-- A procedure begins with a solver. -/
theorem run_procedureBody_error (hf : f.validate atoms = .ok ()) (v : ValueConvention)
    (kind : ProcedureKind) {q q' : Process} {e : SolverError}
    (h : (Engine.create (E := E)).run q = pure (.error e, q')) :
    (Session.procedureBody E v f atoms kind).run.run q =
      pure (.error (.error (.solver e)), q') := by
  have hfresh := run_freshSolver_error (E := E) f h
  cases kind with
  | enumerate =>
    rw [Session.procedureBody, ModelStream.run_start_bind hf, StateT.run_bind, hfresh]
    rfl
  | single | dual =>
    rw [Session.procedureBody, run_withSolver, StateT.run_bind, hfresh]
    rfl

theorem runsUnder_runProcedure (kind : ProcedureKind) :
    RunsUnder c f atoms (Session.procedureBody E c.convention f atoms kind)
      (Session.runProcedure (E := E) c f atoms kind) where
  formula hf p := by
    rw [Session.runProcedure_eq, hf]
    rfl
  refused hf harm := by
    rw [Session.runProcedure_eq, hf, orFormulaError_ok, pure_bind, run_governed_error harm]
  failed hf harm hbody := by
    rw [Session.runProcedure_eq, hf, orFormulaError_ok, pure_bind, run_governed_ok harm, hbody]
    rfl
  given hf harm hbody := by
    rw [Session.runProcedure_eq, hf, orFormulaError_ok, pure_bind, run_governed_ok harm, hbody]
    exact ⟨_, rfl⟩

theorem runsUnder_startUnder :
    RunsUnder c f atoms (ModelStream.start (E := E) f atoms c.convention)
      (ModelStream.startUnder (E := E) c f atoms) where
  formula hf p := by
    rw [ModelStream.startUnder, hf]
    rfl
  refused hf harm := ModelStream.run_startUnder_refused hf harm
  failed hf harm hbody := ModelStream.run_startUnder_error hf harm hbody
  given hf harm hbody := by
    rw [ModelStream.run_startUnder_ok hf harm hbody]
    exact ⟨_, rfl⟩

variable [Engine.IsTame E] [Engine.MakesQuietly E]

/-- **Procedures are guarded.** -/
theorem isGuarded_runProcedure (kind : ProcedureKind) :
    IsGuarded c f atoms fun i => @Session.runProcedure E i c f atoms kind := by
  refine (runsUnder_runProcedure c f atoms kind).isGuarded ?_
    (fun hf => run_procedureBody_error f atoms hf c.convention kind)
    (admitsSolvers_drift.moves_procedureBody c.convention f atoms kind)
    (procedureCalm_procedureBody c.convention kind)
    fun create h => procedureMatches_runProcedure h f atoms c kind
  intro hf q e hresult
  have hmeets := ((SolveBudget.free E).concludes_procedureBody hf c.convention kind q).2
  rw [hresult] at hmeets
  exact hmeets e rfl

/-- **Streams under limits are guarded.** -/
theorem isGuarded_startUnder :
    IsGuarded c f atoms fun i => @ModelStream.startUnder E i c f atoms := by
  refine (runsUnder_startUnder c f atoms).isGuarded ?_ ?_
    ((admitsSolvers_drift.moves_start f atoms c.convention).mono fun _ _ => trivial)
    (procedureCalm_start c.convention) fun create h => procedureMatches_startUnder h f atoms c
  · intro hf q e hresult
    obtain ⟨e', he⟩ := ModelStream.exists_eq_error hf (Prod.ext hresult rfl)
    cases he
  · intro hf q e q' hcreate
    rw [ModelStream.run_start hf, StateT.run_bind, run_freshSolver_error f hcreate]
    rfl

end Guarded

/-! ### All calls -/

/-- With solvers of the kind, all calls are guarded: procedures, and streams under limits. -/
structure Engine.GuardsCalls (E : Type) [Engine E] : Prop where
  procedure : ∀ c f atoms kind,
    IsGuarded c f atoms fun i => @Session.runProcedure E i c f atoms kind
  stream : ∀ c f atoms, IsGuarded c f atoms fun i => @ModelStream.startUnder E i c f atoms

theorem guardsCalls (E : Type) [Engine E] [Engine.IsTame E] [Engine.MakesQuietly E] :
    Engine.GuardsCalls E where
  procedure c f atoms := isGuarded_runProcedure c f atoms
  stream c f atoms := isGuarded_startUnder c f atoms

/-- **Calls which are refused leave everything as it was.** Procedures, and streams under limits,
are guarded, whatever the configuration, the formula and the atoms are, and whatever a script has
scripted solvers answer. -/
theorem calls_are_guarded :
    (∀ form, Engine.GuardsCalls (Scripted form)) ∧ ∀ k, Engine.GuardsCalls (Backtracking k) :=
  ⟨fun _ => guardsCalls _, fun _ => guardsCalls _⟩

/-- Under a limit on CPU time the enumerator finds a model, and then no minimiser can be made. The
result is the error by which it was refused, no solver but the enumerator is called, and the limits
on CPU time are as they were. -/
theorem calls_are_guarded_minimiser :
    let p : Process := {
      host := .steady { cpuTime := 0, resident := 1, addressSpace := 1 }
      script := [{ answer := .sat [1, 2] }, { answer := .refuse }] }
    let c : Config := .ofLimits { time := 5 } .dontCareAsTrue
    let run := (Session.runProcedure (E := Scripted .report) c [[1, 2]] [1, 2] .dual).run.run p
    run.1 = .error (.error (.solver .initialisation)) ∧
      run.2.journal.toList = [.init 1, .clause 1 [1, 2], .solve 1, .release 1] ∧
      run.2.limits.cpuTime = p.limits.cpuTime ∧ run.2.IsGovernedAs p := by
  intro p c run
  have hresult : run.1 = .error (.error (.solver .initialisation)) := by decide +kernel
  have hjournal : run.2.journal.toList = [.init 1, .clause 1 [1, 2], .solve 1, .release 1] := by
    decide +kernel
  have hguarded := (calls_are_guarded.1 .report).procedure c [[1, 2]] [1, 2] .dual
  have hstart : Process.History { host := p.host } none [] p :=
    History.start.elsewhere ⟨rfl, rfl, rfl⟩
  have hend : run.2.IsGovernedAs p :=
    hguarded.undone _ none [] p .initialisation (isUnarmed_new p.host) hstart hresult
  exact ⟨hresult, hjournal, congrArg (·.cpuTime) hend.limits, hend⟩

end GovernedSat
