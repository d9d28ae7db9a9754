import GovernedSat.Proofs.Governor.Preparing
import GovernedSat.Proofs.Search.StreamPace

/-!
# Governed runs beside runs without limits

A procedure with scripted solvers does the same under limits as without, unless a breach is noted.
Then it is cut at the first solve whose checkpoint finds a breach: its result is the error of the
first breach noted, and all it still does is to release the solvers which are alive.

## Main definitions

* `Session.breachNoted` — the first breach noted in the run of a procedure.
* `Session.IsCutOff` — a run which was cut, beside the run without limits.

## Main results

* `Session.runProcedure_isCutOff` — how the runs of a procedure compare.
-/

namespace GovernedSat

open Process

/-! ### Computations under a governor -/

section Governed

variable {α : Type} {l : Limits} {body : ProcedureM α} {p : Process}

/-- Without limits there is nothing but a reading before the body, and nothing after it. -/
theorem run_governed_unbounded (hl : l.isUnbounded = true) :
    (governed l body).run.run p = body.run.run p.afterReading := by
  obtain ⟨baseline, h⟩ := run_arm p hl
  rw [run_governed_ok h]
  rfl

end Governed

/-! ### The procedures -/

/-- The configuration with the same convention and no limits. -/
def Config.unbounded (c : Config) : Config := .ofLimits {} c.convention

namespace Session

variable {form : AnswerForm} {f : Formula} {atoms : List Atom}

theorem procedurePaced_procedureBody (v : ValueConvention) (kind : ProcedureKind)
    (hf : f.validate atoms = .ok ()) :
    ProcedurePaced (procedureBody (Scripted form) v f atoms kind) := by
  cases kind with
  | enumerate => exact ModelStream.procedurePaced_startDrain v hf
  | single =>
    exact procedurePaced_withSolver f (paceLaw.allWithin paceLaw.implicantsWithin _)
  | dual =>
    exact procedurePaced_withSolver f
      (paceLaw.allWithin (paceLaw.dualImplicantsWithin (searchPaced_minimise f atoms v)) _)

/-- The first breach noted in the run of a procedure, if any, or the error by which arming failed.
It stands until the governor is disarmed. -/
def breachNoted (E : Type) [Engine E] (c : Config) (f : Formula) (atoms : List Atom)
    (kind : ProcedureKind) (p : Process) : Except LimitError (Option Breach) :=
  match (Governor.arm c.limits).run p with
  | (.error e, _) => .error e
  | (.ok _, q) =>
    .ok ((procedureBody E c.convention f atoms kind).run.run q).2.governance.breach

/-- Where every call to the system succeeds and no governor is armed, arming does not fail. -/
theorem exists_breachNoted (E : Type) [Engine E] (c : Config) (f : Formula) (atoms : List Atom)
    (kind : ProcedureKind) {p : Process} (h : p.IsPristine) :
    ∃ noted, breachNoted E c f atoms kind p = .ok noted := by
  have harm : ∃ g q, (Governor.arm c.limits).run p = pure (.ok g, q) := by
    cases hl : c.limits.isUnbounded with
    | true =>
      obtain ⟨baseline, harm⟩ := run_arm p hl
      exact ⟨_, _, harm⟩
    | false =>
      obtain ⟨g, q, harm, -⟩ := h.standing.arm h hl
      exact ⟨g, q, harm⟩
  obtain ⟨g, q, harm⟩ := harm
  rw [breachNoted, harm]
  exact ⟨_, rfl⟩

/-! ### The cut -/

/-- The run which ended with `r` is the one which ended with `r₀`, cut by the breach `b`: its result
is the error of the breach, and its calls since `p` are those of the other run up to the first solve
whose checkpoint found a breach, which was this one, followed by the releases of the solvers which
were alive then. -/
structure IsCutOff (p : Process) (b : Breach) (r r₀ : Except Halt (List Clause) × Process) :
    Prop where
  /-- The result is the error of the breach. -/
  result : r.1 = .error (.error (.limit b.toError))
  /-- The calls before the solve of the solver `i`, and the events of the run under limits. -/
  journal : ∃ before i events,
    p.journal.toList ++ (before ++ [Call.solve i]) <+: r₀.2.journal.toList ∧
    r.2.journal.toList = p.journal.toList ++
      (before ++ [Call.solve i] ++ (aliveSolvers before).map Call.release) ∧
    r.2.log.toList = p.log.toList ++ events ∧
    checkpointOutcomes events = List.replicate (before.countP Call.isSolve) none ++ [some b]

/-- The cut is that of the body, before and after which there is neither a call nor a
checkpoint. -/
theorem IsCutOff.of_isCut {p q q' r₀ : Process} {b : Breach} {a a₀ : Except Halt (List Clause)}
    {x : Process} (hprep : p.Prepares q) (hdisarm : x.Prepares q')
    (ha : a = .error (.error (.limit b.toError))) (hcut : IsCut q b [] x r₀) :
    IsCutOff p b (a, q') (a₀, r₀) := by
  obtain ⟨before, i, released, events, hj, hbefore, halive, hlog, hout⟩ := hcut.since
  obtain ⟨armed, hlogArmed, harmed⟩ := hprep.log
  obtain ⟨disarmed, hlogDisarmed, hdisarmed⟩ := hdisarm.log
  have hstart : q.journal.toList = p.journal.toList := by rw [hprep.journal]
  refine ⟨ha, before, i, armed ++ events ++ disarmed, hstart ▸ hbefore, ?_, ?_, ?_⟩
  · rw [hdisarm.journal, hj, hstart, halive]
    simp
  · rw [hlogDisarmed, hlog, hlogArmed]
    simp
  · rw [checkpointOutcomes_append, checkpointOutcomes_append, harmed, hdisarmed, hout]
    simp

/-- **A governed run is the run without limits, cut at the first breach.** If no breach is noted,
a procedure with scripted solvers has the same result as without limits, with the same calls to
solvers. Otherwise it is cut at the first solve whose checkpoint finds a breach, whatever the solver
has reported for it. If the limits cannot be installed, which does not happen where every call to
the system succeeds and no governor is armed, nothing is called. -/
theorem runProcedure_isCutOff (form : AnswerForm) (c : Config) (f : Formula) (atoms : List Atom)
    (kind : ProcedureKind) {p : Process} (hp : p.IsUnwatched) (hf : f.validate atoms = .ok ()) :
    let run (c : Config) := (runProcedure (E := Scripted form) c f atoms kind).run.run p
    let noted := breachNoted (Scripted form) c f atoms kind p
    (p.IsPristine → ∃ found, noted = .ok found) ∧
    (∀ e, noted = .error e →
      (run c).1 = .error (.error (.limit e)) ∧ (run c).2.journal = p.journal) ∧
    (noted = .ok none →
      (run c).1 = (run c.unbounded).1 ∧ (run c).2.journal = (run c.unbounded).2.journal) ∧
    ∀ b, noted = .ok (some b) → IsCutOff p b (run c) (run c.unbounded) := by
  intro run noted
  let body := procedureBody (Scripted form) c.convention f atoms kind
  have hrun : ∀ c, run c = (governed c.limits
      (procedureBody (Scripted form) c.convention f atoms kind)).run.run p := by
    intro c
    change (runProcedure c f atoms kind).run.run p = _
    rw [runProcedure_eq, hf, orFormulaError_ok, pure_bind]
  have hfree : run c.unbounded = body.run.run p.afterReading := by
    rw [hrun, run_governed_unbounded rfl]
    rfl
  have hprep := (Governor.prepares_arm c.limits p).1
  refine ⟨exists_breachNoted (Scripted form) c f atoms kind, ?_⟩
  rw [hfree, hrun]
  cases harm : (Governor.arm c.limits).run p with
  | mk armed q =>
    rw [harm] at hprep
    cases armed with
    | error e =>
      have hnoted : noted = .error e := by
        change breachNoted _ _ _ _ _ _ = _
        rw [breachNoted, harm]
      rw [run_governed_error harm, hnoted]
      refine ⟨?_, nofun, nofun⟩
      rintro _ ⟨⟩
      exact ⟨rfl, hprep.journal⟩
    | ok g =>
      have hnoted : noted = .ok (body.run.run q).2.governance.breach := by
        change breachNoted _ _ _ _ _ _ = _
        rw [breachNoted, harm]
      have hpace : InPace q [] q p.afterReading :=
        .init ⟨hprep.agrees.script, hprep.agrees.made⟩ hprep.journal
          (hprep.breach hp.idle.breach) ⟨hp.idle, hp.memoryHook, hp.action⟩
      have hdisarm := (Governor.prepares_disarm g (body.run.run q).2).1
      rw [run_governed_ok harm, hnoted]
      obtain ⟨he, _, -, hend⟩ | ⟨b, _, ⟨he, rfl⟩, hcut⟩ :=
        (procedurePaced_procedureBody c.convention kind hf []).paced q q _ hpace
      · rw [show (body.run.run q).2.governance.breach = none from hend.breach]
        exact ⟨nofun, fun _ => ⟨he, hdisarm.journal.trans hend.journal⟩, nofun⟩
      · rw [show (body.run.run q).2.governance.breach = some b from hcut.breach]
        refine ⟨nofun, nofun, ?_⟩
        rintro _ ⟨⟩
        exact .of_isCut hprep hdisarm he hcut

/-- A signal about CPU time is delivered in the course of the second solve of the variant with two
solvers, in which the minimiser finds a model. The run is cut there, and both solvers are
released. -/
theorem runProcedure_isCutOff_signalled :
    let p : Process := {
      host := .steady { cpuTime := 0, resident := 1, addressSpace := 1 }
      script := [{ answer := .sat [1, 2] },
        { answer := .sat [1], after := some .cpuTimeExceeded }, { answer := .unsat }] }
    let c : Config := .ofLimits { time := 5 } .dontCareAsTrue
    let run (c : Config) :=
      (runProcedure (E := Scripted .report) c [[1, 2]] [1, 2] .dual).run.run p
    p.IsUnwatched ∧ Formula.validate [[1, 2]] [1, 2] = .ok () ∧
      breachNoted (Scripted .report) c [[1, 2]] [1, 2] .dual p = .ok (some .time) ∧
      IsCutOff p .time (run c) (run c.unbounded) := by
  intro p c run
  have hp : p.IsUnwatched := ⟨⟨rfl, rfl, rfl⟩, rfl, fun s => by cases s <;> rfl⟩
  have hf : Formula.validate [[1, 2]] [1, 2] = .ok () := rfl
  have hb : breachNoted (Scripted .report) c [[1, 2]] [1, 2] .dual p = .ok (some .time) := by
    decide +kernel
  exact ⟨hp, hf, hb,
    (runProcedure_isCutOff .report c [[1, 2]] [1, 2] .dual hp hf).2.2.2 .time hb⟩

end Session

end GovernedSat
