import GovernedSat.Process.Activity
import GovernedSat.Solver.Basic

/-!
# Scripted solvers

A scripted solver knows nothing of its clauses. It takes its answers from the script of the process,
which all scripted solvers share, and so answers whatever a solver might, nonsense included. It
comes in two kinds: one which answers with reports, and one which answers with numeric codes, as a
foreign solver does, and announces itself in the log.

A solve goes as follows. The signal before the first step of the script is delivered, once even if
the solve is then interrupted. If the callback asks to stop, the solve is interrupted, and no step
is taken. Otherwise a step is taken, its model is kept, and its second signal is delivered. Without
a step to take, the solve is interrupted.

## Main definitions

* `AnswerForm`, `Scripted` — the two kinds, and the solver.
* `ScriptStep.report` — the report of a step.
-/

namespace GovernedSat

/-- The form in which a solver answers a solve. -/
inductive AnswerForm where
  /-- A report. -/
  | report
  /-- A numeric code, which is then read as a report. -/
  | code
  deriving DecidableEq, Repr

/-- A solver which follows the script of the process. -/
structure Scripted (form : AnswerForm) where
  /-- The literals of the last model, whatever they are. -/
  model : List Literal := []
  deriving DecidableEq, Repr

/-- The report of an answer. -/
def ScriptAnswer.report : ScriptAnswer → Report
  | sat _ => .satisfiable
  | unsat => .unsatisfiable
  | interrupted | refuse => .interrupted

/-- The report of a step. A code takes the place of the report where codes are answered. -/
def ScriptStep.report (s : ScriptStep) : AnswerForm → Report
  | .report => s.answer.report
  | .code => (s.code.map Report.ofCode).getD s.answer.report

namespace Scripted

variable {form : AnswerForm}

open Process

/-- The name of the scripted solver among foreign solvers. -/
def signature : String := "scripted"

/-- Makes a solver, unless the script refuses it. -/
def create : ProcessM (Except SolverError (Scripted form)) := do
  match (← get).script with
  | { answer := .refuse, .. } :: rest =>
    modify fun p => { p with script := rest }
    return .error .initialisation
  | _ => return .ok {}

/-- Delivers the signal before the first step of the script, if it has yet to be delivered. -/
def deliverBefore : ProcessM Unit := do
  match (← get).script with
  | step :: rest =>
    if let some signal := step.before then
      modify fun p => { p with script := { step with before := none } :: rest }
      discard (deliver signal)
  | [] => pure ()

/-- Takes a step of the script. -/
def takeStep (s : Scripted form) : ProcessM (Report × Scripted form) := do
  match (← get).script with
  | [] => return (.interrupted, s)
  | step :: rest =>
    modify fun p => { p with script := rest }
    if let some signal := step.after then
      discard (deliver signal)
    match step.answer with
    | .sat model => return (step.report form, { model })
    | _ => return (step.report form, s)

/-- Solves by the script. -/
def solve (s : Scripted form) (callback : Option Callback) :
    ProcessM (Report × Scripted form) := do
  deliverBefore
  match callback with
  | none => s.takeStep
  | some ask => if ← ask then return (.interrupted, s) else s.takeStep

/-- The first literal of the model with the given atom, or `0`. -/
def value (s : Scripted form) (a : Atom) : Literal :=
  (s.model.find? fun l => l.atom = a).getD 0

/-- Every satisfiable solve takes a step of the script. -/
instance : Engine (Scripted form) where
  signature? :=
    match form with
    | .report => none
    | .code => some signature
  create := create
  insert s _ := s
  assume s _ := s
  solve s callback := return (← s.solve callback).map some id
  value? s a := some (s.value a)
  allowance p _ := p.script.length + 1

end Scripted

end GovernedSat
