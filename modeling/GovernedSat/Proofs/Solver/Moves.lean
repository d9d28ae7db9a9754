import GovernedSat.Proofs.Backtracking.Solve
import GovernedSat.Proofs.Process.Pace
import GovernedSat.Proofs.Solver.Calls
import GovernedSat.Solver.Scripted

/-!
# How solvers change a process

A solver changes a process by its calls, which the journal shows, by asking its callback, and, when
it follows a script, by taking steps of the script and having their signals delivered. Whatever
relation between processes allows these changes, and is a preorder, holds between the process before
and after an operation of the solver.

A kind of solver of which this is true, whatever the relation, is *passive*, as both kinds of this
library are.

## Main definitions

* `AdmitsScripts` — relations which allow what scripts do.
* `Callback.Obeys`, `Engine.Obeys` — callbacks, and kinds of solvers, which change processes only as
  a relation says.
* `Engine.IsPassive` — kinds of solvers which do nothing by themselves but follow a script.

## Main results

* `Solver.moves_make`, `Solver.moves_release` — making and releasing a solver.
-/

namespace GovernedSat

open Process

/-! ### Passive kinds of solvers -/

/-- The relation allows what scripts do. -/
structure AdmitsScripts (R : Process → Process → Prop) : Prop where
  /-- A signal is delivered. -/
  deliver : ∀ s, Moves R (deliver s) fun _ => True
  /-- The script changes. -/
  script : ∀ (p : Process) (script : List ScriptStep), R p { p with script }

/-- The callback, if there is one, changes every process as the relation says. -/
def Callback.Obeys (R : Process → Process → Prop) (callback : Option Callback) : Prop :=
  ∀ ask, callback = some ask → Moves R ask fun _ => True

theorem Callback.obeys_none {R : Process → Process → Prop} : Callback.Obeys R none := nofun

theorem Callback.obeys_some {R : Process → Process → Prop} {ask : Callback}
    (h : Moves R ask fun _ => True) : Callback.Obeys R (some ask) := by
  rintro _ ⟨⟩
  exact h

/-- Solvers of the kind change every process as the relation says, as long as their callbacks
do. -/
structure Engine.Obeys (R : Process → Process → Prop) (E : Type) [Engine E] : Prop where
  /-- A solver is made. -/
  create : Moves R (Engine.create (E := E)) fun _ => True
  /-- A solver solves. -/
  solve : ∀ (e : E) {callback : Option Callback}, Callback.Obeys R callback →
    Moves R (Engine.solve e callback) fun _ => True

/-- A kind of solver which, besides asking its callback, does nothing but follow a script. -/
class Engine.IsPassive (E : Type) [Engine E] : Prop where
  /-- Every preorder which allows scripts is obeyed. -/
  obeys : ∀ (R : Process → Process → Prop) [Std.Refl R] [Trans R R R],
    AdmitsScripts R → Engine.Obeys R E

/-- The process changes in a backtracking solve only when the callback is asked. -/
instance {k : Coverage} : Engine.IsPassive (Backtracking k) where
  obeys R _ _ _ :=
    { create := moves_pure trivial
      solve := fun _ _ h p =>
        ⟨Backtracking.solve_keeps (I := R p) (fun ask ha _ hq => Trans.trans hq (h ask ha _).1)
          (Std.Refl.refl p), trivial⟩ }

namespace Scripted

variable {form : AnswerForm} {R : Process → Process → Prop} [Std.Refl R] [Trans R R R]

omit [Std.Refl R] [Trans R R R] in
theorem moves_setScript (hR : AdmitsScripts R) (script : List ScriptStep) :
    Moves R (modify fun p : Process => { p with script }) fun _ => True :=
  moves_modify fun p => hR.script p script

theorem moves_create (hR : AdmitsScripts R) : Moves R (@create form) fun _ => True := by
  refine moves_get.bind fun p _ => ?_
  split
  · exact (moves_setScript hR _).bind fun _ _ => moves_pure trivial
  · exact moves_pure trivial

omit [Std.Refl R] [Trans R R R] in
/-- A solver is refused by the first step of the script, which is taken, or else it is made. -/
theorem create_cases (p : Process) :
    (∃ step rest, p.script = step :: rest ∧ step.answer = .refuse ∧ (@create form).run p =
        pure (.error .initialisation, { p with script := rest })) ∨
      (@create form).run p = pure (.ok {}, p) := by
  cases hp : p.script with
  | nil => exact .inr (by simp [create, hp])
  | cons step rest =>
    obtain ⟨answer, before, after, code⟩ := step
    cases answer with
    | refuse => exact .inl ⟨_, _, rfl, rfl, by simp [create, hp]⟩
    | sat | unsat | interrupted => exact .inr (by simp [create, hp])

theorem moves_deliverBefore (hR : AdmitsScripts R) : Moves R deliverBefore fun _ => True := by
  refine moves_get.bind fun p _ => ?_
  split
  · split
    · exact (moves_setScript hR _).bind fun _ _ => moves_discard (hR.deliver _)
    · exact moves_pure trivial
  · exact moves_pure trivial

/-- What is left to be done when a step was taken. -/
def finishStep (s : Scripted form) (step : ScriptStep) : ProcessM (Report × Scripted form) := do
  if let some signal := step.after then
    discard (deliver signal)
  match step.answer with
  | .sat model => return (step.report form, { model })
  | _ => return (step.report form, s)

theorem takeStep_eq (s : Scripted form) : s.takeStep = (do
    match (← get).script with
    | [] => return (.interrupted, s)
    | step :: rest =>
      modify fun p => { p with script := rest }
      s.finishStep step) := rfl

theorem moves_finishStep (hR : ∀ s, Moves R (deliver s) fun _ => True) (s : Scripted form)
    (step : ScriptStep) : Moves R (s.finishStep step) fun _ => True := by
  unfold finishStep
  -- The answer, and then whether there is a signal to be delivered before it is given.
  split <;> split
  · exact (moves_discard (hR _)).bind fun _ _ => moves_pure trivial
  · exact moves_pure trivial
  · exact (moves_discard (hR _)).bind fun _ _ => moves_pure trivial
  · exact moves_pure trivial

theorem moves_takeStep (hR : AdmitsScripts R) (s : Scripted form) :
    Moves R s.takeStep fun _ => True := by
  rw [takeStep_eq]
  refine moves_get.bind fun p _ => ?_
  split
  · exact moves_pure trivial
  · exact (moves_setScript hR _).bind fun _ _ => moves_finishStep hR.deliver s _

theorem moves_solve (hR : AdmitsScripts R) (s : Scripted form) {callback : Option Callback}
    (h : Callback.Obeys R callback) : Moves R (s.solve callback) fun _ => True := by
  refine (moves_deliverBefore hR).bind fun _ _ => ?_
  split
  · exact moves_takeStep hR s
  · next ask =>
    refine (h ask rfl).bind fun stop _ => ?_
    split
    · exact moves_pure trivial
    · exact moves_takeStep hR s

/-- The signals of the script are the only ones. -/
instance : Engine.IsPassive (Scripted form) where
  obeys _ _ _ hR :=
    { create := moves_create hR
      solve := fun s _ h => (moves_solve hR s h).bind fun _ _ => moves_pure trivial }

end Scripted

/-! ### Making and releasing -/

namespace Solver

variable {E : Type} [Engine E]

/-- The process after an event which a kind of solver logs if it announces itself. -/
def announced (E : Type) [Engine E] (p : Process) (e : String → LogEvent) : Process :=
  match Engine.signature? E with
  | some signature => { p with log := p.log.push (e signature) }
  | none => p

/-- No solver is made. -/
theorem run_make_error {p q : Process} {e : SolverError}
    (h : (Engine.create (E := E)).run p = pure (.error e, q)) :
    (make (E := E)).run p = pure (.error e, q) := by
  rw [make, StateT.run_bind, h]
  rfl

/-- A solver is made, without a callback. -/
theorem run_make_ok {p q : Process} {engine : E}
    (h : (Engine.create (E := E)).run p = pure (.ok engine, q)) :
    (make (E := E)).run p =
      pure (.ok { id := q.made + 1, engine }, announced E q.afterMake .initialised) := by
  rw [make, StateT.run_bind, h, pure_bind, announced]
  dsimp only
  generalize Engine.signature? E = signature
  cases signature <;> rfl

theorem run_release (s : Solver E) (p : Process) :
    s.release.run p = pure ((), announced E (p.afterRelease s.id) fun _ => .released) := by
  rw [announced, release]
  generalize Engine.signature? E = signature
  cases signature <;> rfl

variable {R : Process → Process → Prop} [Std.Refl R] [Trans R R R]

omit [Trans R R R] in
theorem rel_announced {e : String → LogEvent}
    (he : ∀ n (p : Process), R p { p with log := p.log.push (e n) }) (p : Process) :
    R p (announced E p e) := by
  unfold announced
  split
  · exact he _ p
  · exact Std.Refl.refl p

/-- A solver has no callback at first. -/
theorem moves_make (hE : Moves R (Engine.create (E := E)) fun _ => True)
    (hmake : ∀ p : Process, R p p.afterMake)
    (he : ∀ n (p : Process), R p { p with log := p.log.push (.initialised n) }) :
    Moves R (make (E := E)) fun r => ∀ s, r = .ok s → s.terminate = none := by
  intro p
  have hcreate := (hE p).1
  obtain ⟨⟨r, q⟩, hrun⟩ : ∃ r, (Engine.create (E := E)).run p = r := ⟨_, rfl⟩
  rw [hrun] at hcreate
  cases r with
  | error e =>
    rw [run_make_error hrun]
    exact ⟨hcreate, nofun⟩
  | ok engine =>
    rw [run_make_ok hrun]
    refine ⟨Trans.trans (Trans.trans hcreate (hmake q)) (rel_announced he _), ?_⟩
    rintro _ ⟨⟩
    rfl

theorem moves_release (hrelease : ∀ (p : Process) (i : Nat), R p (p.afterRelease i))
    (he : ∀ p : Process, R p { p with log := p.log.push .released }) (s : Solver E) :
    Moves R s.release fun _ => True := by
  intro p
  rw [run_release]
  exact ⟨Trans.trans (hrelease p s.id) (rel_announced (fun _ => he) _), trivial⟩

end Solver

end GovernedSat
