import GovernedSat.Proofs.Search.Contract
import GovernedSat.Search.ModelStream

/-!
# How streams of models run

A stream of models searches for a model, and then settles what was found: a model is counted, and
after anything else the stream gives back what it owns. A governor which it owns makes a difference
to the last of these only. Until then a stream with a governor does what it would do without, and
what it does in the end is to disarm the governor.

## Main definitions

* `ModelStream.solvers`, `ModelStream.IsPolite` — the solver of a stream.
* `ModelStream.startAs` — a stream with or without a governor.
* `ModelStream.settle` — what is done when the search for a model has ended.
* `ModelStream.Request`, `ModelStream.ask` — what a stream may be asked for, and its answer.
* `ModelStream.ungoverned` — a stream without its governor.
* `ModelStream.disarmIfExhausted` — what a governor is good for after a request.

## Main results

* `ModelStream.run_next_none`, `ModelStream.run_next_some`, `ModelStream.run_restWithin_succ`,
  `ModelStream.run_close`, `ModelStream.run_start`, `ModelStream.run_startUnder`,
  `ModelStream.run_drain` — the operations of a stream, step by step.
* `ModelStream.isLeftWith_ask` — a stream is exhausted by the first answer which is no model.
* `ModelStream.run_next_governed`, `ModelStream.run_ask_governed` — streams with a governor.
-/

namespace GovernedSat

namespace ModelStream

variable {E : Type} [Engine E] {m : ModelStream E}

/-- The number of the solver, until it is given back. -/
def solvers (m : ModelStream E) : List Nat := (m.solver.map Solver.id).toList

/-- The solver of a stream, until it is given back, asks the governor whether to stop. -/
def IsPolite (m : ModelStream E) : Prop := ∀ s ∈ m.solver, s.terminate = some stopRequested

/-! ### Step by step -/

/-- What is done when the search for a model has ended: a model is counted, and after anything else
but a literal out of range, or an exhausted allowance, the stream is closed. -/
def settle (stream : ModelStream E) (s : Solver E) (found : Except Halt (Option Clause)) :
    ExceptT Halt (StreamM E) (Option Clause) := do
  match found with
  | .ok (some model) =>
    set { stream with solver := some s, count := stream.count + 1 }
    Process.logEvent (.modelFound (stream.count + 1) model)
    return some model
  | .ok none =>
    Process.logEvent (.modelsExhausted stream.count)
    ExceptT.lift close
    return none
  | .error halt =>
    if let .error e := halt then
      Process.logEvent (.modelsStopped stream.count e)
      ExceptT.lift close
    throw halt

theorem run_next_none (hm : m.solver = none) : (next (E := E)).run.run m = pure (.ok none, m) := by
  obtain ⟨solver, projection, convention, count, governor⟩ := m
  subst hm
  rfl

theorem run_next_some {s : Solver E} (hm : m.solver = some s) : (next (E := E)).run.run m = (do
    let r ← (findModel m.projection m.convention).run.run s
    (settle m r.2 r.1).run.run { m with solver := some r.2 }) := by
  obtain ⟨solver, projection, convention, count, governor⟩ := m
  subst hm
  rfl

/-- Models are found until there is something else. -/
theorem run_restWithin_succ (allowance : Nat) (m : ModelStream E) :
    (restWithin (allowance + 1)).run.run m = (do
      let r ← (next (E := E)).run.run m
      match r.1 with
      | .ok (some model) =>
        let r' ← (restWithin allowance).run.run r.2
        return (r'.1.map (model :: ·), r'.2)
      | .ok none => return (.ok [], r.2)
      | .error halt => return (.error halt, r.2)) := by
  rw [restWithin, ExceptT.run_bind, StateT.run_bind]
  refine bind_congr fun r => ?_
  obtain ⟨halt | _ | model, m'⟩ := r
  · rfl
  · rfl
  · dsimp only
    rw [ExceptT.run_bind, StateT.run_bind]
    refine bind_congr fun r => ?_
    obtain ⟨halt | models, m''⟩ := r <;> rfl

/-- The solver is released, and then the governor is disarmed. -/
theorem run_close (m : ModelStream E) : close.run m = (do
    m.solver.elim (pure ()) Solver.release
    m.governor.elim (pure ()) Governor.disarm
    return ((), ({ m with solver := none, governor := none } : ModelStream E))) := by
  obtain ⟨solver, projection, convention, count, governor⟩ := m
  cases solver <;> cases governor <;> rfl

variable {f : Formula} {projection : List Atom} {convention : ValueConvention}

/-- A stream is started with a fresh solver, before the rest of a procedure. -/
theorem run_start_bind (hf : f.validate projection = .ok ()) {β : Type}
    (body : ModelStream E → ProcedureM β) :
    (start f projection convention >>= body).run = (do
      match ← (freshSolver f).run with
      | .error halt => return .error halt
      | .ok s => (body { solver := some s, projection, convention }).run) := by
  rw [start, hf, orFormulaError_ok, pure_bind, bind_assoc]
  simp only [pure_bind]
  change (freshSolver f).run >>= ExceptT.bindCont _ = _
  refine congrArg (_ >>= ·) (funext fun r => ?_)
  cases r <;> rfl

/-- A stream is started with a fresh solver. -/
theorem run_start (hf : f.validate projection = .ok ()) :
    (start (E := E) f projection convention).run = (do
      match ← (freshSolver f).run with
      | .error halt => return .error halt
      | .ok s => return .ok { solver := some s, projection, convention }) := by
  rw [← bind_pure (start f projection convention)]
  exact run_start_bind hf pure

/-- A stream is started under a governor, which is disarmed when no solver can be made. -/
theorem run_startUnder {c : Config} (hf : f.validate projection = .ok ()) :
    (startUnder (E := E) c f projection).run = (do
      match ← Governor.arm c.limits with
      | .error e => return .error (.error (.limit e))
      | .ok g =>
        match ← (start f projection c.convention).run with
        | .ok m => return .ok { m with governor := some g }
        | .error halt =>
          g.disarm
          return .error halt) := by
  rw [startUnder, hf, orFormulaError_ok, pure_bind]
  refine (ExceptT.run_bind_lift (Governor.arm c.limits) _).trans (bind_congr fun r => ?_)
  cases r with
  | error e => rfl
  | ok g =>
    rw [orLimitError_ok, pure_bind]
    refine (ExceptT.run_bind_lift (start (E := E) f projection c.convention).run _).trans
      (bind_congr fun r => ?_)
    cases r <;> rfl

section StartUnder

variable {c : Config} {p q q' : Process} {g : Governor} (hf : f.validate projection = .ok ())
include hf

/-- No governor can be armed. -/
theorem run_startUnder_refused {e : LimitError}
    (harm : (Governor.arm c.limits).run p = pure (.error e, q)) :
    (startUnder (E := E) c f projection).run.run p = pure (.error (.error (.limit e)), q) := by
  rw [run_startUnder hf, StateT.run_bind, harm]
  rfl

/-- No solver can be made under the governor. -/
theorem run_startUnder_error {halt : Halt}
    (harm : (Governor.arm c.limits).run p = pure (.ok g, q))
    (hstart : (start (E := E) f projection c.convention).run.run q = pure (.error halt, q')) :
    (startUnder (E := E) c f projection).run.run p =
      pure (.error halt, (g.disarm.run q').2) := by
  rw [run_startUnder hf, StateT.run_bind, harm, pure_bind]
  dsimp only
  rw [StateT.run_bind, hstart]
  rfl

/-- The stream owns the governor. -/
theorem run_startUnder_ok (harm : (Governor.arm c.limits).run p = pure (.ok g, q))
    (hstart : (start (E := E) f projection c.convention).run.run q = pure (.ok m, q')) :
    (startUnder c f projection).run.run p = pure (.ok { m with governor := some g }, q') := by
  rw [run_startUnder hf, StateT.run_bind, harm, pure_bind]
  dsimp only
  rw [StateT.run_bind, hstart]
  rfl

end StartUnder

variable (E) in
/-- Starts a stream under a governor, unless it is to be bare. -/
def startAs (bare : Bool) (c : Config) (f : Formula) (projection : List Atom) :
    ProcedureM (ModelStream E) :=
  if bare then start f projection c.convention else startUnder c f projection

/-- Finds the models which are left, provided that they are fewer than allowed, and closes the
stream, whatever was found. -/
def drainWithin (allowance : Nat) (m : ModelStream E) : ProcessM (Except Halt (List Clause)) := do
  let r ← (restWithin allowance).run.run m
  let _ ← close.run r.2
  return r.1

theorem run_drain (m : ModelStream E) : m.drain.run = (do
    let allowance ← currentAllowance E m.projection.length
    drainWithin allowance m) := rfl

/-! ### Requests -/

/-- What a stream may be asked for. -/
inductive Request where
  /-- The next model. -/
  | next
  /-- That it is closed. -/
  | close
  deriving DecidableEq, Repr

/-- The answer to a request, with the stream which is left. A stream which is closed gives no
model. -/
def ask (m : ModelStream E) : Request → ProcessM (Except Halt (Option Clause) × ModelStream E)
  | .next => next.run.run m
  | .close => do
    let r ← close.run m
    return (.ok none, r.2)

/-- Whether nothing is found after such an answer: no model was left, or an error was met. -/
def isFinal : Except Halt (Option Clause) → Bool
  | .ok none | .error (.error _) => true
  | .ok (some _) | .error .overflow | .error .outOfAllowance => false

/-- What a stream is left with by an answer. -/
structure IsLeftWith (m : ModelStream E) (a : Except Halt (Option Clause)) (m' : ModelStream E) :
    Prop where
  /-- It is exhausted after a final answer. -/
  isExhausted : m'.isExhausted = isFinal a
  /-- The governor stays until then. -/
  governor : m'.governor = if isFinal a then none else m.governor
  /-- What is asked for stays. -/
  projection : m'.projection = m.projection
  convention : m'.convention = m.convention

theorem isLeftWith_close (m : ModelStream E) (p : Process) :
    m.IsLeftWith (.ok none) ((close.run m).run p).1.2 := by
  obtain ⟨solver, projection, convention, count, governor⟩ := m
  cases solver <;> cases governor <;> exact ⟨rfl, rfl, rfl, rfl⟩

/-- What was found is the answer. -/
theorem run_settle_fst (m : ModelStream E) (s : Solver E) (found : Except Halt (Option Clause))
    (p : Process) :
    let r := (((settle m s found).run.run { m with solver := some s }).run p).1
    r.1 = found ∧ m.IsLeftWith found r.2 := by
  obtain halt | _ | model := found
  · cases halt with
    | error e =>
      have h := isLeftWith_close { m with solver := some s }
        { p with log := p.log.push (.modelsStopped m.count e) }
      exact ⟨rfl, h.isExhausted, h.governor, h.projection, h.convention⟩
    | overflow => exact ⟨rfl, rfl, rfl, rfl, rfl⟩
    | outOfAllowance => exact ⟨rfl, rfl, rfl, rfl, rfl⟩
  · have h := isLeftWith_close { m with solver := some s }
      { p with log := p.log.push (.modelsExhausted m.count) }
    exact ⟨rfl, h.isExhausted, h.governor, h.projection, h.convention⟩
  · exact ⟨rfl, rfl, rfl, rfl, rfl⟩

/-- **A stream is exhausted by the first final answer**, and gives its governor back with it. -/
theorem isLeftWith_ask (m : ModelStream E) (hm : m.isExhausted = true → m.governor = none)
    (r : Request) (p : Process) :
    m.IsLeftWith ((m.ask r).run p).1.1 ((m.ask r).run p).1.2 := by
  cases r with
  | close => exact isLeftWith_close m p
  | next =>
    cases h : m.solver with
    | none =>
      have hx : m.isExhausted = true := by rw [isExhausted, h]; rfl
      rw [ask, run_next_none h]
      exact ⟨hx, hm hx, rfl, rfl⟩
    | some s =>
      let r := ((findModel m.projection m.convention).run.run s).run p
      have hrun : (m.ask .next).run p =
          ((settle m r.1.2 r.1.1).run.run { m with solver := some r.1.2 }).run r.2 := by
        rw [ask, run_next_some h]
        rfl
      obtain ⟨hfound, hleft⟩ := run_settle_fst m r.1.2 r.1.1 r.2
      rw [hrun, hfound]
      exact hleft

/-- An exhausted stream has nothing to give back. -/
theorem run_close_of_isExhausted (hx : m.isExhausted = true) (hg : m.governor = none) :
    close.run m = pure ((), m) := by
  obtain ⟨solver, projection, convention, count, governor⟩ := m
  obtain rfl : solver = none := Option.isNone_iff_eq_none.mp hx
  obtain rfl : governor = none := hg
  rfl

/-- An exhausted stream finds nothing, and leaves the process as it is. -/
theorem ask_of_isExhausted (hx : m.isExhausted = true) (hg : m.governor = none) (r : Request) :
    m.ask r = pure (.ok none, m) := by
  cases r with
  | next => exact run_next_none (Option.isNone_iff_eq_none.mp hx)
  | close => rw [ask, run_close_of_isExhausted hx hg, pure_bind]

theorem isLeftWith_next (hm : m.isExhausted = true → m.governor = none) {p q : Process}
    {a : Except Halt (Option Clause)} {m' : ModelStream E}
    (h : ((next (E := E)).run.run m).run p = pure ((a, m'), q)) : m.IsLeftWith a m' := by
  have hleft := isLeftWith_ask m hm .next p
  rwa [ask, h] at hleft

/-- What is found is settled. -/
theorem run_next_of_findModel {s t : Solver E} {p q : Process} {a : Except Halt (Option Clause)}
    (hm : m.solver = some s)
    (h : ((findModel m.projection m.convention).run.run s).run p = pure ((a, t), q)) :
    ((next (E := E)).run.run m).run p =
      ((settle m t a).run.run { m with solver := some t }).run q := by
  rw [run_next_some hm, StateT.run_bind, h]
  rfl

/-- What is found is the answer. -/
theorem exists_run_next {s t : Solver E} {p q : Process} {a : Except Halt (Option Clause)}
    (hm : m.solver = some s)
    (h : ((findModel m.projection m.convention).run.run s).run p = pure ((a, t), q)) :
    ∃ m' q', ((next (E := E)).run.run m).run p = pure ((a, m'), q') := by
  rw [run_next_of_findModel hm h]
  have hfound := (run_settle_fst m t a q).1
  exact ⟨_, _, Prod.ext (Prod.ext hfound rfl) rfl⟩

/-! ### Streams with a governor -/

/-- The stream without its governor. -/
def ungoverned (m : ModelStream E) : ModelStream E := { m with governor := none }

/-- After a request to the stream without a governor, the governor is disarmed if the stream is
exhausted, and stays with the stream otherwise. -/
def disarmIfExhausted {α : Type} (g : Governor) (r : α × ModelStream E) :
    ProcessM (α × ModelStream E) :=
  if r.2.isExhausted then do
    g.disarm
    return r
  else return (r.1, { r.2 with governor := some g })

variable {g : Governor}

omit [Engine E] in
theorem disarmIfExhausted_eq_of_isExhausted {α : Type} {r : α × ModelStream E}
    (hr : r.2.isExhausted = true) : disarmIfExhausted g r = do g.disarm; return r := if_pos hr

omit [Engine E] in
theorem disarmIfExhausted_eq_of_not {α : Type} {r : α × ModelStream E}
    (hr : r.2.isExhausted = false) :
    disarmIfExhausted g r = return (r.1, { r.2 with governor := some g }) :=
  if_neg (by rw [hr]; nofun)

theorem run_close_governed (hm : m.governor = some g) :
    close.run m = close.run m.ungoverned >>= disarmIfExhausted g := by
  obtain ⟨solver, projection, convention, count, governor⟩ := m
  subst hm
  cases solver <;> rfl

theorem run_settle_governed (hm : m.governor = some g) (s : Solver E)
    (found : Except Halt (Option Clause)) :
    (settle m s found).run.run { m with solver := some s } =
      (settle m.ungoverned s found).run.run { m.ungoverned with solver := some s } >>=
        disarmIfExhausted g := by
  obtain ⟨solver, projection, convention, count, governor⟩ := m
  subst hm
  obtain halt | _ | model := found
  · cases halt <;> rfl
  · rfl
  · rfl

/-- **A stream with a governor does what it does without, and disarms the governor when it is
exhausted.** -/
theorem run_next_governed (hm : m.governor = some g) (hs : m.isExhausted = false) :
    (next (E := E)).run.run m = (next (E := E)).run.run m.ungoverned >>= disarmIfExhausted g := by
  obtain ⟨s, hs⟩ : ∃ s, m.solver = some s := by
    cases h : m.solver with
    | none => simp [isExhausted, h] at hs
    | some s => exact ⟨s, rfl⟩
  rw [run_next_some hs, run_next_some (m := m.ungoverned) hs, bind_assoc]
  refine bind_congr fun r => ?_
  rw [run_settle_governed hm]

/-- The same of every request. -/
theorem run_ask_governed (hm : m.governor = some g) (hs : m.isExhausted = false) (r : Request) :
    m.ask r = m.ungoverned.ask r >>= disarmIfExhausted g := by
  cases r with
  | next => exact run_next_governed hm hs
  | close =>
    rw [ask, ask, run_close_governed hm, bind_assoc, bind_assoc]
    refine bind_congr fun r => ?_
    rw [pure_bind, disarmIfExhausted, disarmIfExhausted]
    cases r.2.isExhausted <;> rfl

end ModelStream

end GovernedSat
