import GovernedSat.Config.Basic
import GovernedSat.Search.Basic

/-!
# Streams of models

The models of a formula are found one at a time, as seen on the atoms of a projection. Each model
found is blocked by its negation as a further clause, so that it is not found again, until the
solver reports that there is none left.

A stream of models owns its solver, and, when it was started under limits, also the governor. Both
are given back as soon as the models are exhausted, an error is met, or the stream is closed.
Nothing is found after that.

## Main definitions

* `ModelStream`, `ModelStream.start`, `ModelStream.startUnder`.
* `ModelStream.next`, `ModelStream.close`.
* `allModels` — all models at once.
-/

namespace GovernedSat

/-- A stream of the models of a formula. -/
structure ModelStream (E : Type) where
  /-- The solver, until it is given back. -/
  solver : Option (Solver E)
  /-- The atoms on which the models are seen, in order. -/
  projection : List Atom
  /-- The reading of the atoms which a model leaves open. -/
  convention : ValueConvention
  /-- The number of models found. -/
  count : Nat := 0
  /-- The governor, if the stream owns one, until it is disarmed. -/
  governor : Option Governor := none

/-- Computations with a stream. -/
abbrev StreamM (E : Type) := StateT (ModelStream E) ProcessM

namespace ModelStream

variable {E : Type} [Engine E]

/-! ### Starting and closing -/

/-- A stream with a fresh solver and no governor. -/
def start (f : Formula) (projection : List Atom) (convention : ValueConvention) :
    ProcedureM (ModelStream E) := do
  orFormulaError (f.validate projection)
  return { solver := some (← freshSolver f), projection, convention }

/-- A stream under the limits of a configuration. The formula is checked before the governor is
armed, and the governor is disarmed when no solver can be made. -/
def startUnder (c : Config) (f : Formula) (projection : List Atom) :
    ProcedureM (ModelStream E) := do
  orFormulaError (f.validate projection)
  let g ← orLimitError (← Governor.arm c.limits)
  let started : Except Halt (ModelStream E) ← (start f projection c.convention).run
  match started with
  | .ok stream => return { stream with governor := some g }
  | .error halt =>
    g.disarm
    throw halt

/-- Whether the solver was given back. -/
def isExhausted (stream : ModelStream E) : Bool := stream.solver.isNone

/-- Releases the solver, and then disarms the governor, where they are not given back yet. -/
def close : StreamM E Unit := do
  let stream : ModelStream E ← get
  if let some s := stream.solver then s.release
  if let some g := stream.governor then g.disarm
  set ({ stream with solver := none, governor := none } : ModelStream E)

/-! ### Finding models -/

/-- The last model which a solver found, as seen on a projection: a literal for each atom. -/
def readModel (s : Solver E) (projection : List Atom) (convention : ValueConvention) :
    Option Clause :=
  projection.mapM fun a => (s.value? a).bind fun v => Literal.ofAtom? a (convention.holds v)

/-- Finds a model and blocks it, or tells that there is none left. -/
def findModel (projection : List Atom) (convention : ValueConvention) :
    SearchM E (Option Clause) := do
  if ← isSatisfiable then
    let model ← orOverflow (readModel (← get) projection convention)
    onSolver (Solver.addClause (← orOverflow model.negation?))
    return some model
  else return none

/-- The next model, or nothing when there is none left. -/
def next : ExceptT Halt (StreamM E) (Option Clause) := do
  let stream : ModelStream E ← get
  match stream.solver with
  | none => return none
  | some s =>
    let (found, s) ← (findModel stream.projection stream.convention).run.run s
    set { stream with solver := some s }
    match found with
    | .ok (some model) =>
      set { stream with solver := some s, count := stream.count + 1 }
      Process.logEvent (.modelFound (stream.count + 1) model)
      return some model
    | .ok none =>
      Process.logEvent (.modelsExhausted stream.count)
      ExceptT.lift close
      return none
    | .error halt =>
      if let .error e := halt then
        Process.logEvent (.modelsStopped stream.count e)
        ExceptT.lift close
      throw halt

/-- The next models, at most a given number of them. -/
def take : Nat → ExceptT Halt (StreamM E) (List Clause)
  | 0 => return []
  | n + 1 => do
    match ← next with
    | none => return []
    | some model => return model :: (← take n)

/-- The models which are left, provided that they are fewer than allowed. -/
def restWithin : Nat → ExceptT Halt (StreamM E) (List Clause)
  | 0 => throw .outOfAllowance
  | allowance + 1 => do
    match ← next with
    | none => return []
    | some model => return model :: (← restWithin allowance)

/-- The models which are left. The stream is closed in the end. -/
def drain (stream : ModelStream E) : ProcedureM (List Clause) := do
  let allowance ← currentAllowance E stream.projection.length
  let (models, stream) ← (restWithin allowance).run.run stream
  let ((), _) ← close.run stream
  ExceptT.mk (pure models)

end ModelStream

/-- The models of a formula, as seen on the atoms of a projection, in the order in which the solver
finds them. -/
def allModels (E : Type) [Engine E] (c : Config) (f : Formula) (projection : List Atom) :
    ProcedureM (List Clause) := do
  orFormulaError (f.validate projection)
  governed c.limits do
    let stream : ModelStream E ← ModelStream.start f projection c.convention
    stream.drain

end GovernedSat
