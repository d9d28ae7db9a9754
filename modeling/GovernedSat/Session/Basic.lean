import GovernedSat.Process.Activity
import GovernedSat.Session.Command
import GovernedSat.Session.Slots

/-!
# Sessions

A session has a configuration, the context of its calls, and objects in slots. It performs commands
one after another; each command has an answer, and an answer which refuses a command does not end
the session. A command which makes an object makes it first, and only then disposes of what is in
the slot; when it fails, the slot is as it was. In the end the objects left are disposed of in the
order of their names.

## Main definitions

* `Session`, `SessionM` — the state, and computations with it.
* `Session.perform`, `Session.performAll` — a command, and a list of commands.
* `Session.run` — a whole session.
* `Session.call` — a single call of a procedure.
* `Session.runSteady`, `Session.callSteady` — both of these in a fresh process.
-/

namespace GovernedSat

/-- The state of a session, besides the process it runs in. -/
structure Session (E : Type) where
  /-- The configuration of the calls. -/
  config : Config := {}
  /-- The objects. -/
  slots : Slots E := []

/-- Computations with a session. -/
abbrev SessionM (E : Type) := StateT (Session E) ProcessM

namespace Session

variable {E : Type} [Engine E]

/-! ### Observing -/

/-- Shows the solvers alive, and the calls and events since the observation before. -/
def observe : ProcessM Observation :=
  modifyGet fun p =>
    ({ live := p.live, journal := p.journal, log := p.log }, { p with journal := #[], log := #[] })

/-! ### Slots -/

/-- Puts an object into a slot, and then disposes of what was in it. -/
def place (name : String) (x : Slot E) : SessionM E Unit := do
  let old := (← get).slots.get? name
  modify fun s => { s with slots := s.slots.put name x }
  if let some y := old then y.dispose

/-- Places the object which was made, or tells why it was not. -/
def placeMade {α : Type} (name : String) (toSlot : α → Slot E) :
    Except Halt α → SessionM E Answer
  | .ok x => do
    place name (toSlot x)
    return .done
  | .error halt => return .ofHalt halt

/-- Uses the governor in a slot. -/
def withGovernor (name : String) (use : Governor → ProcessM Answer) : SessionM E Answer := do
  match (← get).slots.get? name with
  | some (.governor g) => use g
  | _ => return .unreadable

/-- Uses the stream in a slot. -/
def withStream (name : String) (use : StreamM E Answer) : SessionM E Answer := do
  match (← get).slots.get? name with
  | some (.stream models) =>
    let (answer, models) ← use.run models
    modify fun s => { s with slots := s.slots.put name (.stream models) }
    return answer
  | _ => return .unreadable

/-- Uses the solver in a slot. -/
def withSolverIn (name : String) (use : SolverM E Answer) : SessionM E Answer := do
  match (← get).slots.get? name with
  | some (.solver s) =>
    let (answer, s) ← use.run s
    modify fun t => { t with slots := t.slots.put name (.solver s) }
    return answer
  | _ => return .unreadable

/-- Disposes of the object in a slot. -/
def dropSlot (name : String) : SessionM E Answer := do
  match (← get).slots.get? name with
  | some x =>
    modify fun s => { s with slots := s.slots.erase name }
    x.dispose
    return .done
  | none => return .unreadable

/-- Disposes of all objects, in the order of their names. -/
def dropAll : SessionM E Unit := do
  (← get).slots.forM fun p => (p.2.dispose : ProcessM Unit)
  modify fun s => { s with slots := [] }

/-! ### Commands about the process -/

/-- The answer of a governor about its limits, each question being a reading of its own. -/
def queryGovernor (g : Governor) : ProcessM Answer := do
  let time ← g.timeLimitHolds
  let memory ← g.memoryLimitHolds
  let both ← g.limitsHold
  let orFail ← g.requireLimits
  let u ← Process.readUsage
  return .standing g.limits time memory both orFail (g.baseline ≤ u.cpuTime && 1 ≤ u.resident)

/-- The answer about the soft limits in force. -/
def querySoftLimits : ProcessM Answer := do
  let p ← get
  let megabytes (r : Resource) : Option Nat := (p.softLimit? r).map (· / megabyte)
  return .softLimits (p.softLimit? .cpuTime).isSome (megabytes .addressSpace) (megabytes .fileSize)

/-- The answer about the readings of the resources in use. -/
def queryUsage : ProcessM Answer := do
  let u ← Process.readUsage
  return .usage (0 ≤ u.cpuTime && 1 ≤ u.resident && 1 ≤ u.addressSpace)

/-- Polls a number of times. -/
def pollRepeatedly : Nat → ProcessM (List Bool)
  | 0 => return []
  | n + 1 => return (← stopRequested) :: (← pollRepeatedly n)

/-- Replaces the script, and starts the journal and the numbers of solvers anew. -/
def replaceScript (steps : List ScriptStep) : ProcessM Unit :=
  modify fun p => { p with script := steps, journal := #[], made := 0 }

/-! ### Commands about models -/

/-- Gives the context the default configuration with some limits and a convention, which is the
default one unless it is named. -/
def configure (l : Limits) (convention : Option String) : SessionM E Answer := do
  match (convention.map ValueConvention.parse).getD (.ok ({} : Config).convention) with
  | .ok v =>
    modify ({ · with config := .ofLimits l v })
    return .limits l
  | .error e => return .failed (.config e)

/-- Runs a procedure under a configuration. -/
def runProcedure (c : Config) (f : Formula) (atoms : List Atom) :
    ProcedureKind → ProcedureM (List Clause)
  | .enumerate => allModels E c f atoms
  | .single => oneSolverImplicants E c f atoms
  | .dual => twoSolverImplicants E c f atoms

/-- The values of atoms on the last model of a solver. -/
def readAtoms (s : Solver E) (atoms : List Atom) : Option (List Literal) := atoms.mapM s.value?

/-! ### Performing commands -/

mutual

/-- Performs a command. -/
def perform : Command → SessionM E Answer
  | .unreadable => return .unreadable
  | .configure l convention => configure l convention
  | .arm slot l => do
    let armed : Except LimitError Governor ← Governor.arm l
    placeMade slot .governor (armed.mapError fun e => .error (.limit e))
  | .query slot => withGovernor slot queryGovernor
  | .checkpoint => do
    match ← (checkpoint : ProcessM _) with
    | .ok () => return .done
    | .error e => return .failed (.limit e)
  | .terminate times => return .flags (← (pollRepeatedly times : ProcessM _))
  | .signal s => return .flag (← (Process.deliver s : ProcessM _))
  | .reserve megabytes => return .flag (← (Process.reserve megabytes : ProcessM _))
  | .unreserve => do
    Process.unreserve
    return .done
  | .allocate bytes => return .flag (← (Process.allocate bytes : ProcessM _))
  | .write offset length => return .written (← (Process.writeFile offset length : ProcessM _))
  | .softLimits => querySoftLimits
  | .usage => queryUsage
  | .governed steps stopAtError => do
    let limits := (← get).config.limits
    let body : SessionM E (List Reply × Except Error Unit) := performAll stopAtError steps
    match ← (governed limits (ExceptT.lift body)).run with
    | .ok (replies, result) => return .governed replies result
    | .error (.error e) => return .governed [] (.error e)
    | .error halt => return .ofHalt halt
  | .run p f atoms => do
    let result ← ((runProcedure (E := E) (← get).config f atoms p).run : ProcessM _)
    return .ofExcept .models result
  | .stream slot f projection bare => do
    let config := (← get).config
    let made : ProcedureM (ModelStream E) :=
      if bare then ModelStream.start f projection config.convention
      else ModelStream.startUnder config f projection
    placeMade slot .stream (← (made.run : ProcessM _))
  | .next slot => withStream slot do
    return .ofExcept .model (← ModelStream.next.run)
  | .take slot count => withStream slot do
    return .ofExcept .models (← (ModelStream.take count).run)
  | .close slot => withStream slot do
    ModelStream.close
    return .done
  | .exhausted slot => withStream slot do
    return .flag (← get).isExhausted
  | .make slot => do
    let made : Except SolverError (Solver E) ← Solver.make
    placeMade slot .solver (made.mapError fun e => .error (.solver e))
  | .add slot l => withSolverIn slot do
    Solver.add l
    return .done
  | .addClause slot c => withSolverIn slot do
    Solver.addClause c
    return .done
  | .addFormula slot f => withSolverIn slot do
    Solver.addFormula f
    return .done
  | .assume slot l => withSolverIn slot do
    Solver.assume l
    return .done
  | .solve slot => withSolverIn slot do
    return .ofOption .report (← Solver.solve)
  | .values slot atoms => withSolverIn slot do
    return .ofOption .values (readAtoms (← get) atoms)
  | .setTerminate slot on => withSolverIn slot do
    Solver.setTerminate (if on then some stopRequested else none)
    return .done
  | .script steps => do
    replaceScript steps
    return .done
  | .remaining => do
    let p ← (get : ProcessM _)
    return .count p.script.length
  | .drop slot => dropSlot slot

/-- Performs commands in turn, observing after each. If asked to, it stops after the first answer
which refuses its command with an error, and gives that error. -/
def performAll (stopAtError : Bool) : List Command → SessionM E (List Reply × Except Error Unit)
  | [] => return ([], .ok ())
  | command :: commands => do
    let answer ← perform command
    let observed ← (observe : ProcessM _)
    match answer.error?, stopAtError with
    | some e, true => return ([.mk answer observed], .error e)
    | _, _ =>
      let (replies, result) ← performAll stopAtError commands
      return (.mk answer observed :: replies, result)

end

/-! ### Whole sessions -/

variable (E)

/-- A whole session: the replies to the commands, and what is observed when the objects left have
been disposed of. -/
def run (commands : List Command) : ProcessM (List Reply × Observation) := do
  let session : SessionM E (List Reply) := do
    let (replies, _) ← performAll false commands
    dropAll
    return replies
  let (replies, _) ← session.run {}
  return (replies, ← observe)

/-- A single call of a procedure: the script is set, the context is configured if asked for, and the
command is performed. The reply comes with the number of steps left in the script; if configuring
fails, there is only the answer to that. -/
def call (script : List ScriptStep) (setup : Option Command) (command : Command) :
    ProcessM (Except Answer (Reply × Nat)) := do
  replaceScript script
  let session : SessionM E (Except Answer Answer) := do
    match setup with
    | none => return .ok (← perform command)
    | some setup =>
      match ← perform setup with
      | .limits _ => return .ok (← perform command)
      | refusal => return .error refusal
  let (result, _) ← session.run {}
  let observed ← observe
  let left := (← get).script.length
  return result.map fun answer => (.mk answer observed, left)

/-- A whole session in a fresh process on a steady host. -/
def runSteady (u : Usage) (commands : List Command) : List Reply × Observation :=
  ((run E commands).run { host := .steady u }).1

/-- A single call in a fresh process on a steady host. -/
def callSteady (u : Usage) (script : List ScriptStep) (setup : Option Command)
    (command : Command) : Except Answer (Reply × Nat) :=
  ((call E script setup command).run { host := .steady u }).1

end Session

end GovernedSat
