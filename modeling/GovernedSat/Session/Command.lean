import GovernedSat.Search.DualImplicants
import GovernedSat.Search.ModelStream
import GovernedSat.Search.Implicants

/-!
# Commands and answers of a session

A session holds objects in named slots and is given commands, each of which has an answer. Commands
and answers are data here; what a command does is defined with the session itself.

## Main definitions

* `Command` — what a session may be asked to do.
* `Answer`, `Reply` — what it answers, and what was observed since the reply before.
* `Observation` — the solvers alive, and the calls and events since the observation before.
-/

namespace GovernedSat

/-! ### Commands -/

/-- The procedures which give a list of sets of literals. -/
inductive ProcedureKind where
  /-- The models on a projection. -/
  | enumerate
  /-- The prime implicants with one solver. -/
  | single
  /-- The prime implicants with two solvers. -/
  | dual
  deriving DecidableEq, Repr

/-- What a session may be asked to do. -/
inductive Command where
  /-- A command which could not be read. -/
  | unreadable
  /-- Gives the context the default configuration with these limits and this convention, by name. -/
  | configure (l : Limits) (convention : Option String)
  /-- Arms a governor. -/
  | arm (slot : String) (l : Limits)
  /-- Asks a governor whether its limits hold. -/
  | query (slot : String)
  /-- Passes a checkpoint. -/
  | checkpoint
  /-- Polls a number of times. -/
  | terminate (times : Nat)
  /-- Delivers a signal. -/
  | signal (s : Signal)
  /-- Holds a number of megabytes of address space. -/
  | reserve (megabytes : Nat)
  /-- Gives back the address space held. -/
  | unreserve
  /-- Allocates a number of bytes and gives them back. -/
  | allocate (bytes : Nat)
  /-- Writes a number of bytes at an offset of a new file. -/
  | write (offset length : Nat)
  /-- Asks for the soft limits in force. -/
  | softLimits
  /-- Asks whether the readings of the resources in use are sane. -/
  | usage
  /-- Takes steps under a governor with the limits of the context, and may stop at the first
  error. -/
  | governed (steps : List Command) (stopAtError : Bool)
  /-- Runs a procedure. -/
  | run (p : ProcedureKind) (f : Formula) (atoms : List Atom)
  /-- Starts a stream of models, under a governor unless it is to be bare. -/
  | stream (slot : String) (f : Formula) (projection : List Atom) (bare : Bool)
  /-- Asks a stream for the next model. -/
  | next (slot : String)
  /-- Asks a stream for some more models. -/
  | take (slot : String) (count : Nat)
  /-- Closes a stream. -/
  | close (slot : String)
  /-- Asks whether a stream has given its solver back. -/
  | exhausted (slot : String)
  /-- Makes a solver. -/
  | make (slot : String)
  /-- Adds a literal to the open clause of a solver, or closes it. -/
  | add (slot : String) (l : Literal)
  /-- Adds a clause to a solver. -/
  | addClause (slot : String) (c : Clause)
  /-- Adds a formula to a solver. -/
  | addFormula (slot : String) (f : Formula)
  /-- Has a solver assume a literal. -/
  | assume (slot : String) (l : Literal)
  /-- Has a solver solve. -/
  | solve (slot : String)
  /-- Asks a solver for the values of atoms. -/
  | values (slot : String) (atoms : List Atom)
  /-- Has a solver ask the governor whether to stop, or not. -/
  | setTerminate (slot : String) (on : Bool)
  /-- Replaces the script, and starts the journal anew. -/
  | script (steps : List ScriptStep)
  /-- Asks for the number of steps left in the script. -/
  | remaining
  /-- Drops the object in a slot. -/
  | drop (slot : String)

/-! ### Answers -/

/-- What can be seen of the solvers and the log. -/
structure Observation where
  /-- The number of solvers made and not yet released. -/
  live : Nat
  /-- The calls to solvers since the observation before. -/
  journal : Array Call
  /-- The events logged since the observation before. -/
  log : Array LogEvent

mutual

/-- What a session answers to a command. -/
inductive Answer where
  /-- The command was carried out. -/
  | done
  /-- The command was refused. -/
  | failed (e : Error)
  /-- A literal is out of range. -/
  | overflow
  /-- An allowance of solves is exhausted. -/
  | outOfAllowance
  /-- The command could not be read, or is not for the object in its slot. -/
  | unreadable
  /-- Yes or no. -/
  | flag (b : Bool)
  /-- Yes or no, several times. -/
  | flags (bs : List Bool)
  /-- A number. -/
  | count (n : Nat)
  /-- A number of bytes, unless the write failed. -/
  | written (n : Option Nat)
  /-- The limits of the context. -/
  | limits (l : Limits)
  /-- The limits of a governor, and whether they hold. -/
  | standing (l : Limits) (time memory both : Bool) (orFail : Except LimitError Unit) (sane : Bool)
  /-- Whether a soft limit on CPU time is in force, and those on memory and files in megabytes. -/
  | softLimits (time : Bool) (memory fileSize : Option Nat)
  /-- Whether the readings of the resources in use are sane. -/
  | usage (sane : Bool)
  /-- The report of a solve. -/
  | report (r : Report)
  /-- The values of atoms. -/
  | values (ls : List Literal)
  /-- A model, unless there is none left. -/
  | model (m : Option Clause)
  /-- Models or prime implicants. -/
  | models (ms : List Clause)
  /-- The replies to the steps taken under a governor, and the result. -/
  | governed (steps : List Reply) (result : Except Error Unit)

/-- An answer, with what was observed since the reply before. -/
inductive Reply where
  /-- An answer and an observation. -/
  | mk (answer : Answer) (observed : Observation)

end

/-- The answer of a reply. -/
def Reply.answer : Reply → Answer
  | mk answer _ => answer

/-- The observation of a reply. -/
def Reply.observed : Reply → Observation
  | mk _ observed => observed

namespace Answer

/-- The answer to a procedure which halted. -/
def ofHalt : Halt → Answer
  | .error e => failed e
  | .overflow => overflow
  | .outOfAllowance => outOfAllowance

/-- The answer to a computation which may halt. -/
def ofExcept {α : Type} (answer : α → Answer) : Except Halt α → Answer
  | .ok a => answer a
  | .error halt => ofHalt halt

/-- The answer to something which may be out of range. -/
def ofOption {α : Type} (answer : α → Answer) : Option α → Answer
  | some a => answer a
  | none => overflow

/-- The error of an answer which refuses its command. -/
def error? : Answer → Option Error
  | failed e => some e
  | _ => none

end Answer

end GovernedSat
