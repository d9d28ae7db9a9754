import GovernedSat.Proofs.Search.Twins
import GovernedSat.Proofs.Session.Cut
import Mathlib.Logic.Function.Basic

/-!
# Streams side by side

Any number of streams of models may be open in a process at the same time, with solvers of either
kind. They share the process, whose polls, breach and soft limits their callbacks look at. As long
as no limits are in force, a stream gives the same answers whatever else is done in the process: the
answers which it gives when nothing else is done.

## Main definitions

* `StreamAction`, `Bystander`, `Action` — what is done with a stream, or besides.
* `play` — actions in turn, with the answers of the streams.

## Main results

* `OpenTwins.perform` — twins give the same answer to one action, and stay twins.
* `answers_play_eq_alone` — a stream among others and alone.
-/

namespace GovernedSat

open Process

/-! ### Actions -/

/-- A stream of models with a backtracking solver of some kind. -/
abbrev OpenStream := (k : Coverage) × ModelStream (Backtracking k)

/-- What is done with a stream. -/
inductive StreamAction where
  /-- A stream is started, in place of the one there is. -/
  | start (k : Coverage) (bare : Bool) (c : Config) (f : Formula) (P : List Atom)
  /-- The stream is asked for something. -/
  | ask (r : ModelStream.Request)
  /-- The stream is dropped. -/
  | drop

/-- What a stream answers. -/
inductive StreamAnswer where
  /-- It was started, or was not. -/
  | started (result : Except Halt Unit)
  /-- It was asked. -/
  | answered (result : Except Halt (Option Clause))
  /-- It was dropped. -/
  | dropped
  /-- There is no stream. -/
  | missing
  deriving DecidableEq

/-- What is done besides. -/
inductive Bystander where
  /-- A procedure is run. -/
  | run (k : Coverage) (kind : ProcedureKind) (c : Config) (f : Formula) (atoms : List Atom)
  /-- A checkpoint is passed. -/
  | checkpoint
  /-- The governor is polled. -/
  | poll

/-- What is done, with one of the streams or besides. -/
inductive Action (ι : Type) where
  /-- Something is done with a stream. -/
  | stream (i : ι) (a : StreamAction)
  /-- Something is done besides. -/
  | other (b : Bystander)

/-- Closes a stream if there is one. -/
def closeOpen : Option OpenStream → ProcessM Unit
  | none => pure ()
  | some x => discard (x.2.ask .close)

/-- Does something with a stream if there is one, and gives the answer and the stream which is
left. A stream which is replaced or dropped is closed. -/
def StreamAction.perform (x : Option OpenStream) :
    StreamAction → ProcessM (StreamAnswer × Option OpenStream)
  | start k bare c f P => do
    match ← (ModelStream.startAs (Backtracking k) bare c f P).run with
    | .ok m =>
      closeOpen x
      return (.started (.ok ()), some ⟨k, m⟩)
    | .error halt => return (.started (.error halt), x)
  | ask r =>
    match x with
    | none => return (.missing, none)
    | some ⟨k, m⟩ => do
      let (answer, m') ← m.ask r
      return (.answered answer, some ⟨k, m'⟩)
  | drop =>
    match x with
    | none => return (.missing, none)
    | some y => do
      closeOpen (some y)
      return (.dropped, none)

/-- A stream is closed once the other has been started. -/
theorem run_perform_start (x : Option OpenStream) (k : Coverage) (bare : Bool) (c : Config)
    (f : Formula) (P : List Atom) (p : Process) :
    ((StreamAction.start k bare c f P).perform x).run p =
      match (ModelStream.startAs (Backtracking k) bare c f P).run.run p with
      | (.ok m, q) => pure ((.started (.ok ()), some ⟨k, m⟩), ((closeOpen x).run q).2)
      | (.error halt, q) => pure ((.started (.error halt), x), q) := by
  obtain ⟨⟨r, q⟩, h⟩ : ∃ r, (ModelStream.startAs (Backtracking k) bare c f P).run.run p = r :=
    ⟨_, rfl⟩
  rw [StreamAction.perform, StateT.run_bind, h]
  cases r <;> rfl

/-- Does something besides. -/
def Bystander.perform : Bystander → ProcessM Unit
  | run k kind c f atoms =>
    discard (Session.runProcedure (E := Backtracking k) c f atoms kind).run
  | checkpoint => discard GovernedSat.checkpoint
  | poll => discard stopRequested

/-- A stream is started without limits. -/
def StreamAction.IsUnlimited : StreamAction → Prop
  | start _ _ c _ _ => c.limits.isUnbounded = true
  | ask _ | drop => True

/-- A procedure is run without limits. -/
def Bystander.IsUnlimited : Bystander → Prop
  | run _ _ c _ _ => c.limits.isUnbounded = true
  | checkpoint | poll => True

/-- Nothing is done under limits. -/
def Action.IsUnlimited {ι : Type} : Action ι → Prop
  | stream _ a => a.IsUnlimited
  | other b => b.IsUnlimited

section Play

variable {ι : Type} [DecidableEq ι]

/-- Whether something is done with the stream of a name. -/
def Action.concerns (i : ι) : Action ι → Bool
  | stream j _ => j = i
  | other _ => false

/-- Actions in turn, with the answers of the streams by their names. -/
def play : List (Action ι) → (ι → Option OpenStream) → ProcessM (List (ι × StreamAnswer))
  | [], _ => return []
  | .stream i a :: actions, streams => do
    let (answer, x) ← a.perform (streams i)
    return (i, answer) :: (← play actions (Function.update streams i x))
  | .other b :: actions, streams => do
    b.perform
    play actions streams

end Play

/-! ### One action -/

/-- Twins, or no stream at all. -/
inductive OpenTwins : Option OpenStream → Option OpenStream → Prop
  /-- There is no stream. -/
  | none : OpenTwins none none
  /-- There are twins. -/
  | some {k : Coverage} {m n : ModelStream (Backtracking k)} (h : m.AreTwins n) :
      OpenTwins (some ⟨k, m⟩) (some ⟨k, n⟩)

namespace OpenTwins

variable {x y : Option OpenStream} {p q : Process}

/-- Closing either leaves its process idle. -/
theorem isIdle_closeOpen (h : OpenTwins x y) (hp : p.IsIdle) (hq : q.IsIdle) :
    ((closeOpen x).run p).2.IsIdle ∧ ((closeOpen y).run q).2.IsIdle := by
  cases h with
  | none => exact ⟨hp, hq⟩
  | some h =>
    obtain ⟨-, -, hp', hq'⟩ := h.ask .close hp hq
    exact ⟨hp', hq'⟩

/-- **Twins give the same answers in idle processes**, whatever is done with them. -/
theorem perform {a : StreamAction} (ha : a.IsUnlimited) (h : OpenTwins x y) (hp : p.IsIdle)
    (hq : q.IsIdle) :
    let r := (a.perform x).run p
    let r' := (a.perform y).run q
    r.1.1 = r'.1.1 ∧ OpenTwins r.1.2 r'.1.2 ∧ r.2.IsIdle ∧ r'.2.IsIdle := by
  intro r r'
  cases a with
  | start k bare c f P =>
    have hc : c.limits.isUnbounded = true := ha
    obtain ⟨hstarts, hp', hq'⟩ := ModelStream.startsTwins_startAs k bare f P hc hp hq
    have hr : r = ((StreamAction.start k bare c f P).perform x).run p := rfl
    have hr' : r' = ((StreamAction.start k bare c f P).perform y).run q := rfl
    rw [run_perform_start] at hr hr'
    revert hstarts hp' hq' hr hr'
    generalize (ModelStream.startAs (Backtracking k) bare c f P).run.run p = u
    generalize (ModelStream.startAs (Backtracking k) bare c f P).run.run q = v
    obtain ⟨halt | m, p'⟩ := u <;> obtain ⟨halt' | n, q'⟩ := v
    all_goals intro hstarts hp' hq' hr hr'
    · obtain rfl : halt = halt' := hstarts
      rw [hr, hr']
      exact ⟨rfl, h, hp', hq'⟩
    · exact hstarts.elim
    · exact hstarts.elim
    · rw [hr, hr']
      obtain ⟨hp'', hq''⟩ := h.isIdle_closeOpen hp' hq'
      exact ⟨rfl, .some hstarts, hp'', hq''⟩
  | ask request =>
    cases h with
    | none => exact ⟨rfl, .none, hp, hq⟩
    | some h =>
      obtain ⟨hanswer, htwins, hp', hq'⟩ := h.ask request hp hq
      exact ⟨congrArg StreamAnswer.answered hanswer, .some htwins, hp', hq'⟩
  | drop =>
    cases h with
    | none => exact ⟨rfl, .none, hp, hq⟩
    | some h =>
      obtain ⟨hp', hq'⟩ := (OpenTwins.some h).isIdle_closeOpen hp hq
      exact ⟨rfl, .none, hp', hq'⟩

end OpenTwins

/-- What is done besides without limits leaves the process idle. -/
theorem Bystander.isIdle_perform {b : Bystander} (hb : b.IsUnlimited) {p : Process}
    (hp : p.IsIdle) : (b.perform.run p).2.IsIdle := by
  cases b with
  | run k kind c f atoms =>
    have hc : c.limits.isUnbounded = true := hb
    change ((Session.runProcedure (E := Backtracking k) c f atoms kind).run.run p).2.IsIdle
    rw [Session.runProcedure_eq]
    cases hf : f.validate atoms with
    | error e => exact hp
    | ok u =>
      rw [orFormulaError_ok, pure_bind, run_governed_unbounded hc]
      have hbody := (admitsSolvers_keepsIdle k).moves_procedureBody c.convention f atoms kind
      exact (hbody p.afterReading).1 hp
  | checkpoint =>
    change (GovernedSat.checkpoint.run p).2.IsIdle
    rw [run_checkpoint hp]
    exact hp
  | poll =>
    obtain ⟨q, hr, hq, -⟩ := run_stopRequested hp
    change (stopRequested.run p).2.IsIdle
    rw [hr]
    exact hq

/-! ### Many actions -/

section Play

variable {ι : Type} [DecidableEq ι] {p q : Process}

/-- The first answer, and those which follow. -/
theorem answers_play_stream (i : ι) (a : StreamAction) (actions : List (Action ι))
    (streams : ι → Option OpenStream) (p : Process) :
    ((play (.stream i a :: actions) streams).run p).1 =
      (i, ((a.perform (streams i)).run p).1.1) ::
        ((play actions (Function.update streams i ((a.perform (streams i)).run p).1.2)).run
          ((a.perform (streams i)).run p).2).1 := rfl

/-- The streams of the name are twins, and each of the others is its own twin. -/
theorem filter_answers_play (actions : List (Action ι)) (h : ∀ a ∈ actions, a.IsUnlimited) (i : ι)
    {streams streams' : ι → Option OpenStream} (hstreams : ∀ j, OpenTwins (streams j) (streams j))
    (hi : OpenTwins (streams i) (streams' i)) (hp : p.IsIdle) (hq : q.IsIdle) :
    ((play actions streams).run p).1.filter (·.1 = i) =
      ((play (actions.filter (·.concerns i)) streams').run q).1 := by
  induction actions generalizing p q streams streams' with
  | nil => rfl
  | cons a actions ih =>
    obtain ⟨ha, hrest⟩ := List.forall_mem_cons.mp h
    cases a with
    | other b => exact ih hrest hstreams hi (b.isIdle_perform ha hp) hq
    | stream j a =>
      obtain ⟨-, hself, hp', -⟩ := (hstreams j).perform ha hp hp
      have hstreams' := (Function.forall_update_iff streams (a := j) fun _ x => OpenTwins x x).mpr
        ⟨hself, fun k _ => hstreams k⟩
      rw [answers_play_stream]
      by_cases hj : j = i
      · subst hj
        obtain ⟨hanswer, htwins, -, hq'⟩ := hi.perform ha hp hq
        simp only [List.filter_cons, Action.concerns, decide_true, if_true]
        rw [answers_play_stream, hanswer]
        refine congrArg (_ :: ·) (ih hrest hstreams' ?_ hp' hq')
        rw [Function.update_self, Function.update_self]
        exact htwins
      · -- The stream `i` is not touched, alone or among the others.
        simp only [List.filter_cons, Action.concerns, hj, decide_false, Bool.false_eq_true,
          if_false]
        refine ih hrest hstreams' ?_ hp' hq
        rw [Function.update_of_ne (Ne.symm hj)]
        exact hi

/-- **Streams do not interfere.** Among any streams which are open at the same time, with
procedures, checkpoints and polls in between, a stream gives the answers which it gives when nothing
else is done. -/
theorem answers_play_eq_alone (actions : List (Action ι)) (h : ∀ a ∈ actions, a.IsUnlimited)
    (i : ι) (hp : p.IsIdle) (hq : q.IsIdle) :
    ((play actions fun _ => none).run p).1.filter (·.1 = i) =
      ((play (actions.filter (·.concerns i)) fun _ => none).run q).1 :=
  filter_answers_play actions h i (fun _ => .none) .none hp hq

/-- Two streams with solvers of the two kinds are used by turns, with a procedure, a checkpoint and
a poll in between. The first of them gives four answers, those which it gives alone. -/
theorem answers_play_eq_alone_two :
    let p : Process := { host := .steady { cpuTime := 0, resident := 1, addressSpace := 1 } }
    let first : List (Action Bool) := [
      .stream true (.start .full false {} [[1, 2], [-1, -2]] [1]), .stream true (.ask .next),
      .stream true (.ask .next), .stream true (.ask .close)]
    let actions : List (Action Bool) := [
      .stream true (.start .full false {} [[1, 2], [-1, -2]] [1]),
      .stream false (.start .needed true {} [[1, 2]] [1, 2]),
      .stream true (.ask .next), .stream false (.ask .next),
      .other (.run .needed .dual {} [[1, 2]] [1, 2]),
      .stream true (.ask .next), .other .checkpoint, .stream false .drop,
      .other .poll, .stream true (.ask .close)]
    (∀ a ∈ actions, a.IsUnlimited) ∧ p.IsIdle ∧
      ((play actions fun _ => none).run p).1.filter (·.1 = true) =
        ((play first fun _ => none).run p).1 := by
  intro p first actions
  have hc : ({} : Config).limits.isUnbounded = true := rfl
  have hactions : ∀ a ∈ actions, a.IsUnlimited := by
    simp [actions, Action.IsUnlimited, StreamAction.IsUnlimited, Bystander.IsUnlimited, hc]
  have hp : p.IsIdle := isIdle_new _
  exact ⟨hactions, hp, answers_play_eq_alone actions hactions true hp hp⟩

end Play

end GovernedSat
