import GovernedSat.Proofs.Governor.Keeping
import GovernedSat.Proofs.Search.Drift
import GovernedSat.Session.Basic

/-!
# Streams and procedures keep account of governors

A stream of models owns its governor until it is closed, which happens as soon as the models are
exhausted or an error is met. A procedure gives its governor back before it ends, whatever its
result is.

## Main definitions

* `ModelStream.governors`, `ModelStream.IsTame` — what a stream owns, and its solver.
* `Session.procedureBody` — what a procedure does while its governor is armed.

## Main results

* `ModelStream.keeps_startUnder`, `ModelStream.keeps_next`, `ModelStream.keeps_close` — streams.
* `Session.keeps_runProcedure` — procedures.
-/

namespace GovernedSat

open Process

variable {E : Type} [Engine E] {p₀ : Process}

/-! ### Procedures and computations with a state -/

section Procedures

variable {α β : Type} {f : α → ProcedureM β} {own : List Governor}
  {R : Except Halt β → List Governor → Prop}

/-- A procedure which halts early does nothing more. -/
theorem Keeps.bind_procedure {x : ProcedureM α} {P : Except Halt α → List Governor → Prop}
    (hx : Keeps p₀ x.run own P) (hf : ∀ a left, P (.ok a) left → Keeps p₀ (f a).run left R)
    (hhalt : ∀ halt left, P (.error halt) left → R (.error halt) left) :
    Keeps p₀ (x >>= f).run own R := by
  change Keeps p₀ (x.run >>= ExceptT.bindCont f) own R
  refine hx.bind fun r left hr => ?_
  cases r with
  | ok a => exact hf a left hr
  | error halt => exact keeps_pure (hhalt halt left hr)

/-- What never halts early comes before the rest of a procedure. -/
theorem Keeps.bind_process {y : ProcessM α} {P : α → List Governor → Prop} (hy : Keeps p₀ y own P)
    (hf : ∀ a left, P a left → Keeps p₀ (f a).run left R) :
    Keeps p₀ (liftM y >>= f).run own R := by
  change Keeps p₀ ((y >>= fun a => pure (Except.ok a)) >>= ExceptT.bindCont f) own R
  rw [bind_assoc]
  exact hy.bind fun a left ha => hf a left ha

end Procedures

/-- Run from the state `s`, the computation leaves governors of which, together with its result and
the state left behind, `post` is true. -/
def Leaves {S α : Type} (p₀ : Process) (x : ExceptT Halt (StateT S ProcessM) α) (s : S)
    (own : List Governor) (post : Except Halt α → S → List Governor → Prop) : Prop :=
  Keeps p₀ (x.run.run s) own fun r left => post r.1 r.2 left

section Leaves

variable {S α β : Type} {s : S} {own : List Governor}
  {f : α → ExceptT Halt (StateT S ProcessM) β} {R : Except Halt β → S → List Governor → Prop}

theorem leaves_pure {b : β} (h : R (.ok b) s own) : Leaves p₀ (pure b) s own R := keeps_pure h

theorem leaves_throw {halt : Halt} (h : R (.error halt) s own) : Leaves p₀ (throw halt) s own R :=
  keeps_pure h

theorem Leaves.bind {x : ExceptT Halt (StateT S ProcessM) α}
    {P : Except Halt α → S → List Governor → Prop} (hx : Leaves p₀ x s own P)
    (hf : ∀ a s' left, P (.ok a) s' left → Leaves p₀ (f a) s' left R)
    (hhalt : ∀ halt s' left, P (.error halt) s' left → R (.error halt) s' left) :
    Leaves p₀ (x >>= f) s own R := by
  change Keeps p₀ (x.run.run s >>= fun r => (ExceptT.bindCont f r.1).run r.2) own _
  refine Keeps.bind hx ?_
  rintro ⟨r, s'⟩ left hr
  cases r with
  | ok a => exact hf a s' left hr
  | error halt => exact keeps_pure (hhalt halt s' left hr)

/-- What concerns the state and never halts early comes before the rest. -/
theorem Leaves.bind_lift {y : StateT S ProcessM α} {P : α → S → List Governor → Prop}
    (hy : Keeps p₀ (y.run s) own fun r left => P r.1 r.2 left)
    (hf : ∀ a s' left, P a s' left → Leaves p₀ (f a) s' left R) :
    Leaves p₀ (ExceptT.lift y >>= f) s own R := by
  have hlift : Leaves p₀ (ExceptT.lift y) s own fun r s' left =>
      ∃ a, r = .ok a ∧ P a s' left := by
    change Keeps p₀ (y.run s >>= fun r => pure (Except.ok r.1, r.2)) own _
    exact hy.bind fun r left hr => keeps_pure ⟨r.1, rfl, hr⟩
  refine hlift.bind ?_ nofun
  rintro a s' left ⟨_, ⟨⟩, ha⟩
  exact hf a s' left ha

/-- What concerns the process alone comes before the rest. -/
theorem Leaves.bind_process {y : ProcessM α} {P : α → List Governor → Prop}
    (hy : Keeps p₀ y own P) (hf : ∀ a left, P a left → Leaves p₀ (f a) s left R) :
    Leaves p₀ (liftM y >>= f) s own R := by
  have hlift : Keeps p₀ ((liftM y : StateT S ProcessM α).run s) own
      fun r left => s = r.2 ∧ P r.1 left := by
    change Keeps p₀ (y >>= fun a => pure (a, s)) own _
    exact hy.bind fun a left ha => keeps_pure ⟨rfl, ha⟩
  refine Leaves.bind_lift (P := fun a s' left => s = s' ∧ P a left) hlift ?_
  rintro a _ left ⟨rfl, ha⟩
  exact hf a left ha

/-- The state is read. -/
theorem Leaves.bind_get {f : S → ExceptT Halt (StateT S ProcessM) β}
    (hf : Leaves p₀ (f s) s own R) : Leaves p₀ (get >>= f) s own R := hf

/-- The state is replaced. -/
theorem Leaves.bind_set {f : Unit → ExceptT Halt (StateT S ProcessM) β} {s' : S}
    (hf : Leaves p₀ (f ()) s' own R) : Leaves p₀ (set s' >>= f) s own R := hf

end Leaves

namespace ModelStream

/-- The governors which a stream owns. -/
def governors (m : ModelStream E) : List Governor := m.governor.toList

/-- The solver of a stream, until it is given back, is tame. -/
def IsTame (m : ModelStream E) : Prop := ∀ s ∈ m.solver, s.IsTame

/-- What a computation with a stream leaves: the governors are those of the stream, whose solver is
tame. -/
def Owns (m : ModelStream E) (left : List Governor) : Prop := left = m.governors ∧ m.IsTame

/-! ### Starting and closing -/

section Starting

variable [Engine.IsTame E] {f : Formula} {projection : List Atom} {convention : ValueConvention}

/-- A stream is started with no governor. -/
theorem drifts_start : Drifts (start (E := E) f projection convention).run fun r =>
    ∀ m, r = .ok m → m.governor = none ∧ m.IsTame := by
  rw [start]
  cases f.validate projection with
  | error e => exact moves_pure nofun
  | ok u =>
    rw [orFormulaError_ok, pure_bind]
    refine Moves.bind_procedure (drifts_freshSolver f) (fun s hs => moves_pure ?_)
      fun _ _ h => by cases h
    rintro _ ⟨⟩
    exact ⟨rfl, fun s' hs' => by
      cases hs'
      exact hs _ rfl⟩

/-- What is left of a stream which may have failed to start. -/
def OwnsMade (r : Except Halt (ModelStream E)) (left : List Governor) : Prop :=
  match r with
  | .ok m => m.Owns left
  | .error _ => left = []

theorem keeps_start (h₀ : p₀.IsPristine) :
    Keeps p₀ (start (E := E) f projection convention).run [] OwnsMade := by
  refine (drifts_start.keeps h₀ []).mono ?_
  rintro (halt | m) _ ⟨rfl, hm⟩
  · rfl
  · obtain ⟨hn, ht⟩ := hm m rfl
    exact ⟨by rw [governors, hn]; rfl, ht⟩

/-- The governor is disarmed when no solver can be made. -/
theorem keeps_startUnder (h₀ : p₀.IsPristine) (c : Config) :
    Keeps p₀ (startUnder (E := E) c f projection).run [] OwnsMade := by
  rw [startUnder]
  cases f.validate projection with
  | error e => exact keeps_pure rfl
  | ok u =>
    rw [orFormulaError_ok, pure_bind]
    refine (keeps_arm h₀ c.limits).bind_process ?_
    rintro armed _ rfl
    cases armed with
    | error e => exact keeps_pure rfl
    | ok g =>
      rw [orLimitError_ok, pure_bind]
      refine (drifts_start.keeps h₀ [g]).bind_process ?_
      rintro (halt | m) _ ⟨rfl, hm⟩
      · exact (keeps_disarm h₀ g).bind_process fun _ _ hleft => keeps_pure hleft
      · exact keeps_pure ⟨rfl, (hm m rfl).2⟩

end Starting

/-- Whatever a stream owns is given back when it is closed. -/
theorem keeps_close (h₀ : p₀.IsPristine) (m : ModelStream E) :
    Keeps p₀ (close.run m) m.governors fun r left => left = [] ∧ r.2.Owns left := by
  -- The solver is released, and then the governor is disarmed.
  have hrelease : Drifts (m.solver.elim (pure ()) Solver.release) fun _ => True := by
    cases m.solver with
    | none => exact moves_pure trivial
    | some s => exact Solver.drifts_release
  have hdisarm : Keeps p₀ (m.governor.elim (pure ()) Governor.disarm) m.governors
      fun _ left => left = [] := by
    rw [governors]
    cases m.governor with
    | none => exact keeps_pure rfl
    | some g => exact keeps_disarm h₀ g
  have hrun : close.run m = (do
      m.solver.elim (pure ()) Solver.release
      m.governor.elim (pure ()) Governor.disarm
      return ((), ({ m with solver := none, governor := none } : ModelStream E))) := by
    obtain ⟨solver, _, _, _, governor⟩ := m
    cases solver <;> cases governor <;> rfl
  rw [hrun]
  refine (hrelease.keeps h₀ _).bind ?_
  rintro _ _ ⟨rfl, -⟩
  refine hdisarm.bind ?_
  rintro _ _ rfl
  exact keeps_pure ⟨rfl, rfl, fun _ hs => by cases hs⟩

/-! ### Finding models -/

/-- A computation with a stream which keeps account of what the stream owns. -/
def StreamKeeps {α : Type} (p₀ : Process) (x : ExceptT Halt (StreamM E) α) : Prop :=
  ∀ m : ModelStream E, m.IsTame → Leaves p₀ x m m.governors fun _ m' left => m'.Owns left

section StreamKeeps

omit [Engine E]

variable {α β : Type}

theorem streamKeeps_pure (a : α) : StreamKeeps p₀ (pure a : ExceptT Halt (StreamM E) α) :=
  fun _ hm => leaves_pure ⟨rfl, hm⟩

theorem streamKeeps_throw (halt : Halt) :
    StreamKeeps p₀ (throw halt : ExceptT Halt (StreamM E) α) :=
  fun _ hm => leaves_throw ⟨rfl, hm⟩

theorem StreamKeeps.bind {x : ExceptT Halt (StreamM E) α} {f : α → ExceptT Halt (StreamM E) β}
    (hx : StreamKeeps p₀ x) (hf : ∀ a, StreamKeeps p₀ (f a)) : StreamKeeps p₀ (x >>= f) := by
  intro m hm
  refine (hx m hm).bind ?_ fun _ _ _ h => h
  rintro a m' _ ⟨rfl, hm'⟩
  exact hf a m' hm'

end StreamKeeps

variable [Engine.IsTame E]

/-- A stream which gives a model keeps its governor, and after anything else but a literal out of
range it is closed. -/
theorem streamKeeps_next (h₀ : p₀.IsPristine) : StreamKeeps p₀ (next (E := E)) := by
  intro m hm
  refine .bind_get ?_
  have hlog : ∀ e, Keeps p₀ (logEvent e) m.governors fun _ left => left = m.governors ∧ True :=
    fun e => (drifts_logEvent e).keeps h₀ _
  cases hs : m.solver with
  | none => exact leaves_pure ⟨rfl, hm⟩
  | some s =>
    have hfind := searchDrifts_findModel m.projection m.convention s (hm s hs)
    refine .bind_process (hfind.keeps h₀ _) ?_
    rintro ⟨found, s'⟩ _ ⟨rfl, hs'⟩
    refine .bind_set ?_
    let m' : ModelStream E := { m with solver := some s' }
    have hm' : m'.IsTame := by
      rintro _ ⟨⟩
      exact hs'
    have hclose : Keeps p₀ (close.run m') m.governors fun r left => r.2.Owns left :=
      (keeps_close h₀ m').mono fun _ _ h => h.2
    obtain halt | _ | model := found
    · cases halt with
      | error e =>
        refine .bind_process (hlog _) ?_
        rintro _ _ ⟨rfl, -⟩
        exact .bind_lift (P := fun _ m'' left => m''.Owns left) hclose fun _ _ _ h => leaves_throw h
      | overflow => exact leaves_throw ⟨rfl, hm'⟩
      | outOfAllowance => exact leaves_throw ⟨rfl, hm'⟩
    · refine .bind_process (hlog _) ?_
      rintro _ _ ⟨rfl, -⟩
      exact .bind_lift (P := fun _ m'' left => m''.Owns left) hclose fun _ _ _ h => leaves_pure h
    · refine .bind_set (.bind_process (hlog _) ?_)
      rintro _ _ ⟨rfl, -⟩
      exact leaves_pure ⟨rfl, hm'⟩

theorem streamKeeps_take (h₀ : p₀.IsPristine) (n : Nat) : StreamKeeps p₀ (take (E := E) n) := by
  induction n with
  | zero => exact streamKeeps_pure []
  | succ n ih =>
    refine (streamKeeps_next h₀).bind fun found => ?_
    cases found with
    | none => exact streamKeeps_pure []
    | some model => exact ih.bind fun models => streamKeeps_pure (model :: models)

theorem streamKeeps_restWithin (h₀ : p₀.IsPristine) (n : Nat) :
    StreamKeeps p₀ (restWithin (E := E) n) := by
  induction n with
  | zero => exact streamKeeps_throw _
  | succ n ih =>
    refine (streamKeeps_next h₀).bind fun found => ?_
    cases found with
    | none => exact streamKeeps_pure []
    | some model => exact ih.bind fun models => streamKeeps_pure (model :: models)

/-- Nothing is left of a stream whose models are drained. -/
theorem keeps_drain (h₀ : p₀.IsPristine) {m : ModelStream E} (hm : m.IsTame) :
    Keeps p₀ m.drain.run m.governors fun _ left => left = [] := by
  have hallowance : Drifts (currentAllowance E m.projection.length) fun _ => True :=
    moves_get.bind fun _ _ => moves_pure trivial
  refine (hallowance.keeps h₀ _).bind_process ?_
  rintro allowance _ ⟨rfl, -⟩
  refine Keeps.bind_process (streamKeeps_restWithin h₀ allowance m hm) ?_
  rintro ⟨models, m'⟩ _ ⟨rfl, -⟩
  exact (keeps_close h₀ m').bind_process fun _ _ hleft => keeps_pure hleft.1

end ModelStream

/-! ### The procedures of a session -/

namespace Session

section Body

variable (E)

/-- What a procedure does between arming and disarming. -/
def procedureBody (v : ValueConvention) (f : Formula) (atoms : List Atom) :
    ProcedureKind → ProcedureM (List Clause)
  | .enumerate => do
    let m : ModelStream E ← ModelStream.start f atoms v
    m.drain
  | .single =>
    withSolver (E := E) f do
      let allowance ← currentAllowance E atoms.length
      let implicants ← implicantsWithin atoms v allowance
      Process.logEvent (.implicantsExhausted implicants.length)
      return implicants
  | .dual =>
    withSolver (E := E) f do
      let allowance ← currentAllowance E atoms.length
      let implicants ← dualImplicantsWithin f atoms v allowance
      Process.logEvent (.implicantsExhausted implicants.length)
      return implicants

variable {E}

/-- A procedure checks the formula, and then runs under a governor. -/
theorem runProcedure_eq (c : Config) (f : Formula) (atoms : List Atom) (kind : ProcedureKind) :
    runProcedure (E := E) c f atoms kind = (do
      orFormulaError (f.validate atoms)
      governed c.limits (procedureBody E c.convention f atoms kind)) := by
  cases kind <;> rfl

end Body

variable [Engine.IsTame E] {f : Formula} {atoms : List Atom}

theorem keeps_procedureBody (h₀ : p₀.IsPristine) (v : ValueConvention) (kind : ProcedureKind) :
    Keeps p₀ (procedureBody E v f atoms kind).run [] fun _ left => left = [] := by
  have hR : AdmitsSolvers Drift E := admitsSolvers_drift
  cases kind with
  | enumerate =>
    refine (ModelStream.keeps_start h₀).bind_procedure ?_ fun _ _ hleft => hleft
    rintro m _ ⟨rfl, hm⟩
    exact ModelStream.keeps_drain h₀ hm
  | single =>
    exact ((drifts_withSolver f (hR.law.allWithin hR.law.implicantsWithin _)).keeps h₀ []).mono
      fun _ _ hleft => hleft.1
  | dual =>
    exact ((drifts_withSolver f (hR.law.allWithin (hR.law.dualImplicantsWithin
      (hR.searchMoves_minimise f atoms v)) _)).keeps h₀ []).mono fun _ _ hleft => hleft.1

/-- No procedure leaves a governor. -/
theorem keeps_runProcedure (h₀ : p₀.IsPristine) (c : Config) (f : Formula) (atoms : List Atom)
    (kind : ProcedureKind) :
    Keeps p₀ (runProcedure (E := E) c f atoms kind).run [] fun _ left => left = [] := by
  rw [runProcedure_eq]
  cases f.validate atoms with
  | error e => exact keeps_pure rfl
  | ok u =>
    rw [orFormulaError_ok, pure_bind]
    exact keeps_governed h₀ (keeps_procedureBody h₀ c.convention kind)

end Session

end GovernedSat
