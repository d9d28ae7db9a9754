import GovernedSat.Proofs.Search.DualImplicants
import GovernedSat.Proofs.Search.Keeping
import GovernedSat.Proofs.Search.Streams

/-!
# Solvers which cannot be made

A kind of solver may refuse to make a solver, at the beginning of a procedure or in the course of
it. A procedure does not go on after that. This is expressed by comparing it with the same procedure
where solvers are made in another way, which differs only where none could be made: it does the same
there, unless its result is the error by which a solver was refused.

## Main definitions

* `Engine.remade`, `Engine.Mends` — solvers of the same kind, made in another way.
* `IsRefusal` — the result is the error by which a solver was refused.
* `SearchMatches`, `ProcedureMatches` — computations which do the same unless a solver is refused.
* `dualRound` — a round of the search with two solvers, with other searches as parts.

## Main results

* `procedureMatches_freshSolver` — making a solver.
* `procedureMatches_runProcedure`, `procedureMatches_startUnder` — procedures, and streams under
  limits.
-/

namespace GovernedSat

open Process

/-! ### Making solvers in another way -/

/-- The same kind of solvers, made in another way. -/
@[reducible] def Engine.remade (E : Type) [i : Engine E]
    (create : ProcessM (Except SolverError E)) : Engine E := { i with create }

section

variable {E : Type} [Engine E]

variable (E) in
/-- Solvers are made in another way only where they could not be made. -/
def Engine.Mends (create : ProcessM (Except SolverError E)) : Prop :=
  ∀ p : Process, (∃ e q, (Engine.create (E := E)).run p = pure (.error e, q)) ∨
    create.run p = (Engine.create (E := E)).run p

variable (E) in
/-- The result is the error by which a solver was refused. -/
def IsRefusal {α : Type} (r : Except Halt α) : Prop :=
  ∃ e p q, (Engine.create (E := E)).run p = pure (.error e, q) ∧ r = .error (.error (.solver e))

variable {α β : Type}

/-- The second search does what the first one does, unless that one ends with a refusal. -/
def SearchMatches (x x' : SearchM E α) : Prop :=
  ∀ (s : Solver E) (p : Process), IsRefusal E ((x.run.run s).run p).1.1 ∨
    (x'.run.run s).run p = (x.run.run s).run p

variable (E) in
/-- The second procedure does what the first one does, unless that one ends with a refusal. -/
def ProcedureMatches (x x' : ProcedureM α) : Prop :=
  ∀ p : Process, IsRefusal E (x.run.run p).1 ∨ x'.run.run p = x.run.run p

/-! ### Putting together -/

/-- A refusal ends whatever it is a part of. -/
theorem IsRefusal.of_error {halt : Halt} (h : IsRefusal E (.error halt : Except Halt α)) :
    IsRefusal E (.error halt : Except Halt β) := by
  obtain ⟨e, p, q, hcreate, he⟩ := h
  cases he
  exact ⟨e, p, q, hcreate, rfl⟩

theorem not_isRefusal_ok (a : α) : ¬ IsRefusal E (.ok a) := by
  rintro ⟨_, _, _, -, ⟨⟩⟩

theorem SearchMatches.refl (x : SearchM E α) : SearchMatches x x := fun _ _ => .inr rfl

theorem SearchMatches.bind {x x' : SearchM E α} {f f' : α → SearchM E β} (hx : SearchMatches x x')
    (hf : ∀ a, SearchMatches (f a) (f' a)) : SearchMatches (x >>= f) (x' >>= f') := by
  intro s p
  change IsRefusal E (let r := (x.run.run s).run p;
      ((ExceptT.bindCont f r.1.1).run r.1.2).run r.2).1.1 ∨
    (let r := (x'.run.run s).run p; ((ExceptT.bindCont f' r.1.1).run r.1.2).run r.2) =
      (let r := (x.run.run s).run p; ((ExceptT.bindCont f r.1.1).run r.1.2).run r.2)
  have hfirst := hx s p
  generalize (x'.run.run s).run p = r' at hfirst ⊢
  generalize (x.run.run s).run p = r at hfirst ⊢
  obtain ⟨⟨first, s'⟩, q⟩ := r
  obtain hrefusal | rfl := hfirst
  · cases first with
    | error halt => exact .inl hrefusal.of_error
    | ok a => exact absurd hrefusal (not_isRefusal_ok a)
  · cases first with
    | error halt => exact .inr rfl
    | ok a => exact hf a s' q

theorem ProcedureMatches.refl (x : ProcedureM α) : ProcedureMatches E x x := fun _ => .inr rfl

theorem ProcedureMatches.bind {x x' : ProcedureM α} {f f' : α → ProcedureM β}
    (hx : ProcedureMatches E x x') (hf : ∀ a, ProcedureMatches E (f a) (f' a)) :
    ProcedureMatches E (x >>= f) (x' >>= f') := by
  intro p
  change IsRefusal E (let r := x.run.run p; (ExceptT.bindCont f r.1).run r.2).1 ∨
    (let r := x'.run.run p; (ExceptT.bindCont f' r.1).run r.2) =
      (let r := x.run.run p; (ExceptT.bindCont f r.1).run r.2)
  have hfirst := hx p
  generalize x'.run.run p = r' at hfirst ⊢
  generalize x.run.run p = r at hfirst ⊢
  obtain ⟨first, q⟩ := r
  obtain hrefusal | rfl := hfirst
  · cases first with
    | error halt => exact .inl hrefusal.of_error
    | ok a => exact absurd hrefusal (not_isRefusal_ok a)
  · cases first with
    | error halt => exact .inr rfl
    | ok a => exact hf a q

/-- A procedure in the course of a search. -/
theorem searchMatches_procedure {x x' : ProcedureM α} (hx : ProcedureMatches E x x') :
    SearchMatches (ExceptT.mk (liftM x.run) : SearchM E α) (ExceptT.mk (liftM x'.run)) :=
  fun s p => (hx p).imp_right
    fun h => congrArg (fun r : Except Halt α × Process => ((r.1, s), r.2)) h

/-- What is done after a procedure has ended makes no result of a halt. -/
theorem ProcedureMatches.bind_run {x x' : ProcedureM α} (hx : ProcedureMatches E x x')
    {finish : Except Halt α → ProcedureM β}
    (hfinish : ∀ halt p, ((finish (.error halt)).run.run p).1 = .error halt) :
    ProcedureMatches E (liftM x.run >>= finish) (liftM x'.run >>= finish) := by
  intro p
  simp only [run_process_bind, StateT.run_bind]
  obtain hrefusal | hsame := hx p
  · generalize x.run.run p = r at hrefusal ⊢
    obtain ⟨result, q⟩ := r
    cases result with
    | error halt =>
      refine .inl ?_
      change IsRefusal E ((finish (.error halt)).run.run q).1
      rw [hfinish]
      exact hrefusal.of_error
    | ok a => exact absurd hrefusal (not_isRefusal_ok a)
  · exact .inr (by rw [hsame])

/-- The governor is disarmed, and the result is that of the body. -/
theorem ProcedureMatches.governed {x x' : ProcedureM α} (hx : ProcedureMatches E x x')
    (l : Limits) : ProcedureMatches E (governed l x) (governed l x') := by
  intro p
  obtain ⟨⟨armed, q⟩, harm⟩ : ∃ r, (Governor.arm l).run p = pure r := ⟨_, rfl⟩
  cases armed with
  | error e =>
    rw [run_governed_error harm, run_governed_error harm]
    exact .inr rfl
  | ok g =>
    rw [run_governed_ok harm, run_governed_ok harm]
    obtain hrefusal | hsame := hx q
    · exact .inl hrefusal
    · exact .inr (by rw [hsame])

variable (create : ProcessM (Except SolverError E))

/-! ### Searches which make no solver -/

theorem shrinkWithin_remade (inputs : List Atom) (convention : ValueConvention)
    (facts : FactKeeping) (allowance : Nat) :
    @shrinkWithin E (.remade E create) inputs convention facts allowance =
      shrinkWithin inputs convention facts allowance := by
  induction allowance with
  | zero => rfl
  | succ allowance ih =>
    change (do
      let minim ← forbidMinim inputs convention facts
      if ← isSatisfiable then @shrinkWithin E (.remade E create) inputs convention facts allowance
      else return minim) = _
    rw [ih]
    rfl

theorem shrinkModel_remade (inputs : List Atom) (convention : ValueConvention)
    (facts : FactKeeping) :
    @shrinkModel E (.remade E create) inputs convention facts =
      shrinkModel inputs convention facts := by
  change (do
    let allowance ← currentAllowance E inputs.length
    @shrinkWithin E (.remade E create) inputs convention facts allowance : SearchM E _) = _
  simp only [shrinkWithin_remade]
  rfl

theorem implicantsWithin_remade (inputs : List Atom) (convention : ValueConvention)
    (allowance : Nat) :
    @implicantsWithin E (.remade E create) inputs convention allowance =
      implicantsWithin inputs convention allowance := by
  induction allowance with
  | zero => rfl
  | succ allowance ih =>
    change (do
      if ← isSatisfiable then
        let minim ← @shrinkModel E (.remade E create) inputs convention .byAssumption
        Process.logEvent (.implicantFound (minim.map Literal.positive))
        return minim.map Literal.positive ::
          (← @implicantsWithin E (.remade E create) inputs convention allowance)
      else return []) = _
    rw [ih, shrinkModel_remade]
    rfl

theorem restWithin_remade (allowance : Nat) (m : ModelStream E) :
    (@ModelStream.restWithin E (.remade E create) allowance).run.run m =
      (ModelStream.restWithin allowance).run.run m := by
  induction allowance generalizing m with
  | zero => rfl
  | succ allowance ih =>
    rw [ModelStream.run_restWithin_succ (E := E),
      @ModelStream.run_restWithin_succ E (.remade E create)]
    simp only [ih]
    rfl

theorem drain_remade (m : ModelStream E) :
    @ModelStream.drain E (.remade E create) m = m.drain := by
  have hdrain : ∀ allowance, @ModelStream.drainWithin E (.remade E create) allowance m =
      ModelStream.drainWithin allowance m := by
    intro allowance
    change (do
      let r ← (@ModelStream.restWithin E (.remade E create) allowance).run.run m
      let _ ← ModelStream.close.run r.2
      return r.1) = _
    rw [restWithin_remade]
    rfl
  change (do
    let allowance ← currentAllowance E m.projection.length
    @ModelStream.drainWithin E (.remade E create) allowance m) = _
  simp only [hdrain]
  rfl

/-! ### A fresh solver -/

section FreshSolvers

variable {create}

/-- **Making a solver.** -/
theorem procedureMatches_freshSolver (h : Engine.Mends E create) (f : Formula) :
    ProcedureMatches E (freshSolver f) (@freshSolver E (.remade E create) f) := by
  intro p
  obtain ⟨e, q, hcreate⟩ | hsame := h p
  · rw [run_freshSolver_error f hcreate]
    exact .inl ⟨e, p, q, hcreate, rfl⟩
  · -- The way in which solvers are made matters for the process at hand only.
    have hrun : ∀ c, (@freshSolver E (.remade E c) f).run.run p =
        (@freshSolver E (.remade E fun _ => c.run p) f).run.run p := fun _ => rfl
    rw [hrun create, hsame]
    exact .inr rfl

theorem procedureMatches_withSolver (h : Engine.Mends E create) (f : Formula)
    {body body' : SearchM E α} (hbody : SearchMatches body body') :
    ProcedureMatches E (withSolver f body) (@withSolver E (.remade E create) α f body') := by
  refine ProcedureMatches.bind (procedureMatches_freshSolver h f) fun s p => ?_
  refine (hbody s p).imp_right fun hsame => ?_
  exact congrArg (fun r : (Except Halt α × Solver E) × Process =>
    (r.1.1, (r.1.2.release.run r.2).2)) hsame

end FreshSolvers

/-! ### The search with two solvers -/

/-- A round of the search, with a search for a minimal set in a model, before the rest of it. -/
def dualRound (f : Formula) (convention : ValueConvention)
    (minimise : SparseValuation → ProcedureM (List Atom)) (rest : SearchM E (List Clause)) :
    SearchM E (List Clause) := do
  if ← isSatisfiable then
    let model ← orOverflow (modelOn (← get) f convention)
    let minim ← ExceptT.mk (liftM (minimise model).run)
    let implicant : Clause ← orOverflow
      (minim.mapM fun a => Literal.ofAtom? a (Valuation.satisfies model (Literal.positive a)))
    Process.logEvent (.implicantFound implicant)
    onSolver (Solver.addClause (← orOverflow implicant.negation?))
    return implicant :: (← rest)
  else return []

theorem searchMatches_dualRound (f : Formula) (convention : ValueConvention)
    {minimise minimise' : SparseValuation → ProcedureM (List Atom)}
    {rest rest' : SearchM E (List Clause)}
    (hminimise : ∀ model, ProcedureMatches E (minimise model) (minimise' model))
    (hrest : SearchMatches rest rest') :
    SearchMatches (dualRound f convention minimise rest)
      (dualRound f convention minimise' rest') := by
  unfold dualRound
  apply SearchMatches.bind (.refl _)
  intro found
  split
  · refine (SearchMatches.refl _).bind fun s => (SearchMatches.refl _).bind fun model =>
      (searchMatches_procedure (hminimise model)).bind fun minim => ?_
    refine (SearchMatches.refl _).bind fun implicant => (SearchMatches.refl _).bind fun _ => ?_
    refine (SearchMatches.refl _).bind fun negation => (SearchMatches.refl _).bind fun _ => ?_
    exact hrest.bind fun _ => .refl _
  · exact .refl _

/-- All prime implicants, by a search for those which are left. -/
theorem searchMatches_allWithin {search search' : Nat → SearchM E (List Clause)}
    (hsearch : ∀ allowance, SearchMatches (search allowance) (search' allowance)) (atoms : Nat) :
    SearchMatches (do
      let implicants ← search (← currentAllowance E atoms)
      Process.logEvent (.implicantsExhausted implicants.length)
      return implicants) (do
      let implicants ← search' (← currentAllowance E atoms)
      Process.logEvent (.implicantsExhausted implicants.length)
      return implicants) := by
  apply SearchMatches.bind (.refl _)
  exact fun allowance => (hsearch allowance).bind fun _ => .refl _

variable {create} (h : Engine.Mends E create) (f : Formula) (inputs : List Atom)
  (convention : ValueConvention)
include h

theorem procedureMatches_minimise (model : SparseValuation) :
    ProcedureMatches E (minimise E f inputs convention model)
      (@minimise E (.remade E create) f inputs convention model) := by
  rw [minimise_eq, @minimise_eq E (.remade E create), shrinkModel_remade create]
  exact procedureMatches_withSolver h [] (.refl _)

theorem searchMatches_dualImplicantsWithin (allowance : Nat) :
    SearchMatches (dualImplicantsWithin f inputs convention allowance)
      (@dualImplicantsWithin E (.remade E create) f inputs convention allowance) := by
  induction allowance with
  | zero => exact .refl _
  | succ allowance ih =>
    exact searchMatches_dualRound f convention (procedureMatches_minimise h f inputs convention) ih

/-! ### Procedures and streams -/

theorem procedureMatches_start : ProcedureMatches E (ModelStream.start f inputs convention)
    (@ModelStream.start E (.remade E create) f inputs convention) := by
  apply ProcedureMatches.bind (.refl _)
  exact fun _ => (procedureMatches_freshSolver h f).bind fun _ => .refl _

/-- **The bodies of procedures.** -/
theorem procedureMatches_procedureBody (kind : ProcedureKind) :
    ProcedureMatches E (Session.procedureBody E convention f inputs kind)
      (@Session.procedureBody E (.remade E create) convention f inputs kind) := by
  cases kind with
  | enumerate =>
    refine (procedureMatches_start h f inputs convention).bind fun m => ?_
    rw [drain_remade create m]
    exact .refl _
  | single =>
    have hsearch : ∀ allowance, SearchMatches (implicantsWithin inputs convention allowance)
        (@implicantsWithin E (.remade E create) inputs convention allowance) := fun allowance => by
      rw [implicantsWithin_remade create]
      exact .refl _
    exact procedureMatches_withSolver h f (searchMatches_allWithin hsearch _)
  | dual =>
    exact procedureMatches_withSolver h f (searchMatches_allWithin
      (searchMatches_dualImplicantsWithin h f inputs convention) _)

/-- **Procedures.** -/
theorem procedureMatches_runProcedure (c : Config) (kind : ProcedureKind) :
    ProcedureMatches E (Session.runProcedure (E := E) c f inputs kind)
      (@Session.runProcedure E (.remade E create) c f inputs kind) := by
  rw [Session.runProcedure_eq (E := E), @Session.runProcedure_eq E (.remade E create)]
  apply ProcedureMatches.bind (.refl _)
  exact fun _ => (procedureMatches_procedureBody h f inputs c.convention kind).governed c.limits

/-- **Streams under limits.** -/
theorem procedureMatches_startUnder (c : Config) :
    ProcedureMatches E (ModelStream.startUnder c f inputs)
      (@ModelStream.startUnder E (.remade E create) c f inputs) := by
  apply ProcedureMatches.bind (.refl _)
  intro _
  apply ProcedureMatches.bind (.refl _)
  intro armed
  apply ProcedureMatches.bind (.refl _)
  intro g
  apply (procedureMatches_start h f inputs c.convention).bind_run
  exact fun _ _ => rfl

end

end GovernedSat
