import GovernedSat.Proofs.Search.DualImplicants
import GovernedSat.Proofs.Search.Laziness
import GovernedSat.Proofs.Search.StreamMoves

/-!
# Outcomes of searches

A solver may answer whatever it likes, and the process may be in any state: what a procedure
reports is still made of the atoms it was asked about, and a literal is never out of range unless
the solver itself leaves the range. It ends early with an error, which is never one of the formula.

Only that a search comes to an end depends on the solver. It does when satisfiable solves are taken
from a *budget* which is less than the allowance of the solver, as the steps of a script are.

## Main definitions

* `SolveBudget` — what is left of satisfiable solves.
* `SolveBudget.free`, `SolveBudget.script` — no budget at all, and the steps of a script.
* `SolveBudget.Finds`, `SolveBudget.Concludes` — the outcomes of searches and of procedures.
* `ProcedureKind.IsWellFormed` — the sets which a procedure may report.

## Main results

* `SolveBudget.finds_implicantsWithin`, `SolveBudget.finds_dualImplicantsWithin`,
  `SolveBudget.concludes_drain` — the searches of the procedures.
* `SolveBudget.meets_runProcedure` — the procedures.
-/

namespace GovernedSat

open Process

variable {E : Type} {α β : Type}

/-! ### Well-formed sets -/

/-- The sets which a procedure may report about atoms. The literals are in range. A model has a
literal for each atom, in order; an implicant has literals for some of the atoms, in order, and they
are positive if it was found with one solver. -/
def ProcedureKind.IsWellFormed (kind : ProcedureKind) (atoms : List Atom) (t : Clause) : Prop :=
  Clause.InRange t ∧
    match kind with
    | enumerate => t.map Literal.atom = atoms
    | single => (t.map Literal.atom).Sublist atoms ∧ ∀ l ∈ t, l.polarity = true
    | dual => (t.map Literal.atom).Sublist atoms

section WellFormed

variable {atoms T : List Atom}

/-- A model has the atoms of the projection, whatever it says of them. -/
theorem isWellFormed_enumerate (h : ∀ a ∈ atoms, a.InRange) {value? : Atom → Option Literal}
    {convention : ValueConvention} {t : Clause}
    (ht : (atoms.mapM fun a =>
      (value? a).bind fun v => Literal.ofAtom? a (convention.holds v)) = some t) :
    ProcedureKind.enumerate.IsWellFormed atoms t := by
  refine (map_eq_of_mapM (fun a ha l hl => ?_) ht).symm
  obtain ⟨v, -, hv⟩ := Option.bind_eq_some_iff.mp hl
  rw [(h a ha).ofAtom?_eq_some] at hv
  cases hv
  exact ⟨(h a ha).atom_signed, (h a ha).inRange_signed⟩

theorem isWellFormed_single (h : ∀ a ∈ atoms, a.InRange) (hT : T.Sublist atoms) :
    ProcedureKind.single.IsWellFormed atoms (T.map Literal.positive) := by
  have hin : ∀ a ∈ T, a.InRange := fun a ha => h a (hT.subset ha)
  refine ⟨List.forall_mem_map.mpr fun a ha => (hin a ha).inRange_positive, ?_,
    List.forall_mem_map.mpr fun a ha => (hin a ha).polarity_signed (b := true)⟩
  have hatoms : T.map (Literal.atom ∘ Literal.positive) = T :=
    (List.map_congr_left fun a ha => (hin a ha).atom_positive).trans (List.map_id' T)
  rwa [List.map_map, hatoms]

theorem isWellFormed_dual (h : ∀ a ∈ atoms, a.InRange) (hT : T.Sublist atoms) (σ : Assignment) :
    ProcedureKind.dual.IsWellFormed atoms (σ.restrict T) := by
  have hin : ∀ a ∈ T, a.InRange := fun a ha => h a (hT.subset ha)
  refine ⟨Assignment.inRange_restrict hin, ?_⟩
  change ((σ.restrict T).map Literal.atom).Sublist atoms
  rwa [Assignment.map_atom_restrict hin]

end WellFormed

/-! ### Budgets -/

/-- A budget of satisfiable solves. It never grows. When it is strict, each satisfiable solve takes
of it, and the solver never leaves the range of the literals. -/
structure SolveBudget (E : Type) [Engine E] where
  /-- What is left of the budget in a process. -/
  left : Process → Nat
  /-- The solves are taken of the budget. -/
  IsStrict : Prop
  admits : AdmitsSolvers (fun p q => left q ≤ left p) E
  value : IsStrict → ∀ (e : E) (a : Atom), (Engine.value? e a).isSome
  solve : IsStrict → ∀ (e : E) (p : Process),
    let r := (Engine.solve e (some stopRequested)).run p
    ∃ report, r.1.1 = some report ∧ (report = .satisfiable → left r.2 < left p)
  allowance : IsStrict → ∀ (p : Process) (atoms : Nat), left p < Engine.allowance E p atoms

namespace SolveBudget

variable [Engine E]

/-- No budget at all. -/
def free (E : Type) [Engine E] : SolveBudget E where
  left _ := 0
  IsStrict := False
  admits :=
    { engine :=
        { create := fun _ => ⟨Nat.le_refl 0, trivial⟩
          solve := fun _ _ _ _ => ⟨Nat.le_refl 0, trivial⟩ }
      call := fun _ _ _ => Nat.le_refl 0
      stopRequested := fun _ => ⟨Nat.le_refl 0, trivial⟩
      checkpoint := fun _ => ⟨Nat.le_refl 0, trivial⟩
      logEvent := fun _ _ => Nat.le_refl 0
      make := fun _ => Nat.le_refl 0
      release := fun _ _ => Nat.le_refl 0 }
  value := False.elim
  solve := False.elim
  allowance := False.elim

variable (B : SolveBudget E)

/-- No more is left of the budget. -/
def Spends (p q : Process) : Prop := B.left q ≤ B.left p

instance : Std.Refl B.Spends := ⟨fun _ => Nat.le_refl _⟩

instance : Trans B.Spends B.Spends B.Spends := ⟨fun h h' => Nat.le_trans h' h⟩

theorem admitsSolvers : AdmitsSolvers B.Spends E := B.admits

theorem obeys_stopRequested : Callback.Obeys B.Spends (some GovernedSat.stopRequested) :=
  Callback.obeys_some B.admitsSolvers.stopRequested

end SolveBudget

section Scripts

variable {form : AnswerForm}

/-- The script does not get longer. -/
def Process.ShortensScript (p q : Process) : Prop := q.script.length ≤ p.script.length

instance : Std.Refl ShortensScript := ⟨fun _ => Nat.le_refl _⟩

instance : Trans ShortensScript ShortensScript ShortensScript := ⟨fun h h' => Nat.le_trans h' h⟩

theorem Process.KeepsScript.shortensScript {p q : Process} (h : p.KeepsScript q) :
    p.ShortensScript q := Nat.le_of_eq (congrArg List.length h)

theorem Scripted.moves_create_shortensScript :
    Moves ShortensScript (@create form) fun _ => True := by
  intro p
  obtain ⟨step, rest, hp, -, hrun⟩ | hrun := @create_cases form p
  · rw [hrun, ShortensScript, hp]
    exact ⟨Nat.le_succ _, trivial⟩
  · rw [hrun]
    exact ⟨Nat.le_refl _, trivial⟩

theorem Scripted.moves_solve_shortensScript (s : Scripted form) {callback : Option Callback}
    (h : Callback.Obeys ShortensScript callback) :
    Moves ShortensScript (s.solve callback) fun _ => True := by
  have hbefore : Moves ShortensScript deliverBefore fun _ => True :=
    fun p => ⟨Nat.le_of_eq (length_script_deliverBefore p), trivial⟩
  have htake : Moves ShortensScript s.takeStep fun _ => True := by
    refine fun p => ⟨?_, trivial⟩
    rw [ShortensScript, script_takeStep, List.length_tail]
    exact Nat.sub_le _ _
  refine hbefore.bind fun _ _ => ?_
  split
  · exact htake
  · next ask =>
    refine (h ask rfl).bind fun stop _ => ?_
    split
    · exact moves_pure trivial
    · exact htake

/-- The steps of the script. -/
def SolveBudget.script (form : AnswerForm) : SolveBudget (Scripted form) where
  left p := p.script.length
  IsStrict := True
  admits :=
    { engine :=
        { create := Scripted.moves_create_shortensScript
          solve := fun s _ h =>
            (s.moves_solve_shortensScript h).bind fun _ _ => moves_pure trivial }
      call := fun _ _ _ => Nat.le_refl _
      stopRequested :=
        AdmitsNoting.keepsScript.moves_stopRequested.of_imp fun _ _ h => h.shortensScript
      checkpoint := AdmitsNoting.keepsScript.moves_checkpoint.of_imp fun _ _ h => h.shortensScript
      logEvent := fun _ _ => Nat.le_refl _
      make := fun _ => Nat.le_refl _
      release := fun _ _ => Nat.le_refl _ }
  value _ _ _ := rfl
  solve _ s p := ⟨((s.solve (some stopRequested)).run p).1.1, rfl,
    fun h => s.length_script_solve p (h.trans_ne nofun)⟩
  allowance _ _ _ := Nat.lt_succ_self _

end Scripts

/-! ### Outcomes -/

namespace SolveBudget

variable [Engine E] (B : SolveBudget E)

/-- What may halt a search: an error which is not one of the formula, and, unless the budget is
strict, a literal out of range or an exhausted allowance. -/
def Expects : Halt → Prop
  | .error e => ∀ e', e ≠ .formula e'
  | .overflow | .outOfAllowance => ¬ B.IsStrict

/-- The outcome is a result of which `post` is true, or a halt which may happen. -/
def Meets (post : α → Prop) : Except Halt α → Prop
  | .ok a => post a
  | .error halt => B.Expects halt

/-- Run in a process with `n` left of the budget, with a solver which asks the governor whether to
stop, the search has an outcome. Of a result, and of what is then left of the budget, `post` is
true. -/
def Finds (x : SearchM E α) (n : Nat) (post : α → Nat → Prop) : Prop :=
  ∀ (s : Solver E) (p : Process), s.terminate = some stopRequested → B.left p = n →
    let r := (x.run.run s).run p
    B.left r.2 ≤ n ∧ r.1.2.terminate = some stopRequested ∧
      B.Meets (fun a => post a (B.left r.2)) r.1.1

/-- The procedure has an outcome in every process, and does not add to the budget. Of a result
`post` is true. -/
def Concludes (x : ProcedureM α) (post : α → Prop) : Prop := Moves B.Spends x.run (B.Meets post)

variable {B} {x : SearchM E α} {n : Nat} {P Q : α → Nat → Prop} {R : β → Nat → Prop}

theorem finds_pure {a : α} (h : P a n) : B.Finds (pure a) n P := by
  rintro s p hs rfl
  exact ⟨Nat.le_refl _, hs, h⟩

theorem finds_throw {halt : Halt} (h : B.Expects halt) :
    B.Finds (throw halt : SearchM E α) n P := by
  rintro s p hs rfl
  exact ⟨Nat.le_refl _, hs, h⟩

theorem Finds.bind {f : α → SearchM E β} (hx : B.Finds x n P)
    (hf : ∀ a m, m ≤ n → P a m → B.Finds (f a) m R) : B.Finds (x >>= f) n R := by
  intro s p hs hp
  obtain ⟨hle, hs', hr⟩ := hx s p hs hp
  have hrun : ((x >>= f).run.run s).run p =
      (let r := (x.run.run s).run p; ((ExceptT.bindCont f r.1.1).run r.1.2).run r.2) := rfl
  rw [hrun]
  generalize (x.run.run s).run p = r at hle hs' hr ⊢
  obtain ⟨⟨a | halt, s'⟩, q⟩ := r
  · exact ⟨hle, hs', hr⟩
  · obtain ⟨hle', hrest⟩ := hf _ _ hle hr s' q hs' rfl
    exact ⟨Nat.le_trans hle' hle, hrest⟩

/-- What may be out of range unless the budget is strict. -/
theorem finds_orOverflow {o : Option α} (h : B.IsStrict → o.isSome)
    (hpost : ∀ a, o = some a → P a n) : B.Finds (orOverflow o) n P := by
  cases o with
  | some a => exact finds_pure (hpost a rfl)
  | none => exact finds_throw fun hstrict => nomatch h hstrict

/-- What concerns the process alone. -/
theorem finds_process {y : ProcessM α} {post : α → Prop} (hy : Moves B.Spends y post) :
    B.Finds (liftM y) n fun a _ => post a := by
  rintro s p hs rfl
  exact ⟨(hy p).1, hs, (hy p).2⟩

theorem Finds.bind_logEvent {e : LogEvent} (he : e.target ≠ .governor)
    {y : SearchM E β} (hy : ∀ m, m ≤ n → B.Finds y m R) :
    B.Finds (do Process.logEvent e; y) n R :=
  (finds_process (moves_modify (B.admitsSolvers.logEvent he))).bind fun _ m hm _ => hy m hm

/-- An operation on the solver comes before the rest. -/
theorem Finds.bind_onSolver {y : SolverM E α} (hy : SolverMoves B.Spends (fun _ => True) y)
    {z : SearchM E β} (hz : ∀ m, m ≤ n → B.Finds z m R) :
    B.Finds (do let _ ← onSolver y; z) n R := by
  have honSolver : B.Finds (onSolver y) n fun _ _ => True := by
    rintro s p hs rfl
    obtain ⟨hle, hpersists⟩ := hy s trivial (hs ▸ B.obeys_stopRequested) p
    exact ⟨hle, hpersists.terminate.trans hs, trivial⟩
  exact honSolver.bind fun _ m hm _ => hz m hm

/-- What is read off the last model comes before the rest. -/
theorem Finds.bind_read (read : (Atom → Option Literal) → Option α) {f : α → SearchM E β}
    (hread : ∀ value?, (∀ a, (value? a).isSome) → (read value?).isSome)
    (hf : ∀ value? a, read value? = some a → B.Finds (f a) n R) :
    B.Finds (get >>= fun s => orOverflow (read s.value?) >>= f) n R := by
  intro s p hs hp
  have hsome : B.IsStrict → (read s.value?).isSome :=
    fun hstrict => hread _ (B.value hstrict s.engine)
  refine (?_ : B.Finds (orOverflow (read s.value?) >>= f) n R) s p hs hp
  refine (finds_orOverflow (P := fun a m => m = n ∧ read s.value? = some a) hsome
    fun a ha => ⟨rfl, ha⟩).bind ?_
  rintro a _ - ⟨rfl, ha⟩
  exact hf _ a ha

/-! ### Solves -/

/-- A satisfiable solve takes of a strict budget. -/
theorem finds_isSatisfiable :
    B.Finds (isSatisfiable : SearchM E Bool) n fun found m =>
      B.IsStrict → found = true → m < n := by
  have hsolve : B.Finds (onSolver Solver.solve : SearchM E (Option Report)) n fun r m =>
      B.IsStrict → ∃ report, r = some report ∧ (report = .satisfiable → m < n) := by
    rintro s p hs rfl
    let p' : Process := p.journaled (.solve s.id)
    have hcall : B.Spends p p' := B.admitsSolvers.call (c := .solve s.id) trivial rfl p
    have hmoves := (B.admitsSolvers.engine.solve s.engine (hs ▸ B.obeys_stopRequested) p').1
    refine ⟨Nat.le_trans hmoves hcall, hs, fun hstrict => ?_⟩
    obtain ⟨report, hreport, hlt⟩ := B.solve hstrict s.engine p'
    rw [← hs] at hreport hlt
    exact ⟨report, hreport, fun h => Nat.lt_of_lt_of_le (hlt h) hcall⟩
  refine hsolve.bind fun r m _ hr => ?_
  refine (finds_orOverflow (P := fun report k => k = m ∧
    (B.IsStrict → report = .satisfiable → m < n)) ?_ ?_).bind ?_
  · rintro hstrict
    obtain ⟨report, rfl, -⟩ := hr hstrict
    rfl
  · rintro report rfl
    refine ⟨rfl, fun hstrict => ?_⟩
    obtain ⟨_, ⟨⟩, hlt⟩ := hr hstrict
    exact hlt
  rintro report _ - ⟨rfl, hlt⟩
  refine (finds_process B.admitsSolvers.checkpoint).bind fun passed k hk _ => ?_
  cases passed with
  | error e => exact finds_throw nofun
  | ok u =>
    rw [orLimitError_ok, pure_bind]
    refine Finds.bind_logEvent (e := .solved report) nofun fun j hj => ?_
    cases report with
    | satisfiable => exact finds_pure fun hstrict _ => by have := hlt hstrict rfl; omega
    | unsatisfiable => exact finds_pure nofun
    | interrupted => exact finds_throw nofun

/-! ### Shrinking -/

section Shrinking

variable {inputs : List Atom} {convention : ValueConvention}

/-- Whatever the values are, the inputs which count as true are some of the inputs. -/
theorem finds_forbidMinim (hi : ∀ a ∈ inputs, a.InRange) (facts : FactKeeping) :
    B.Finds (forbidMinim inputs convention facts) n fun minim _ => minim.Sublist inputs := by
  have hkeep : ∀ l, SolverMoves B.Spends (fun _ => True) (facts.keep (E := E) l) := by
    intro l
    cases facts with
    | byAssumption => exact B.admitsSolvers.law.operates_assume l
    | byClause => exact B.admitsSolvers.law.addClause [l]
  refine Finds.bind_read (fun value? => inputs.mapM fun a =>
    (value? a).map fun v => (a, convention.holds v)) ?_ fun value? values hvalues => ?_
  · exact fun value? h => isSome_mapM fun a _ => by rw [Option.isSome_map]; exact h a
  obtain ⟨hatoms, -⟩ : values.map Prod.fst = inputs ∧ ∀ x ∈ values, True := by
    refine map_eq_of_mapM (fun a _ x hx => ?_) hvalues
    obtain ⟨v, -, rfl⟩ := Option.map_eq_some_iff.mp hx
    exact ⟨rfl, trivial⟩
  rw [List.partition_eq_filter_filter]
  have hsub : ∀ p : Atom × Bool → Bool, ((values.filter p).map Prod.fst).Sublist inputs :=
    fun p => hatoms ▸ List.filter_sublist.map Prod.fst
  refine Finds.bind_logEvent (e := .shrinking _) nofun fun m _ => ?_
  refine (finds_orOverflow (P := fun _ _ => True) (fun _ => ?_) fun _ _ => trivial).bind
    fun negated m' _ _ => ?_
  · exact isSome_mapM fun a ha => by rw [(hi a ((hsub _).subset ha)).ofAtom?_eq_some]; rfl
  refine (finds_orOverflow (P := fun _ _ => True) (fun _ => ?_) fun _ _ => trivial).bind
    fun kept m'' _ _ => ?_
  · refine isSome_mapM fun x hx => ?_
    rw [(hi x.1 ((hsub _).subset (List.mem_map_of_mem hx))).ofAtom?_eq_some]
    rfl
  exact Finds.bind_onSolver (SolverMoves.bind (B.admitsSolvers.law.addClause negated) fun _ =>
    B.admitsSolvers.law.forM hkeep kept) fun _ _ => finds_pure (hsub _)

theorem finds_shrinkWithin (hi : ∀ a ∈ inputs, a.InRange) (facts : FactKeeping)
    {allowance : Nat} (h : B.IsStrict → n < allowance) :
    B.Finds (shrinkWithin inputs convention facts allowance) n
      fun minim _ => minim.Sublist inputs := by
  induction allowance generalizing n with
  | zero => exact finds_throw fun hstrict => nomatch h hstrict
  | succ allowance ih =>
    refine (finds_forbidMinim hi facts).bind fun minim m hm hminim => ?_
    refine finds_isSatisfiable.bind fun found k hk hfound => ?_
    split
    · next hsat =>
      refine ih fun hstrict => ?_
      have := hfound hstrict hsat
      have := h hstrict
      omega
    · exact finds_pure hminim

/-- The allowance is more than is left of the budget. -/
theorem finds_currentAllowance (atoms : Nat) :
    B.Finds (liftM (currentAllowance E atoms)) n fun allowance m =>
      m = n ∧ (B.IsStrict → n < allowance) := by
  rintro s p hs rfl
  exact ⟨Nat.le_refl _, hs, rfl, fun hstrict => B.allowance hstrict p atoms⟩

/-- **Shrinking gives some of the inputs**, in order. -/
theorem finds_shrinkModel (hi : ∀ a ∈ inputs, a.InRange) (facts : FactKeeping) :
    B.Finds (shrinkModel (E := E) inputs convention facts) n
      fun minim _ => minim.Sublist inputs := by
  refine (finds_currentAllowance _).bind ?_
  rintro allowance _ - ⟨rfl, h⟩
  exact finds_shrinkWithin hi facts h

end Shrinking

/-! ### Prime implicants -/

section Implicants

variable {inputs : List Atom} {convention : ValueConvention} {f : Formula}

/-- A solver is made which asks the governor whether to stop, or none is made. -/
theorem concludes_freshSolver (f : Formula) :
    B.Concludes (freshSolver f) fun s : Solver E => s.terminate = some stopRequested := by
  refine B.admitsSolvers.moves_make.bind_process fun made hmade => ?_
  cases made with
  | error e => exact moves_pure nofun
  | ok s =>
    rw [orSolverError_ok, pure_bind]
    exact (B.admitsSolvers.moves_load f trivial (hmade s rfl)).bind_process fun r hr =>
      Moves.bind_process (moves_modify (B.admitsSolvers.logEvent (e := .loaded f.length) nofun))
      fun _ _ => moves_pure hr.2

/-- A search with a fresh solver has the outcomes of the search, or no solver is made. -/
theorem concludes_withSolver {post : α → Prop} (f : Formula) {body : SearchM E α}
    (h : ∀ n, B.Finds body n fun a _ => post a) : B.Concludes (withSolver f body) post := by
  rw [Concludes, run_withSolver]
  refine Moves.bind (concludes_freshSolver f) fun r hr => ?_
  cases r with
  | error halt => exact moves_pure hr
  | ok s =>
    refine Moves.bind (P := fun r : Except Halt α × Solver E => B.Meets post r.1) ?_ fun r hr =>
      (B.admitsSolvers.releases.moves_release r.2).bind fun _ _ => moves_pure hr
    intro p
    obtain ⟨hle, -, hmeets⟩ := h _ s p hr rfl
    exact ⟨hle, hmeets⟩

/-- The single variant reports positive literals of some of the inputs. -/
theorem finds_implicantsWithin (hi : ∀ a ∈ inputs, a.InRange) {allowance : Nat}
    (h : B.IsStrict → n < allowance) :
    B.Finds (implicantsWithin inputs convention allowance) n fun ts _ =>
      ∀ t ∈ ts, ProcedureKind.single.IsWellFormed inputs t := by
  induction allowance generalizing n with
  | zero => exact finds_throw fun hstrict => nomatch h hstrict
  | succ allowance ih =>
    refine finds_isSatisfiable.bind fun found m hm hfound => ?_
    split
    · next hsat =>
      refine (finds_shrinkModel hi _).bind fun minim k hk hminim =>
        Finds.bind_logEvent (e := .implicantFound (minim.map .positive)) nofun fun j hj =>
        (ih fun hstrict => ?_).bind fun ts _ _ hts =>
          finds_pure (List.forall_mem_cons.mpr ⟨isWellFormed_single hi hminim, hts⟩)
      have := hfound hstrict hsat
      have := h hstrict
      omega
    · exact finds_pure nofun

/-- The minimiser gives some of the inputs, whatever the model is. -/
theorem concludes_minimise (hi : ∀ a ∈ inputs, a.InRange) (model : SparseValuation) :
    B.Concludes (minimise E f inputs convention model) (·.Sublist inputs) := by
  refine concludes_withSolver [] fun n => ?_
  rw [minimiserClauses_eq hi, orOverflow_some, pure_bind]
  refine Finds.bind_onSolver (B.admitsSolvers.law.addFormula _) fun m _ =>
    finds_isSatisfiable.bind fun found k _ _ => ?_
  split
  · exact finds_shrinkModel hi _
  · exact Finds.bind_logEvent (e := .minimiserWithoutModel) nofun fun _ _ => finds_throw nofun

/-- The variant with two solvers reports literals of some of the inputs. -/
theorem finds_dualImplicantsWithin (hi : ∀ a ∈ inputs, a.InRange) {allowance : Nat}
    (h : B.IsStrict → n < allowance) :
    B.Finds (dualImplicantsWithin f inputs convention allowance) n fun ts _ =>
      ∀ t ∈ ts, ProcedureKind.dual.IsWellFormed inputs t := by
  induction allowance generalizing n with
  | zero => exact finds_throw fun hstrict => nomatch h hstrict
  | succ allowance ih =>
    refine finds_isSatisfiable.bind fun found m hm hfound => ?_
    split
    · next hsat =>
      refine Finds.bind_read (fun value? => (f.atoms.mapM fun a =>
        (value? a).map fun v => (a, convention.holds v)).map SparseValuation.ofList) ?_
        fun value? model _ => ?_
      · intro value? hvalue
        rw [Option.isSome_map]
        exact isSome_mapM fun a _ => by rw [Option.isSome_map]; exact hvalue a
      have hminimise : B.Finds (ExceptT.mk (liftM (minimise E f inputs convention model).run))
          m fun minim _ => minim.Sublist inputs := by
        rintro s p hs rfl
        obtain ⟨hle, hmeets⟩ := concludes_minimise (B := B) (f := f) hi model p
        exact ⟨hle, hs, hmeets⟩
      refine hminimise.bind fun minim k hk hminim => ?_
      let σ : Assignment := fun a => Valuation.satisfies model (Literal.positive a)
      have hin : ∀ a ∈ minim, a.InRange := fun a ha => hi a (hminim.subset ha)
      have himplicant : (minim.mapM fun a => Literal.ofAtom? a
          (Valuation.satisfies model (Literal.positive a))) = some (σ.restrict minim) :=
        mapM_eq_some_map fun a ha => (hin a ha).ofAtom?_eq_some
      rw [himplicant, orOverflow_some, pure_bind]
      refine Finds.bind_logEvent (e := .implicantFound _) nofun fun j hj => ?_
      rw [Clause.negation?_eq_some (Assignment.inRange_restrict hin), orOverflow_some, pure_bind]
      refine Finds.bind_onSolver (B.admitsSolvers.law.addClause _) fun i hi' =>
        (ih fun hstrict => ?_).bind fun ts _ _ hts =>
          finds_pure (List.forall_mem_cons.mpr ⟨isWellFormed_dual hi hminim σ, hts⟩)
      have := hfound hstrict hsat
      have := h hstrict
      omega
    · exact finds_pure nofun

/-- All prime implicants, by a search for those which are left. -/
theorem finds_allWithin {post : List Clause → Prop} {search : Nat → SearchM E (List Clause)}
    (hsearch : ∀ allowance, (B.IsStrict → n < allowance) →
      B.Finds (search allowance) n fun ts _ => post ts) (atoms : Nat) :
    B.Finds (do
      let implicants ← search (← currentAllowance E atoms)
      Process.logEvent (.implicantsExhausted implicants.length)
      return implicants) n fun ts _ => post ts := by
  refine (finds_currentAllowance atoms).bind ?_
  rintro allowance _ - ⟨rfl, h⟩
  exact (hsearch allowance h).bind fun ts _ _ hts =>
    Finds.bind_logEvent (e := .implicantsExhausted ts.length) nofun fun _ _ => finds_pure hts

end Implicants

/-! ### Models -/

section Models

open ModelStream

variable {projection : List Atom} {convention : ValueConvention} {m : ModelStream E} {p : Process}

theorem finds_findModel (hP : ∀ a ∈ projection, a.InRange) :
    B.Finds (findModel projection convention) n fun found k =>
      ∀ t ∈ found, ProcedureKind.enumerate.IsWellFormed projection t ∧ (B.IsStrict → k < n) := by
  refine finds_isSatisfiable.bind fun found k hk hfound => ?_
  split
  · next hsat =>
    refine Finds.bind_read (fun value? => projection.mapM fun a =>
      (value? a).bind fun v => Literal.ofAtom? a (convention.holds v)) ?_ fun value? t ht => ?_
    · refine fun value? hvalue => isSome_mapM fun a ha => ?_
      obtain ⟨v, hv⟩ := Option.isSome_iff_exists.mp (hvalue a)
      rw [hv, Option.bind_some, (hP a ha).ofAtom?_eq_some]
      rfl
    have hwell := isWellFormed_enumerate hP ht
    rw [Clause.negation?_eq_some hwell.1, orOverflow_some, pure_bind]
    refine Finds.bind_onSolver (B.admitsSolvers.law.addClause _) fun j hj => finds_pure ?_
    rintro _ ⟨⟩
    exact ⟨hwell, fun hstrict => Nat.lt_of_le_of_lt hj (hfound hstrict hsat)⟩
  · exact finds_pure nofun

/-- The next model of a stream. -/
theorem meets_next (hm : m.IsUnlimited) (hP : ∀ a ∈ m.projection, a.InRange) (p : Process) :
    let r := ((next (E := E)).run.run m).run p
    B.Meets (fun found => ∀ t ∈ found, ProcedureKind.enumerate.IsWellFormed m.projection t ∧
      (B.IsStrict → B.left r.2 < B.left p)) r.1.1 := by
  cases h : m.solver with
  | none =>
    rw [run_next_none h]
    exact nofun
  | some s =>
    have hs : s.terminate = some stopRequested := hm.isPolite s h
    let r := ((findModel m.projection m.convention).run.run s).run p
    have hfind : B.left r.2 ≤ B.left p ∧ r.1.2.terminate = some stopRequested ∧ B.Meets _ r.1.1 :=
      finds_findModel hP s p hs rfl
    obtain ⟨-, hs', hfound⟩ := hfind
    have hrun : ((next (E := E)).run.run m).run p =
        ((settle m r.1.2 r.1.1).run.run { m with solver := some r.1.2 }).run r.2 := by
      rw [run_next_some h]
      rfl
    have hle := (B.admitsSolvers.releases.moves_settle hm.governor hs' r.1.1 r.2).1
    rw [hrun]
    dsimp only
    rw [(run_settle_fst m r.1.2 r.1.1 r.2).1]
    generalize r.1.1 = found at hfound hle ⊢
    cases found with
    | error halt => exact hfound
    | ok found =>
      exact fun t ht => ⟨(hfound t ht).1, fun hstrict =>
        Nat.lt_of_le_of_lt hle ((hfound t ht).2 hstrict)⟩

/-- The models which are left. -/
theorem meets_restWithin (hm : m.IsUnlimited) (hg : m.governor = none)
    (hP : ∀ a ∈ m.projection, a.InRange) {allowance : Nat}
    (h : B.IsStrict → B.left p < allowance) :
    B.Meets (fun ts => ∀ t ∈ ts, ProcedureKind.enumerate.IsWellFormed m.projection t)
      (((restWithin (E := E) allowance).run.run m).run p).1.1 := by
  induction allowance generalizing m p with
  | zero => exact fun hstrict => nomatch h hstrict
  | succ allowance ih =>
    have hnext := meets_next (B := B) hm hP p
    have hm' := (B.admitsSolvers.moves_next hm p).2
    obtain ⟨⟨⟨found, m'⟩, q⟩, hrun⟩ : ∃ r, ((next (E := E)).run.run m).run p = pure r := ⟨_, rfl⟩
    have hleft := isLeftWith_next (fun _ => hg) hrun
    rw [run_restWithin_succ, StateT.run_bind, hrun, pure_bind]
    rw [hrun] at hnext hm'
    obtain halt | _ | t := found
    · exact hnext
    · exact nofun
    · obtain ⟨ht, hlt⟩ := hnext t rfl
      have hrest := ih (m := m') (p := q) hm' (hleft.governor.trans hg)
        (by rwa [hleft.projection]) fun hstrict => by
          have hq : B.left q < B.left p := hlt hstrict
          have := h hstrict
          omega
      rw [hleft.projection] at hrest
      change B.Meets _ ((((restWithin allowance).run.run m').run q).1.1.map (t :: ·))
      generalize (((restWithin allowance).run.run m').run q).1.1 = rest at hrest ⊢
      cases rest with
      | error halt => exact hrest
      | ok ts => exact List.forall_mem_cons.mpr ⟨ht, hrest⟩

theorem concludes_drain (hm : m.IsUnlimited) (hg : m.governor = none)
    (hP : ∀ a ∈ m.projection, a.InRange) :
    B.Concludes m.drain fun ts =>
      ∀ t ∈ ts, ProcedureKind.enumerate.IsWellFormed m.projection t :=
  fun p => ⟨(B.admitsSolvers.moves_drain hm p).1,
    meets_restWithin hm hg hP fun hstrict => B.allowance hstrict p _⟩

end Models

/-! ### Procedures -/

section Procedures

variable {f : Formula} {atoms : List Atom}

/-- **The body of a procedure reports well-formed sets.** -/
theorem concludes_procedureBody (hf : f.validate atoms = .ok ()) (v : ValueConvention)
    (kind : ProcedureKind) :
    B.Concludes (Session.procedureBody E v f atoms kind) fun ts =>
      ∀ t ∈ ts, kind.IsWellFormed atoms t := by
  have hi := Formula.atomInRange_of_validate hf
  cases kind with
  | enumerate =>
    rw [Concludes, Session.procedureBody, ModelStream.run_start_bind hf]
    refine Moves.bind (concludes_freshSolver f) fun r hr => ?_
    cases r with
    | error halt => exact moves_pure hr
    | ok s =>
      refine concludes_drain (m := { solver := some s, projection := atoms, convention := v })
        ⟨?_, nofun⟩ rfl hi
      rintro _ ⟨⟩
      exact hr
  | single =>
    exact concludes_withSolver f fun n =>
      finds_allWithin (fun _ => finds_implicantsWithin hi) atoms.length
  | dual =>
    exact concludes_withSolver f fun n =>
      finds_allWithin (fun _ => finds_dualImplicantsWithin hi) atoms.length

/-- A procedure whose formula meets the contract reports well-formed sets, or ends with an error
which is not one of the formula. -/
theorem meets_runProcedure (B : SolveBudget E) (hf : f.validate atoms = .ok ()) (c : Config)
    (kind : ProcedureKind) (p : Process) :
    B.Meets (fun ts => ∀ t ∈ ts, kind.IsWellFormed atoms t)
      ((Session.runProcedure (E := E) c f atoms kind).run.run p).1 := by
  rw [Session.runProcedure_eq, hf, orFormulaError_ok, pure_bind]
  obtain ⟨⟨armed, q⟩, harm⟩ : ∃ r, (Governor.arm c.limits).run p = pure r := ⟨_, rfl⟩
  cases armed with
  | error e =>
    rw [run_governed_error harm]
    exact nofun
  | ok g =>
    rw [run_governed_ok harm]
    exact (concludes_procedureBody hf c.convention kind q).2

end Procedures

end SolveBudget

end GovernedSat
