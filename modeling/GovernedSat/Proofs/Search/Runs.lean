import GovernedSat.Proofs.Search.Answers
import GovernedSat.Proofs.Search.Moves
import GovernedSat.Proofs.Search.Streams

/-!
# Runs of streams

A stream which is asked for models again and again gives finitely many, and then an answer which is
no model. That there is such an answer is due to the solver: with every model something decreases,
which is less than the allowance of the solver at first. So the models which are left can be found
at once, and a governor which the stream owns is disarmed in the end.

## Main definitions

* `ModelStream.Runs` — a stream from request to request, up to an answer which is no model.
* `ModelStream.collected` — what the models found one at a time are at once.
* `ModelStream.Descends`, `Engine.IsBounded` — solvers with which every run ends.

## Main results

* `ModelStream.Descends.exists_runs` — every run ends.
* `ModelStream.Runs.run_restWithin` — the models which are left, at once.
* `ModelStream.Runs.governed` — runs of a stream which owns a governor.
-/

namespace GovernedSat

open Process

variable {E : Type} [Engine E]

namespace ModelStream

variable {m m' : ModelStream E} {p p' q : Process} {models : List Clause} {outcome : Option Error}
  {P : List Atom} {convention : ValueConvention}

/-! ### Runs -/

/-- Asked for models in the process `p`, the stream `m` gives `models` one after another, and then
no model: there is none left, or there is an error, which is the outcome. The stream and the process
are left as `m'` and `q`. -/
inductive Runs : ModelStream E → Process → List Clause → Option Error → ModelStream E → Process →
    Prop
  /-- There is no model left. -/
  | ended {m m' : ModelStream E} {p q : Process}
      (h : ((next (E := E)).run.run m).run p = pure ((.ok none, m'), q)) :
      Runs m p [] none m' q
  /-- There is an error. -/
  | failed {m m' : ModelStream E} {p q : Process} {e : Error}
      (h : ((next (E := E)).run.run m).run p = pure ((.error (.error e), m'), q)) :
      Runs m p [] (some e) m' q
  /-- A model is found. -/
  | found {m m' m'' : ModelStream E} {p q q' : Process} {model : Clause} {models : List Clause}
      {outcome : Option Error}
      (h : ((next (E := E)).run.run m).run p = pure ((.ok (some model), m'), q))
      (rest : Runs m' q models outcome m'' q') : Runs m p (model :: models) outcome m'' q'

/-- All models found, unless there was an error. -/
def collected (models : List Clause) : Option Error → Except Halt (List Clause)
  | none => .ok models
  | some e => .error (.error e)

/-- The models are found at once if they are fewer than allowed. -/
theorem Runs.run_restWithin (h : m.Runs p models outcome m' q) {allowance : Nat}
    (hlt : models.length < allowance) :
    ((restWithin allowance).run.run m).run p = pure ((collected models outcome, m'), q) := by
  induction h generalizing allowance with
  | ended h =>
    obtain ⟨n, rfl⟩ := Nat.exists_eq_add_of_lt hlt
    rw [run_restWithin_succ, StateT.run_bind, h]
    rfl
  | failed h =>
    obtain ⟨n, rfl⟩ := Nat.exists_eq_add_of_lt hlt
    rw [run_restWithin_succ, StateT.run_bind, h]
    rfl
  | @found m m' m'' p q q' model models outcome h _ ih =>
    obtain ⟨n, rfl⟩ := Nat.exists_eq_add_of_lt hlt
    rw [run_restWithin_succ, StateT.run_bind, h, pure_bind]
    dsimp only
    rw [StateT.run_bind, ih (by rw [List.length_cons]; omega), pure_bind]
    cases outcome <;> rfl

/-- A run exhausts its stream. -/
theorem Runs.isExhausted (h : m.Runs p models outcome m' q)
    (hm : m.isExhausted = true → m.governor = none) :
    m'.isExhausted = true ∧ m'.governor = none := by
  induction h with
  | ended h =>
    have hleft := isLeftWith_next hm h
    exact ⟨hleft.isExhausted, hleft.governor⟩
  | failed h =>
    have hleft := isLeftWith_next hm h
    exact ⟨hleft.isExhausted, hleft.governor⟩
  | found h _ ih =>
    have hleft := isLeftWith_next hm h
    exact ih fun hx => absurd (hleft.isExhausted.symm.trans hx) nofun

/-- The stream with a governor. -/
def withGovernor (m : ModelStream E) (g : Governor) : ModelStream E :=
  { m with governor := some g }

/-- The next model of a stream with a governor. -/
theorem run_next_withGovernor {g : Governor} {a : Except Halt (Option Clause)}
    (hm : m.governor = none) (hx : m.isExhausted = false)
    (h : ((next (E := E)).run.run m).run p = pure ((a, m'), q)) :
    ((next (E := E)).run.run (m.withGovernor g)).run p =
      (disarmIfExhausted g (a, m')).run q := by
  have hu : (m.withGovernor g).ungoverned = m := by
    obtain ⟨solver, projection, convention, count, governor⟩ := m
    subst hm
    rfl
  rw [run_next_governed (m := m.withGovernor g) rfl hx, hu, StateT.run_bind, h]
  rfl

/-- The governor is disarmed in the end. -/
theorem Runs.withGovernor {g : Governor} (h : m.Runs p models outcome m' q)
    (hm : m.governor = none) (hx : m.isExhausted = false) :
    (m.withGovernor g).Runs p models outcome m' (g.disarm.run q).2 := by
  induction h with
  | ended h =>
    refine .ended ?_
    rw [run_next_withGovernor hm hx h,
      disarmIfExhausted_eq_of_isExhausted (isLeftWith_next (fun _ => hm) h).isExhausted]
    rfl
  | failed h =>
    refine .failed ?_
    rw [run_next_withGovernor hm hx h,
      disarmIfExhausted_eq_of_isExhausted (isLeftWith_next (fun _ => hm) h).isExhausted]
    rfl
  | @found m m' _ p q _ model _ _ h _ ih =>
    have hleft := isLeftWith_next (fun _ => hm) h
    have hx' : m'.isExhausted = false := hleft.isExhausted
    refine .found ?_ (ih (hleft.governor.trans hm) hx')
    rw [run_next_withGovernor hm hx h, disarmIfExhausted_eq_of_not hx']
    rfl

/-! ### Runs which end -/

/-- With each model found by a solver of which `I` is true, `rank` decreases, which depends on the
solver and on the script. -/
def Descends (P : List Atom) (convention : ValueConvention) (I : Solver E → Prop)
    (rank : Solver E → List ScriptStep → Nat) : Prop :=
  ∀ (s : Solver E) (p : Process), I s → ∃ report s' q,
    (Solver.solve.run s).run p = pure ((some report, s'), q) ∧
      (report = .satisfiable → (∀ a, (s'.value? a).isSome) ∧
        let t := (found P convention s' report).2
        I t ∧ rank t q.script < rank s p.script)

/-- **Every run of a stream ends**, after as many models as the rank says at most. -/
theorem Descends.exists_runs {I : Solver E → Prop} {rank : Solver E → List ScriptStep → Nat}
    (h : Descends P convention I rank) (hP : ∀ a ∈ P, a.InRange) (hm : m.projection = P)
    (hm' : m.convention = convention) {s : Solver E} (hs : m.solver = some s) (hI : I s)
    (p : Process) :
    ∃ models outcome m' q, m.Runs p models outcome m' q ∧ models.length ≤ rank s p.script := by
  induction hn : rank s p.script using Nat.strong_induction_on generalizing m s p with
  | _ n ih =>
  subst hm hm' hn
  obtain ⟨report, s', q, hsolve, hreport⟩ := h s p hI
  obtain ⟨q', -, hagree, ⟨b, -, hc⟩ | ⟨-, hc⟩⟩ := checkpoint_cases q
  · obtain ⟨m', q'', hnext⟩ := exists_run_next hs (run_findModel_error hsolve hc)
    exact ⟨_, _, _, _, .failed hnext, Nat.zero_le _⟩
  · obtain ⟨journal, log, hfind⟩ := run_findModel_ok hsolve hc hP fun hr => (hreport hr).1
    cases report with
    | satisfiable =>
      obtain ⟨-, hI', hlt⟩ := hreport rfl
      let t := (ModelStream.found m.projection m.convention s' .satisfiable).2
      let next : ModelStream E := { m with solver := some t, count := m.count + 1 }
      have hnext : next.projection = m.projection := rfl
      obtain ⟨models, outcome, m', q'', hrest, hle⟩ := ih _ hlt hnext rfl rfl hI'
        { q' with journal, log := log.push (.modelFound (m.count + 1) _) }
        (congrArg _ hagree.script)
      refine ⟨_, _, _, _, .found (run_next_of_findModel hs hfind) hrest, ?_⟩
      rw [List.length_cons]
      omega
    | unsatisfiable =>
      obtain ⟨m', q'', hnext⟩ := exists_run_next hs hfind
      exact ⟨_, _, _, _, .ended hnext, Nat.zero_le _⟩
    | interrupted =>
      obtain ⟨m', q'', hnext⟩ := exists_run_next hs hfind
      exact ⟨_, _, _, _, .failed hnext, Nat.zero_le _⟩

end ModelStream

/-- A kind of solver with which every run ends within the allowance, for every formula which meets
the contract of a call. -/
class Engine.IsBounded (E : Type) [Engine E] : Prop where
  /-- The rank is less than the allowance when a solver was made. -/
  descends : ∀ {f : Formula} {P : List Atom} (convention : ValueConvention),
    f.validate P = .ok () → ∃ (I : Solver E → Prop) (rank : Solver E → List ScriptStep → Nat),
      ModelStream.Descends P convention I rank ∧
        ∀ (p : Process) (s : Solver E) (q : Process),
          (freshSolver f).run.run p = pure (.ok s, q) →
            I s ∧ rank s q.script < Engine.allowance E q P.length

namespace ModelStream

/-- A stream which was started has a run, and its models are fewer than allowed. -/
theorem exists_runs_of_start [Engine.IsBounded E] {f : Formula} {P : List Atom}
    {convention : ValueConvention} {p q : Process} {m : ModelStream E}
    (hf : f.validate P = .ok ())
    (h : (start (E := E) f P convention).run.run p = pure (.ok m, q)) :
    m.projection = P ∧ m.governor = none ∧ m.isExhausted = false ∧
      ∃ models outcome m' q', m.Runs q models outcome m' q' ∧
        models.length < Engine.allowance E q P.length := by
  obtain ⟨I, rank, hdescends, hfresh⟩ := Engine.IsBounded.descends (E := E) convention hf
  rw [run_start hf, StateT.run_bind] at h
  obtain ⟨⟨r, p'⟩, hrun⟩ : ∃ r, (freshSolver (E := E) f).run.run p = pure r := ⟨_, rfl⟩
  rw [hrun, pure_bind] at h
  cases r with
  | error halt => cases h
  | ok s =>
    cases h
    obtain ⟨hI, hlt⟩ := hfresh p s p' hrun
    refine ⟨rfl, rfl, rfl, ?_⟩
    obtain ⟨models, outcome, m', q', hruns, hle⟩ :=
      hdescends.exists_runs (m := { solver := some s, projection := P, convention })
        (Formula.atomInRange_of_validate hf) rfl rfl rfl hI p'
    exact ⟨models, outcome, m', q', hruns, Nat.lt_of_le_of_lt hle hlt⟩

end ModelStream

end GovernedSat
