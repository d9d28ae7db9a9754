import GovernedSat.Proofs.Backtracking.Table
import GovernedSat.Proofs.Search.Implicants
import GovernedSat.Proofs.Search.Interruptions
import GovernedSat.Proofs.Search.Outcomes
import GovernedSat.Proofs.Session.Cut

/-!
# Procedures are safe

With the solvers of this library, whatever they answer, a procedure never leaves the range of the
literals, and it always comes to an end: it reports well-formed sets, or else an error. The same is
true of streams, however often they are asked, and whatever becomes of the process in between.

A script decides what a scripted solver answers, so its steps are what bounds a search with it. A
backtracking solver answers correctly, unless the process cuts its search off with an error.

## Main definitions

* `Reports` — a result, or an error.
* `ModelStream.Comes` — the streams which there may be.
* `Engine.IsSafe` — kinds of solvers with which procedures and streams are safe.

## Main results

* `isSafe_scripted`, `isSafe_backtracking` — the kinds of this library.
* `procedures_are_safe` — all of this.
-/

namespace GovernedSat

open Process

/-- The outcome is a result of which `post` is true, or else an error: nothing was out of range, and
no allowance was exhausted. -/
def Reports {α : Type} (post : α → Prop) : Except Halt α → Prop
  | .ok a => post a
  | .error halt => ∃ e, halt = .error e

section

variable {E : Type} [Engine E]

/-- The streams which may come of a formula and a projection: they were started in some process,
bare or under a governor, and were then asked for something any number of times, each time in
whatever process. -/
inductive ModelStream.Comes (f : Formula) (projection : List Atom) : ModelStream E → Prop
  | start {bare : Bool} {c : Config} {p q : Process} {m : ModelStream E}
      (h : (startAs E bare c f projection).run.run p = pure (.ok m, q)) : Comes f projection m
  | ask {m : ModelStream E} (h : Comes f projection m) (r : Request) (p : Process) :
      Comes f projection ((m.ask r).run p).1.2

variable (E) in
/-- With solvers of the kind, procedures and streams report well-formed sets, or errors, for all
formulas, atoms and configurations, and in all processes. -/
structure Engine.IsSafe : Prop where
  /-- Every procedure. -/
  procedure : ∀ (c : Config) (f : Formula) (atoms : List Atom) (kind : ProcedureKind)
    (p : Process), Reports (fun ts => ∀ t ∈ ts, kind.IsWellFormed atoms t)
      ((Session.runProcedure (E := E) c f atoms kind).run.run p).1
  /-- Starting a stream. -/
  start : ∀ (bare : Bool) (c : Config) (f : Formula) (projection : List Atom) (p : Process),
    Reports (fun _ => True) ((ModelStream.startAs E bare c f projection).run.run p).1
  /-- Every answer of a stream. -/
  ask : ∀ {f : Formula} {projection : List Atom} {m : ModelStream E}, m.Comes f projection →
    ∀ (r : ModelStream.Request) (p : Process),
      Reports (fun found => ∀ t ∈ found, ProcedureKind.enumerate.IsWellFormed projection t)
        ((m.ask r).run p).1.1

/-! ### Streams -/

namespace ModelStream

variable {f : Formula} {P : List Atom} {m : ModelStream E} {p q : Process}

/-- The stream is about the projection, and each model which it finds leaves fewer. -/
def IsDescending (P : List Atom) (m : ModelStream E) : Prop :=
  m.projection = P ∧ ∃ (I : Solver E → Prop) (rank : Solver E → List ScriptStep → Nat),
    Descends P m.convention I rank ∧ ∀ s ∈ m.solver, I s

/-- A stream which is exhausted finds nothing any more. -/
theorem IsDescending.of_isLeftWith {m' : ModelStream E} {a : Except Halt (Option Clause)}
    (hm : m.IsDescending P) (h : m.IsLeftWith a m') (ha : isFinal a = true) :
    m'.IsDescending P := by
  obtain ⟨hP, I, rank, hdescends, -⟩ := hm
  refine ⟨h.projection.trans hP, I, rank, h.convention ▸ hdescends, fun s hs => ?_⟩
  have hx := h.isExhausted.trans ha
  rw [isExhausted, Option.isNone_iff_eq_none] at hx
  cases hx.symm.trans hs

/-- **An answer is a well-formed model, none at all, or an error.** -/
theorem IsDescending.ask (hP : ∀ a ∈ P, a.InRange) (hm : m.IsDescending P) (r : Request)
    (p : Process) :
    let a := (m.ask r).run p
    Reports (fun found => ∀ t ∈ found, ProcedureKind.enumerate.IsWellFormed P t) a.1.1 ∧
      a.1.2.IsDescending P := by
  cases r with
  | close => exact ⟨nofun, hm.of_isLeftWith (isLeftWith_close m p) rfl⟩
  | next =>
    cases hs : m.solver with
    | none =>
      rw [ModelStream.ask, run_next_none hs]
      exact ⟨nofun, hm⟩
    | some s =>
      obtain ⟨rfl, I, rank, hdescends, hI⟩ := hm
      obtain ⟨report, s', q, hsolve, hreport⟩ := hdescends s p (hI s hs)
      -- The search for a model has a result, which is settled.
      have hanswer : ∀ {found t q'}, ((findModel m.projection m.convention).run.run s).run p =
          pure ((found, t), q') → isFinal found = true → Reports (fun found => ∀ t ∈ found,
            ProcedureKind.enumerate.IsWellFormed m.projection t) found →
          let a := (m.ask .next).run p
          Reports (fun found => ∀ t ∈ found,
            ProcedureKind.enumerate.IsWellFormed m.projection t) a.1.1 ∧
          a.1.2.IsDescending m.projection := by
        intro found t q' hfind hfinal hfound a
        have ha : a = _ := run_next_of_findModel hs hfind
        obtain ⟨hfst, hleft⟩ := run_settle_fst m t found q'
        rw [ha, hfst]
        exact ⟨hfound, IsDescending.of_isLeftWith ⟨rfl, I, rank, hdescends, hI⟩ hleft hfinal⟩
      obtain ⟨q', -, -, ⟨b, -, hc⟩ | ⟨-, hc⟩⟩ := checkpoint_cases q
      · exact hanswer (run_findModel_error hsolve hc) rfl ⟨_, rfl⟩
      · obtain ⟨journal, log, hfind⟩ := run_findModel_ok hsolve hc hP fun hr => (hreport hr).1
        cases report with
        | satisfiable =>
          rw [ModelStream.ask, run_next_of_findModel hs hfind]
          refine ⟨?_, rfl, I, rank, hdescends, ?_⟩
          · rintro _ ⟨⟩
            exact ⟨Assignment.inRange_restrict hP, Assignment.map_atom_restrict hP⟩
          · rintro _ ⟨⟩
            exact (hreport rfl).2.1
        | unsatisfiable => exact hanswer hfind rfl nofun
        | interrupted => exact hanswer hfind rfl ⟨_, rfl⟩

variable [Engine.IsBounded E] {bare : Bool} {c : Config}

theorem isDescending_start {convention : ValueConvention} (hf : f.validate P = .ok ())
    (h : (start (E := E) f P convention).run.run p = pure (.ok m, q)) : m.IsDescending P := by
  obtain ⟨I, rank, hdescends, hfresh⟩ := Engine.IsBounded.descends (E := E) convention hf
  rw [run_start hf, StateT.run_bind] at h
  obtain ⟨⟨r, p'⟩, hrun⟩ : ∃ r, (freshSolver (E := E) f).run.run p = pure r := ⟨_, rfl⟩
  rw [hrun, pure_bind] at h
  cases r with
  | error halt => cases h
  | ok s =>
    cases h
    refine ⟨rfl, I, rank, hdescends, ?_⟩
    rintro _ ⟨⟩
    exact (hfresh p s p' hrun).1

/-- A stream is started about a formula which meets the contract, or there is an error. -/
theorem startAs_cases (bare : Bool) (c : Config) (f : Formula) (P : List Atom) (p : Process) :
    (∃ e q, (startAs E bare c f P).run.run p = pure (.error (.error e), q)) ∨
      f.validate P = .ok () ∧ ∃ m q, (startAs E bare c f P).run.run p = pure (.ok m, q) ∧
        m.IsDescending P := by
  cases hf : f.validate P with
  | error e =>
    refine .inl ⟨.formula e, p, ?_⟩
    cases bare with
    | true =>
      change (start f P c.convention).run.run p = _
      rw [start, hf]
      rfl
    | false =>
      change (startUnder c f P).run.run p = _
      rw [startUnder, hf]
      rfl
  | ok u =>
    have hstart : ∀ p, (∃ e q, (start (E := E) f P c.convention).run.run p =
        pure (.error (.error (.solver e)), q)) ∨
        ∃ m q, (start (E := E) f P c.convention).run.run p = pure (.ok m, q) ∧
          m.IsDescending P := by
      intro p
      obtain ⟨⟨r, q⟩, h⟩ : ∃ r, (start (E := E) f P c.convention).run.run p = pure r := ⟨_, rfl⟩
      cases r with
      | error halt =>
        obtain ⟨e, rfl⟩ := exists_eq_error hf h
        exact .inl ⟨e, q, h⟩
      | ok m => exact .inr ⟨m, q, h, isDescending_start hf h⟩
    cases bare with
    | true =>
      obtain ⟨e, q, h⟩ | h := hstart p
      · exact .inl ⟨_, q, h⟩
      · exact .inr ⟨rfl, h⟩
    | false =>
      obtain ⟨⟨armed, p₁⟩, harm⟩ : ∃ r, (Governor.arm c.limits).run p = pure r := ⟨_, rfl⟩
      cases armed with
      | error e => exact .inl ⟨_, _, run_startUnder_refused hf harm⟩
      | ok g =>
        obtain ⟨e, q, h⟩ | ⟨m, q, h, hm⟩ := hstart p₁
        · exact .inl ⟨_, _, run_startUnder_error hf harm h⟩
        · exact .inr ⟨rfl, _, _, run_startUnder_ok hf harm h, hm⟩

/-- Every stream there may be goes on to leave fewer models. -/
theorem Comes.isDescending (h : m.Comes f P) : f.validate P = .ok () ∧ m.IsDescending P := by
  induction h with
  | @start bare c p q m h =>
    obtain ⟨e, q', h'⟩ | ⟨hf, m', q', h', hm⟩ := startAs_cases (E := E) bare c f P p
    · cases h.symm.trans h'
    · cases h.symm.trans h'
      exact ⟨hf, hm⟩
  | ask h r p ih =>
    exact ⟨ih.1, (ih.2.ask (Formula.atomInRange_of_validate ih.1) r p).2⟩

end ModelStream

/-- Solvers with which all runs of streams end, and all procedures do, are safe. -/
theorem Engine.IsSafe.of_isBounded [Engine.IsBounded E]
    (h : ∀ (c : Config) (f : Formula) (atoms : List Atom) (kind : ProcedureKind) (p : Process),
      f.validate atoms = .ok () → Reports (fun ts => ∀ t ∈ ts, kind.IsWellFormed atoms t)
        ((Session.runProcedure (E := E) c f atoms kind).run.run p).1) : Engine.IsSafe E where
  procedure c f atoms kind p := by
    cases hf : f.validate atoms with
    | error e =>
      rw [Session.runProcedure_eq, hf]
      exact ⟨.formula e, rfl⟩
    | ok u => exact h c f atoms kind p hf
  start bare c f P p := by
    obtain ⟨e, q, hrun⟩ | ⟨-, m, q, hrun, -⟩ := ModelStream.startAs_cases (E := E) bare c f P p
    · rw [hrun]
      exact ⟨e, rfl⟩
    · rw [hrun]
      trivial
  ask hm r p :=
    (hm.isDescending.2.ask (Formula.atomInRange_of_validate hm.isDescending.1) r p).1

end

/-! ### Procedures -/

/-- A strict budget leaves no way to end but these. -/
theorem SolveBudget.Meets.reports {E α : Type} [Engine E] {B : SolveBudget E} (hB : B.IsStrict)
    {post : α → Prop} {r : Except Halt α} (h : B.Meets post r) : Reports post r := by
  obtain halt | a := r
  · cases halt with
    | error e => exact ⟨e, rfl⟩
    | overflow => exact absurd hB h
    | outOfAllowance => exact absurd hB h
  · exact h

/-- **Whatever a script says, procedures are safe.** -/
theorem isSafe_scripted (form : AnswerForm) : Engine.IsSafe (Scripted form) :=
  .of_isBounded fun c _ _ kind p hf =>
    ((SolveBudget.script form).meets_runProcedure hf c kind p).reports trivial

section Backtracking

variable {k : Coverage} {f : Formula} {atoms : List Atom}

/-- In an idle process the prime implicants are found. -/
theorem exists_run_procedureBody (hf : f.validate atoms = .ok ()) (v : ValueConvention)
    {kind : ProcedureKind} (hkind : kind ≠ .enumerate) {q : Process} (hq : q.IsIdle) :
    ∃ ts, ((Session.procedureBody (Backtracking k) v f atoms kind).run.run q.afterReading).1 =
      .ok ts := by
  let c : Config := .ofLimits {} v
  have hgives : ∃ ts q', (Session.runProcedure (E := Backtracking k) c f atoms kind).run.run q =
      pure (.ok ts, q') := by
    cases kind with
    | enumerate => exact absurd rfl hkind
    | single =>
      obtain ⟨ts, q', -, hrun, -⟩ := (gives_oneSolverImplicants (c := c) hf rfl).exists_run hq
      exact ⟨ts, q', hrun⟩
    | dual =>
      obtain ⟨ts, q', -, hrun, -⟩ := (gives_twoSolverImplicants (c := c) hf rfl).exists_run hq
      exact ⟨ts, q', hrun⟩
  obtain ⟨ts, q', hrun⟩ := hgives
  rw [Session.runProcedure_eq, hf, orFormulaError_ok, pure_bind,
    run_governed_unbounded (by rfl)] at hrun
  exact ⟨ts, congrArg Prod.fst hrun⟩

/-- The bodies which look for prime implicants do in any process what they do in an idle one. -/
theorem procedureTwins_procedureBody (hf : f.validate atoms = .ok ()) (v : ValueConvention)
    {kind : ProcedureKind} (hkind : kind ≠ .enumerate) :
    ProcedureTwins (Session.procedureBody (Backtracking k) v f atoms kind) := by
  have hzero := Formula.zero_notMem_of_validate hf
  cases kind with
  | enumerate => exact absurd rfl hkind
  | single =>
    exact procedureTwins_withSolver hzero
      ((twinLaw k).allWithin (twinLaw k).implicantsWithin _)
  | dual =>
    exact procedureTwins_withSolver hzero ((twinLaw k).allWithin
      ((twinLaw k).dualImplicantsWithin (searchTwins_minimise f atoms v)) _)

/-- A procedure with backtracking solvers ends with a result or with an error. -/
theorem reports_runProcedure (hf : f.validate atoms = .ok ()) (c : Config)
    (kind : ProcedureKind) (p : Process) :
    Reports (fun _ => True)
      ((Session.runProcedure (E := Backtracking k) c f atoms kind).run.run p).1 := by
  by_cases hkind : kind = .enumerate
  · subst hkind
    change Reports _ ((allModels (Backtracking k) c f atoms).run.run p).1
    obtain ⟨e, q, -, hrun⟩ | ⟨-, -, models, outcome, -, q, -, -, hrun, -⟩ :=
      exists_allModels_eq (E := Backtracking k) c f atoms p
    · rw [hrun]
      exact ⟨e, rfl⟩
    · rw [hrun]
      cases outcome with
      | none => trivial
      | some e => exact ⟨e, rfl⟩
  · rw [Session.runProcedure_eq, hf, orFormulaError_ok, pure_bind]
    obtain ⟨⟨armed, q⟩, harm⟩ : ∃ r, (Governor.arm c.limits).run p = pure r := ⟨_, rfl⟩
    cases armed with
    | error e =>
      rw [run_governed_error harm]
      exact ⟨_, rfl⟩
    | ok g =>
      rw [run_governed_ok harm]
      change Reports _
        ((Session.procedureBody (Backtracking k) c.convention f atoms kind).run.run q).1
      have hidle := Process.isIdle_new p.host
      obtain ⟨ts, hts⟩ := exists_run_procedureBody (k := k) hf c.convention hkind hidle
      obtain ⟨e, he⟩ | ⟨hsame, -⟩ := procedureTwins_procedureBody (k := k) hf c.convention hkind q
        (Process.afterReading { host := p.host }) hidle
      · rw [he]
        exact ⟨e, rfl⟩
      · rw [← hsame, hts]
        trivial

/-- **Procedures with backtracking solvers are safe.** -/
theorem isSafe_backtracking (k : Coverage) : Engine.IsSafe (Backtracking k) :=
  .of_isBounded fun c f atoms kind p hf => by
    have hmeets := (SolveBudget.free (Backtracking k)).meets_runProcedure hf c kind p
    have hreports := reports_runProcedure (k := k) hf c kind p
    generalize ((Session.runProcedure (E := Backtracking k) c f atoms kind).run.run p).1 = r
      at hmeets hreports ⊢
    cases r with
    | ok ts => exact hmeets
    | error halt => exact hreports

end Backtracking

/-- **No input and no answer of a solver leads out of range.** With scripted solvers, whatever their
script says, and with backtracking solvers, whatever the process does, procedures and streams report
well-formed sets, or errors. The literals which a backtracking solver makes true in the course of a
solve have an entry in a table up to the greatest atom of the solve. -/
theorem procedures_are_safe :
    (∀ form, Engine.IsSafe (Scripted form)) ∧ (∀ k, Engine.IsSafe (Backtracking k)) ∧
      ∀ {k : Coverage} {σ : Type} (b : Backtracking k) (poll : Option (StateM σ Bool)) (s : σ),
        ∀ l ∈ b.solveMade poll s, l.atom ≤ b.maxAtom :=
  ⟨isSafe_scripted, isSafe_backtracking, Backtracking.atom_le_of_mem_solveMade⟩

/-- The models of a script hold `0`, the least word and an atom which is not in the formula. They
are read as two models of the formula, and lead to one prime implicant. -/
theorem procedures_are_safe_nonsense :
    let p : Process := {
      host := .steady { cpuTime := 0, resident := 1, addressSpace := 1 }
      script := [{ answer := .sat [0, Int32.minValue] }, { answer := .sat [7, -1, Int32.minValue] },
        { answer := .unsat }, { answer := .unsat }] }
    let run (kind : ProcedureKind) :=
      ((Session.runProcedure (E := Scripted .report) {} [[1, -2]] [2, 1] kind).run.run p).1
    run .enumerate = .ok [[2, 1], [2, -1]] ∧ run .dual = .ok [[2]] ∧
      ∀ kind : ProcedureKind,
        Reports (fun ts => ∀ t ∈ ts, kind.IsWellFormed [2, 1] t) (run kind) := by
  intro p run
  exact ⟨by decide +kernel, by decide +kernel, fun kind =>
    (procedures_are_safe.1 .report).procedure {} [[1, -2]] [2, 1] kind p⟩

end GovernedSat
