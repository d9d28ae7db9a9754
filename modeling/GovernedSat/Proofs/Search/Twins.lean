import GovernedSat.Proofs.Search.Laziness
import GovernedSat.Proofs.Search.StreamMoves

/-!
# Streams in idle processes

In an idle process no poll asks to stop and every checkpoint is passed, so what a stream with a
backtracking solver finds depends on its solver only, and not even on the number of the solver. Two
streams in two idle processes which differ in nothing but numbers therefore give the same answers to
the same requests, and go on to differ in nothing else.

## Main definitions

* `Process.KeepsIdle` — the changes by which idle processes stay idle.
* `ModelStream.AreTwins` — streams which differ in numbers only.

## Main results

* `ModelStream.startsTwins_startAs`, `ModelStream.AreTwins.ask` — streams are twins when they are
  started and stay twins.
-/

namespace GovernedSat

open Process

/-! ### Idle processes -/

/-- A process which is idle stays idle. -/
def Process.KeepsIdle (p q : Process) : Prop := p.IsIdle → q.IsIdle

instance : Std.Refl KeepsIdle := ⟨fun _ => id⟩

instance : Trans KeepsIdle KeepsIdle KeepsIdle := ⟨fun h h' => h' ∘ h⟩

/-- Backtracking solvers leave a process idle, as long as their callbacks do. -/
theorem admitsSolvers_keepsIdle (k : Coverage) : AdmitsSolvers KeepsIdle (Backtracking k) where
  engine :=
    { create := moves_pure trivial
      solve := fun _ _ h p => ⟨fun hp => Backtracking.solve_keeps
        (fun ask ha q hq => (h ask ha q).1 hq) hp, trivial⟩ }
  call _ _ _ hp := hp
  stopRequested p := by
    refine ⟨fun hp => ?_, trivial⟩
    obtain ⟨q, hr, hq, -⟩ := run_stopRequested hp
    rw [hr]
    exact hq
  checkpoint p := by
    refine ⟨fun hp => ?_, trivial⟩
    rw [run_checkpoint hp]
    exact hp
  logEvent _ _ hp := hp
  make _ hp := hp
  release _ _ hp := hp

variable {k : Coverage} {p q : Process} {P : List Atom}

/-! ### Solves -/

/-- A solver which may be used by a stream: it has its clauses and nothing else, and asks the
governor whether to stop. -/
structure Solver.IsReady (s : Solver (Backtracking k)) : Prop where
  holds : s.Holds s.engine.clauses []
  terminate : s.terminate = some stopRequested

/-- In an idle process what is found depends on the clauses of the solver. -/
theorem Solver.IsReady.run_findModel {s : Solver (Backtracking k)} (hs : s.IsReady)
    (convention : ValueConvention) (hP : ∀ a ∈ P, a.InRange) (hp : p.IsIdle) :
    ∃ report q, s.engine.solveAlone.1 = some report ∧
      ((ModelStream.findModel P convention).run.run s).run p =
        pure (ModelStream.found P convention { s with engine := s.engine.solveAlone.2 } report, q) ∧
      (ModelStream.found P convention { s with engine := s.engine.solveAlone.2 } report).2.IsReady
      := by
  obtain ⟨q, hsolve, hq⟩ := Solver.run_solve_of_isIdle hs.holds.quiet hp
  obtain ⟨hholds, hreport⟩ := hs.holds.solved p
  rw [hsolve] at hholds hreport
  let s' : Solver (Backtracking k) := { s with engine := s.engine.solveAlone.2 }
  have hready : s'.IsReady := ⟨hholds.clauses.symm ▸ hholds, hs.terminate⟩
  obtain ⟨report, hr, hvalue⟩ : ∃ report, s.engine.solveAlone.1 = some report ∧
      (report = .satisfiable → ∀ a, (s'.value? a).isSome) := by
    rcases hreport with ⟨hr, hproper, -⟩ | ⟨hr, -⟩ | hr
    · exact ⟨_, hr, fun _ => hproper.isSome⟩
    · exact ⟨_, hr, nofun⟩
    · exact ⟨_, hr, nofun⟩
  rw [hr] at hsolve
  obtain ⟨journal, log, hrun⟩ :=
    ModelStream.run_findModel_ok hsolve (run_checkpoint hq) hP hvalue
  refine ⟨report, _, hr, hrun, ?_⟩
  cases report with
  | satisfiable =>
    have hfound : (ModelStream.found P convention s' .satisfiable).2.Holds _ [] :=
      hready.holds.found hP
    exact ⟨hfound.clauses.symm ▸ hfound, hs.terminate⟩
  | unsatisfiable => exact hready
  | interrupted => exact hready

/-! ### Twins -/

/-- The number of a solver does not matter. -/
theorem Solver.IsReady.withId {s : Solver (Backtracking k)} (hs : s.IsReady) (i : Nat) :
    ({ s with id := i } : Solver (Backtracking k)).IsReady :=
  ⟨{ hs.holds with }, hs.terminate⟩

namespace ModelStream

variable {m n m' n' : ModelStream (Backtracking k)} {a : Except Halt (Option Clause)}

/-- Streams without limits which differ in the numbers of their solvers only, and in what is counted
and measured. -/
structure AreTwins (m n : ModelStream (Backtracking k)) : Prop where
  /-- Neither stream has a solver, or both have. -/
  solver : m.solver = none ∧ n.solver = none ∨
    ∃ s i, m.solver = some s ∧ s.IsReady ∧ n.solver = some { s with id := i }
  projection : n.projection = m.projection
  convention : n.convention = m.convention
  inRange : ∀ a ∈ m.projection, a.InRange
  governor : ∀ g ∈ m.governor, g.saved = none
  governor' : ∀ g ∈ n.governor, g.saved = none

namespace AreTwins

theorem isUnlimited (h : m.AreTwins n) : m.IsUnlimited := by
  refine ⟨?_, h.governor⟩
  rintro s hs
  obtain ⟨hm, -⟩ | ⟨s', i, hm, hready, -⟩ := h.solver
  · cases hm.symm.trans hs
  · cases hm.symm.trans hs
    exact hready.terminate

theorem isUnlimited' (h : m.AreTwins n) : n.IsUnlimited := by
  refine ⟨?_, h.governor'⟩
  rintro s hs
  obtain ⟨-, hn⟩ | ⟨s', i, -, hready, hn⟩ := h.solver
  · cases hn.symm.trans hs
  · cases hn.symm.trans hs
    exact hready.terminate

/-- After a final answer both streams are exhausted. -/
theorem of_isFinal (h : m.AreTwins n) (ha : isFinal a = true) (hm : m.IsLeftWith a m')
    (hn : n.IsLeftWith a n') : m'.AreTwins n' where
  solver := .inl ⟨Option.isNone_iff_eq_none.mp (hm.isExhausted.trans ha),
    Option.isNone_iff_eq_none.mp (hn.isExhausted.trans ha)⟩
  projection := hn.projection.trans (h.projection.trans hm.projection.symm)
  convention := hn.convention.trans (h.convention.trans hm.convention.symm)
  inRange := hm.projection ▸ h.inRange
  governor := by
    rw [hm.governor, if_pos ha]
    nofun
  governor' := by
    rw [hn.governor, if_pos ha]
    nofun

/-- What was found is settled in the same way. -/
theorem settle (h : m.AreTwins n) {s : Solver (Backtracking k)} (hs : s.IsReady) (i : Nat)
    {found : Except Halt (Option Clause)}
    (hfound : isFinal found = true ∨ ∃ model, found = .ok (some model)) (p q : Process) :
    let a := ((ModelStream.settle m s found).run.run { m with solver := some s }).run p
    let b := ((ModelStream.settle n { s with id := i } found).run.run
      { n with solver := some { s with id := i } }).run q
    a.1.1 = b.1.1 ∧ a.1.2.AreTwins b.1.2 := by
  intro a b
  obtain ⟨ha, hm⟩ := run_settle_fst m s found p
  obtain ⟨hb, hn⟩ := run_settle_fst n { s with id := i } found q
  refine ⟨ha.trans hb.symm, ?_⟩
  rcases hfound with hfinal | ⟨model, rfl⟩
  · exact h.of_isFinal hfinal hm hn
  · exact ⟨.inr ⟨s, i, rfl, hs, rfl⟩, h.projection, h.convention, h.inRange, h.governor,
      h.governor'⟩

/-- The next model is the same. -/
theorem next (h : m.AreTwins n) (hp : p.IsIdle) (hq : q.IsIdle) :
    ((m.ask .next).run p).1.1 = ((n.ask .next).run q).1.1 ∧
      ((m.ask .next).run p).1.2.AreTwins ((n.ask .next).run q).1.2 := by
  obtain ⟨hs, ht⟩ | ⟨s, i, hs, hready, ht⟩ := h.solver
  · rw [ask, ask, run_next_none hs, run_next_none ht]
    exact ⟨rfl, h⟩
  · obtain ⟨report, p', hr, hfind, hfound⟩ :=
      hready.run_findModel m.convention h.inRange hp
    obtain ⟨report', q', hr', hfind', -⟩ :=
      (hready.withId i).run_findModel m.convention h.inRange hq
    obtain rfl : report = report' := Option.some.inj (hr.symm.trans hr')
    let s' : Solver (Backtracking k) := { s with engine := s.engine.solveAlone.2 }
    let found := ModelStream.found m.projection m.convention s' report
    have hfinal : isFinal found.1 = true ∨ ∃ model, found.1 = .ok (some model) := by
      cases report with
      | satisfiable => exact .inr ⟨_, rfl⟩
      | unsatisfiable => exact .inl rfl
      | interrupted => exact .inl rfl
    have hfind' : ((findModel n.projection n.convention).run.run { s with id := i }).run q =
        pure ((found.1, { found.2 with id := i }), q') := by
      rw [h.projection, h.convention]
      exact hfind'.trans (congrArg (fun x => pure (x, q')) (found_withId s' i report))
    rw [ask, ask, run_next_of_findModel hs hfind, run_next_of_findModel ht hfind']
    exact h.settle hfound i hfinal p' q'

/-- **Twins give the same answers**, and stay twins. -/
theorem ask (h : m.AreTwins n) (r : Request) (hp : p.IsIdle) (hq : q.IsIdle) :
    let a := (m.ask r).run p
    let b := (n.ask r).run q
    a.1.1 = b.1.1 ∧ a.1.2.AreTwins b.1.2 ∧ a.2.IsIdle ∧ b.2.IsIdle := by
  intro a b
  have ha : a.2.IsIdle := ((admitsSolvers_keepsIdle k).moves_ask h.isUnlimited r p).1 hp
  have hb : b.2.IsIdle := ((admitsSolvers_keepsIdle k).moves_ask h.isUnlimited' r q).1 hq
  cases r with
  | next =>
    obtain ⟨hanswer, htwins⟩ := h.next hp hq
    exact ⟨hanswer, htwins, ha, hb⟩
  | close => exact ⟨rfl, h.of_isFinal rfl (isLeftWith_close m p) (isLeftWith_close n q), ha, hb⟩

end AreTwins

/-! ### Starting -/

/-- Both streams were started, as twins, or neither was, for the same reason. -/
def StartsTwins : Except Halt (ModelStream (Backtracking k)) →
    Except Halt (ModelStream (Backtracking k)) → Prop
  | .ok m, .ok n => m.AreTwins n
  | .error halt, .error halt' => halt = halt'
  | .ok _, .error _ | .error _, .ok _ => False

section Start

variable {f : Formula} {P : List Atom} {c : Config}

/-- The stream which is started, with a governor or without. -/
def started (k : Coverage) (id : Nat) (f : Formula) (P : List Atom) (convention : ValueConvention)
    (governor : Option Governor) : ModelStream (Backtracking k) where
  solver := some (.fresh id {} f)
  projection := P
  convention := convention
  governor := governor

/-- Without limits, a stream is started in every idle process. -/
theorem exists_run_startAs (k : Coverage) (bare : Bool) (hf : f.validate P = .ok ())
    (hc : c.limits.isUnbounded = true) (hp : p.IsIdle) :
    ∃ id governor q, (∀ g ∈ governor, g.saved = none) ∧
      (startAs (Backtracking k) bare c f P).run.run p =
        pure (.ok (started k id f P c.convention governor), q) ∧ q.IsIdle := by
  have hstart : ∀ p : Process, p.IsIdle → ∃ q,
      (start (E := Backtracking k) f P c.convention).run.run p =
        pure (.ok (started k (p.made + 1) f P c.convention none), q) ∧ q.IsIdle := by
    intro p hp
    obtain ⟨q, hfresh⟩ := run_freshSolver (E := Backtracking k)
      (Formula.zero_notMem_of_validate hf) (p := p) (q := p) rfl
    have hrun : (start (E := Backtracking k) f P c.convention).run.run p =
        pure (.ok (started k (p.made + 1) f P c.convention none), q) := by
      rw [run_start hf, StateT.run_bind, hfresh]
      rfl
    have hidle := ((admitsSolvers_keepsIdle k).moves_start f P c.convention p).1 hp
    rw [hrun] at hidle
    exact ⟨q, hrun, hidle⟩
  cases bare with
  | true =>
    obtain ⟨q, hrun, hq⟩ := hstart p hp
    exact ⟨_, none, q, nofun, hrun, hq⟩
  | false =>
    obtain ⟨baseline, harm⟩ := run_arm p hc
    obtain ⟨q, hrun, hq⟩ := hstart p.afterReading hp
    refine ⟨_, _, q, ?_, run_startUnder_ok hf harm hrun, hq⟩
    rintro _ ⟨⟩
    rfl

/-- **Streams are twins when they are started.** -/
theorem startsTwins_startAs (k : Coverage) (bare : Bool) (f : Formula) (P : List Atom)
    (hc : c.limits.isUnbounded = true) (hp : p.IsIdle) (hq : q.IsIdle) :
    let a := (startAs (Backtracking k) bare c f P).run.run p
    let b := (startAs (Backtracking k) bare c f P).run.run q
    StartsTwins a.1 b.1 ∧ a.2.IsIdle ∧ b.2.IsIdle := by
  intro a b
  cases hf : f.validate P with
  | error e =>
    have hrun : ∀ p, (startAs (Backtracking k) bare c f P).run.run p =
        pure (.error (.error (.formula e)), p) := by
      intro p
      cases bare with
      | true =>
        change (start f P c.convention).run.run p = _
        rw [start, hf]
        rfl
      | false =>
        change (startUnder c f P).run.run p = _
        rw [startUnder, hf]
        rfl
    have ha : a = pure (.error (.error (.formula e)), p) := hrun p
    have hb : b = pure (.error (.error (.formula e)), q) := hrun q
    rw [ha, hb]
    exact ⟨rfl, hp, hq⟩
  | ok u =>
    obtain ⟨id, g, p', hg, ha, hp'⟩ := exists_run_startAs k bare hf hc hp
    obtain ⟨id', g', q', hg', hb, hq'⟩ := exists_run_startAs k bare hf hc hq
    have ha : a = _ := ha
    have hb : b = _ := hb
    rw [ha, hb]
    have hholds := Solver.holds_fresh (k := k) (Formula.inRange_of_validate hf) id
    refine ⟨?_, hp', hq'⟩
    exact ⟨.inr ⟨_, id', rfl, ⟨hholds.clauses.symm ▸ hholds, rfl⟩, rfl⟩, rfl, rfl,
      Formula.atomInRange_of_validate hf, hg, hg'⟩

end Start

end ModelStream

end GovernedSat
