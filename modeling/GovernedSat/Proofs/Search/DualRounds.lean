import GovernedSat.Proofs.Search.Rounds

/-!
# The rounds of the two solvers

Whatever the solvers answer, the variant with two solvers goes in rounds: its exchanges with them
are those of some rounds, and of an end of the search. If it is exhausted, the implicants of the
rounds are its result, and otherwise it ends with an error. So a minimiser is given what the last
models of the enumerator and of the minimiser lead to, and what it is given while it is shrunk
stays with it.

All of this is read off the exchanges with the solvers, so it depends on the answers of the script
alone, and on no solver being right about its clauses.

## Main definitions

* `enumeratorSearch` — what the enumerator is made for.

## Main results

* `shrinkWithin_cases`, `minimise_cases` — the exchanges with a minimiser.
* `dualImplicantsWithin_step`, `dualImplicantsWithin_cases` — a round, and the whole search.
* `twoSolverImplicants_exchanges` — all exchanges of the procedure.
-/

namespace GovernedSat

open Process

/-! ### Shrinking -/

section Shrinking

variable {f : Formula} {inputs : List Atom} {convention : ValueConvention}
  {s : Solver (Scripted .report)} {p : Process}

/-- The clauses which a model leads to are added like a formula. -/
theorem addFormula_shrinkClauses (E : Type) [Engine E] (σ : Assignment) (inputs : List Atom) :
    Solver.addFormula (E := E) (σ.shrinkClauses inputs) = (do
      Solver.addClause (σ.minimBlock inputs)
      (σ.factLiterals inputs).forM FactKeeping.byClause.keep) := by
  simp only [Assignment.shrinkClauses, Solver.addFormula, List.forM_eq_forM, List.forM_cons,
    List.forM_map]
  rfl

/-- **Shrinking forbids what is true on the last model**, and keeps the other inputs false. -/
theorem run_forbidMinim (convention : ValueConvention) (ho : s.openClause = [])
    (hi : ∀ a ∈ inputs, a.InRange) (p : Process) :
    ∃ q, ((forbidMinim inputs convention .byClause).run.run s).run p =
        pure ((.ok (inputs.filter (convention.readModel s.engine.model)), s), q) ∧
      p.Exchanged (Exchange.load s.id
        ((convention.readModel s.engine.model).shrinkClauses inputs)) q := by
  let σ := convention.readModel s.engine.model
  let logged : Process := { p with log := p.log.push (.shrinking (inputs.filter σ).length) }
  have hadd := run_addFormula_scripted (σ.zero_notMem_shrinkClauses hi) ho logged
  have hrun := run_forbidMinim_eq (s := s) (fun _ => rfl) hi convention .byClause
  dsimp only at hrun
  rw [ValueConvention.reading_value?, ← addFormula_shrinkClauses] at hrun
  refine ⟨_, ?_, (Exchanged.nil p).logEvent _ |>.trans
    (exchanged_afterClauses logged s.id (σ.shrinkClauses inputs))⟩
  rw [hrun, run_search_bind_ok (run_search_logEvent _ s p),
    run_search_bind_ok (run_onSolver hadd)]
  rfl

/-- **Shrinking goes from model to model**, each of which leads to further clauses, until there is
none or it is broken off. The script cannot answer more often than is allowed. -/
theorem shrinkWithin_cases (convention : ValueConvention) {allowance : Nat}
    (hs : s.terminate = some stopRequested)
    (ho : s.openClause = []) (hi : ∀ a ∈ inputs, a.InRange) (ha : p.answers.length < allowance) :
    ∃ models s' q, s'.id = s.id ∧
      (((shrinkWithin inputs convention .byClause allowance).run.run s).run p =
          pure ((.ok (inputs.filter (convention.readModel
            ((s.engine.model :: models).getLast (List.cons_ne_nil _ _)))), s'), q) ∧
        p.Exchanged (Exchange.load s.id
            ((convention.readModel s.engine.model).shrinkClauses inputs) ++
          (shrinkExchanges inputs convention s.id models ++ [⟨.solve s.id, some .unsat⟩])) q ∨
      ∃ e, ((shrinkWithin inputs convention .byClause allowance).run.run s).run p =
          pure ((.error (.error e), s'), q) ∧
        p.BrokenOff (Exchange.load s.id
            ((convention.readModel s.engine.model).shrinkClauses inputs) ++
          (shrinkExchanges inputs convention s.id models ++ [⟨.solve s.id, none⟩])) q) := by
  induction allowance generalizing s p with
  | zero => exact absurd ha (Nat.not_lt_zero _)
  | succ allowance ih =>
    obtain ⟨q, hforbid, hgiven⟩ := run_forbidMinim convention ho hi p
    rw [shrinkWithin, run_search_bind_ok hforbid]
    obtain ⟨model, q', hsat, hx⟩ | ⟨q', hunsat, hx⟩ | ⟨e, s', q', hcut, hid, hx⟩ :=
      isSatisfiable_cases hs q
    · rw [run_search_bind_ok hsat]
      -- The model took an answer of the script, so that the allowance stays above what is left.
      have hshorter := (hgiven.trans hx).length_answers_lt
        (List.mem_append_right _ List.mem_cons_self) rfl
      have hleft : q'.answers.length < allowance := by omega
      obtain ⟨models, s', r, hid, ⟨hrun, hrest⟩ | ⟨e, hrun, hrest⟩⟩ :=
        ih (s := { s with engine := { model } }) hs ho hleft
      all_goals
        refine ⟨model :: models, s', r, hid, ?_⟩
        simp only [shrinkExchanges_cons, List.append_assoc]
      · have hrest := hx.trans hrest
        exact .inl ⟨hrun, hgiven.trans hrest⟩
      · have hrest := hx.trans_brokenOff hrest
        exact .inr ⟨e, hrun, hgiven.trans_brokenOff hrest⟩
    · rw [run_search_bind_ok hunsat]
      exact ⟨[], s, q', rfl, .inl ⟨rfl, hgiven.trans hx⟩⟩
    · rw [run_search_bind_error hcut]
      exact ⟨[], s', q', hid, .inr ⟨e, rfl, hgiven.trans_brokenOff hx⟩⟩

end Shrinking

/-! ### Minimisers -/

section Minimisers

variable {f : Formula} {inputs : List Atom} {convention : ValueConvention}
  {model : SparseValuation} {last : List Literal}

/-- **The search of a minimiser** starts with the clauses which the model of the enumerator leads
to. -/
theorem minimiserSearch_cases (hf : f.InRange) (hi : ∀ a ∈ inputs, a.InRange)
    (hm : model.Represents f (convention.readModel last)) {s : Solver (Scripted .report)}
    (hs : s.terminate = some stopRequested) (ho : s.openClause = []) (p : Process) :
    let search := minimiserSearch (E := Scripted .report) f inputs model
      (shrinkModel inputs convention .byClause)
    let given := Exchange.load s.id ((convention.readModel last).minimiserClauses f inputs)
    ∃ minims s' q, s'.id = s.id ∧
      ((∃ h : minims ≠ [], (search.run.run s).run p =
          pure ((.ok (inputs.filter (convention.readModel (minims.getLast h))), s'), q) ∧
        p.Exchanged (given ++ (shrinkExchanges inputs convention s.id minims ++
          [⟨.solve s.id, some .unsat⟩])) q) ∨
      ∃ e, (search.run.run s).run p = pure ((.error (.error e), s'), q) ∧
        p.BrokenOff (given ++ (shrinkExchanges inputs convention s.id minims ++
          [⟨.solve s.id, none⟩])) q) := by
  intro search given
  have hzero : ∀ c ∈ (convention.readModel last).minimiserClauses f inputs, 0 ∉ c := by
    rw [← Assignment.minimiserFormula_eq hm]
    exact fun c hc h => (inRange_minimiserFormula hf hi c hc 0 h).1 rfl
  have hadd := run_addFormula_scripted hzero ho p
  have hgiven := exchanged_afterClauses p s.id
    ((convention.readModel last).minimiserClauses f inputs)
  dsimp only [search, minimiserSearch]
  rw [minimiserClauses_eq hi, orOverflow_some, pure_bind, Assignment.minimiserFormula_eq hm,
    run_search_bind_ok (run_onSolver hadd)]
  generalize p.afterClauses s.id _ = q at hgiven
  obtain ⟨minim, q', hsat, hx⟩ | ⟨q', hunsat, hx⟩ | ⟨e, s', q', hcut, hid, hx⟩ :=
    isSatisfiable_cases hs q
  · rw [run_search_bind_ok hsat, if_pos rfl, shrinkModel,
      run_search_bind_ok (run_currentAllowance_scripted _ _ q')]
    obtain ⟨models, s', r, hid, ⟨hrun, hrest⟩ | ⟨e, hrun, hrest⟩⟩ :=
      shrinkWithin_cases convention (s := { s with engine := { model := minim } }) hs ho hi
        (Nat.lt_succ_self _)
    all_goals
      refine ⟨minim :: models, s', r, hid, ?_⟩
      simp only [shrinkExchanges_cons, List.append_assoc]
    · have hrest := hx.trans hrest
      exact .inl ⟨List.cons_ne_nil _ _, hrun, hgiven.trans hrest⟩
    · have hrest := hx.trans_brokenOff hrest
      exact .inr ⟨e, hrun, hgiven.trans_brokenOff hrest⟩
  · rw [run_search_bind_ok hunsat]
    exact ⟨[], s, _, rfl, .inr ⟨.invalidState, rfl,
      ((hgiven.trans hx).logEvent _).brokenOff.forget⟩⟩
  · rw [run_search_bind_error hcut]
    exact ⟨[], s', q', hid, .inr ⟨e, rfl, hgiven.trans_brokenOff hx⟩⟩

/-- The exchanges with a minimiser: what is done when it is made, its search, and its release. -/
theorem minimiserExchanges_eq (i : Nat) (minims : List (List Literal))
    (answer? : Option ScriptAnswer) :
    minimiserExchanges f inputs convention i last minims answer? =
      { call := .init i } :: Exchange.load i [] ++
        (Exchange.load i ((convention.readModel last).minimiserClauses f inputs) ++
          (shrinkExchanges inputs convention i minims ++ [⟨.solve i, answer?⟩]) ++
            [{ call := .release i }]) := by
  simp [minimiserExchanges, Exchange.load]

/-- **A minimiser** is made, unless the script refuses it, searches, and is released. -/
theorem minimise_cases (hf : f.InRange) (hi : ∀ a ∈ inputs, a.InRange)
    (hm : model.Represents f (convention.readModel last)) (p : Process) :
    let minimised := minimise (Scripted .report) f inputs convention model
    let exchanges := minimiserExchanges f inputs convention (p.made + 1) last
    (∃ e q, minimised.run.run p = pure (.error (.error e), q) ∧ p.BrokenOff [] q) ∨
    ∃ minims q,
      (∃ h : minims ≠ [], minimised.run.run p =
          pure (.ok (inputs.filter (convention.readModel (minims.getLast h))), q) ∧
        p.Exchanged (exchanges minims (some .unsat)) q) ∨
      ∃ e, minimised.run.run p = pure (.error (.error e), q) ∧
        p.BrokenOff (exchanges minims none) q := by
  intro minimised exchanges
  obtain ⟨q, hfresh, hq, -⟩ | ⟨q, hfresh, hq⟩ := freshSolver_cases (f := []) (by simp) p
  · exact .inl ⟨_, q, run_withSolver_error hfresh, hq.brokenOff⟩
  · obtain ⟨minims, s', q', hid, ⟨h, hrun, hx⟩ | ⟨e, hrun, hx⟩⟩ :=
      minimiserSearch_cases hf hi hm (s := .fresh (p.made + 1) {} []) rfl rfl q
    all_goals
      have hrelease := exchanged_release s' q'
      rw [hid] at hrelease
      refine .inr ⟨minims, (s'.release.run q').2, ?_⟩
      dsimp only [minimised, exchanges]
      rw [minimise_eq, run_withSolver_ok hfresh, hrun, minimiserExchanges_eq,
        minimiserExchanges_eq]
    · exact .inl ⟨h, rfl, hq.trans (hx.trans hrelease)⟩
    · exact .inr ⟨e, rfl, hq.trans_brokenOff (hx.trans hrelease rfl)⟩

end Minimisers

/-! ### Rounds -/

section Rounds

variable {f : Formula} {inputs : List Atom} {convention : ValueConvention}
  {s : Solver (Scripted .report)} {p : Process}

/-- The implicant of a round is recorded, and its negation is given to the enumerator. -/
theorem run_recordImplicant {model : SparseValuation} (hv : f.validate inputs = .ok ())
    (r : Round) (hm : model.Represents f (convention.readModel r.model))
    (ho : s.openClause = []) (p : Process) {β : Type}
    (k : Clause → SearchM (Scripted .report) β) :
    ∃ q, ((do
        let implicant : Clause ← orOverflow ((r.minim inputs convention).mapM fun a =>
          Literal.ofAtom? a (Valuation.satisfies model (Literal.positive a)))
        Process.logEvent (.implicantFound implicant)
        onSolver (Solver.addClause (← orOverflow implicant.negation?))
        k implicant : SearchM (Scripted .report) β).run.run s).run p =
          ((k (r.implicant inputs convention)).run.run s).run q ∧
      p.Exchanged [{ call := .clause s.id (r.negation inputs convention) }] q := by
  have hsub : ∀ a ∈ r.minim inputs convention, a ∈ inputs := fun a ha => List.mem_of_mem_filter ha
  have hi : ∀ a ∈ r.minim inputs convention, a.InRange :=
    fun a ha => Formula.atomInRange_of_validate hv a (hsub a ha)
  have hr : (r.implicant inputs convention).InRange := Assignment.inRange_restrict hi
  have hzero : 0 ∉ r.negation inputs convention := fun h => (hr.map_neg 0 h).1 rfl
  have himplicant : (r.minim inputs convention).mapM (fun a =>
      Literal.ofAtom? a (Valuation.satisfies model (Literal.positive a))) =
        some (r.implicant inputs convention) :=
    hm.mapM_ofAtom? (fun a ha => Formula.mem_atoms_of_validate hv a (hsub a ha)) hi
  have hnegation : (r.implicant inputs convention).negation? =
      some (r.negation inputs convention) := Clause.negation?_eq_some hr
  let logged : Process :=
    { p with log := p.log.push (.implicantFound (r.implicant inputs convention)) }
  refine ⟨_, ?_, (Exchanged.nil p).logEvent _ |>.trans
    (exchanged_afterClauses logged s.id [r.negation inputs convention])⟩
  rw [himplicant, orOverflow_some, pure_bind, run_search_bind_ok (run_search_logEvent _ s p),
    hnegation, orOverflow_some, pure_bind,
    run_search_bind_ok (run_onSolver (run_addClause_scripted hzero ho logged))]

/-- **One round of the search**: it ends, or it finds an implicant and goes on. -/
theorem dualImplicantsWithin_step (allowance : Nat) (hv : f.validate inputs = .ok ())
    (hs : s.terminate = some stopRequested) (ho : s.openClause = []) (p : Process) :
    let search := dualImplicantsWithin (E := Scripted .report) f inputs convention
    (∃ q, ((search (allowance + 1)).run.run s).run p = pure ((.ok [], s), q) ∧
      p.Exchanged (Ending.exhausted.exchanges f inputs convention s.id (p.made + 1)) q) ∨
    (∃ (ending : Ending) (e : Error) (s' : Solver (Scripted .report)) (q : Process),
      ending ≠ .exhausted ∧ s'.id = s.id ∧
      ((search (allowance + 1)).run.run s).run p = pure ((.error (.error e), s'), q) ∧
      p.BrokenOff (ending.exchanges f inputs convention s.id (p.made + 1)) q) ∨
    ∃ (r : Round) (q : Process),
      ((search (allowance + 1)).run.run s).run p =
        ((do return r.implicant inputs convention :: (← search allowance) :
          SearchM (Scripted .report) (List Clause)).run.run
            { s with engine := { model := r.model } }).run q ∧
      p.Exchanged (r.exchanges f inputs convention s.id (p.made + 1)) q := by
  intro search
  dsimp only [search]
  rw [dualImplicantsWithin]
  obtain ⟨last, q, hsat, hx⟩ | ⟨q, hunsat, hx⟩ | ⟨e, s', q, hcut, hid, hx⟩ :=
    isSatisfiable_cases hs p
  · let found : Solver (Scripted .report) := { s with engine := { model := last } }
    obtain ⟨model, hmodel, hm⟩ := modelOn_eq convention (s := found) (fun _ => rfl) f
    rw [ValueConvention.reading_value?] at hm
    have hmade : q.made = p.made := hx.made
    rw [run_search_bind_ok hsat, if_pos rfl,
      run_search_bind_ok (run_search_get found q), hmodel, orOverflow_some, pure_bind]
    obtain ⟨e, q', hno, hrest⟩ | ⟨minims, q', ⟨h, hminim, hrest⟩ | ⟨e, hno, hrest⟩⟩ :=
      minimise_cases (Formula.inRange_of_validate hv) (Formula.atomInRange_of_validate hv) hm q
    · rw [run_search_bind_error (run_onProcedure found hno)]
      have hrest : p.BrokenOff ([] ++ [⟨.solve s.id, some (.sat last)⟩]) q' :=
        hx.trans_brokenOff hrest
      exact .inr (.inl ⟨.stopped, e, found, q', nofun, rfl, rfl, hrest.forget⟩)
    · rw [run_search_bind_ok (run_onProcedure found hminim)]
      obtain ⟨q'', hrun, hgiven⟩ := run_recordImplicant (s := found) hv ⟨last, minims, h⟩ hm ho q'
        fun implicant => do return implicant :: (← search allowance)
      have hround := hx.trans (hrest.trans hgiven)
      rw [hmade] at hround
      exact .inr (.inr ⟨⟨last, minims, h⟩, q'', hrun, hround⟩)
    · rw [run_search_bind_error (run_onProcedure found hno)]
      have hrest := hx.trans_brokenOff hrest
      rw [hmade] at hrest
      exact .inr (.inl ⟨.unminimised last minims, e, found, q', nofun, rfl, rfl, hrest⟩)
  · rw [run_search_bind_ok hunsat]
    exact .inl ⟨q, rfl, hx⟩
  · rw [run_search_bind_error hcut]
    exact .inr (.inl ⟨.stopped, e, s', q, nofun, hid, rfl, hx⟩)

/-- **The search goes in rounds**, and in each one the negation of the implicant is all that the
enumerator is given. -/
theorem dualImplicantsWithin_cases (convention : ValueConvention) {allowance : Nat}
    (hv : f.validate inputs = .ok ())
    (hs : s.terminate = some stopRequested) (ho : s.openClause = [])
    (ha : p.answers.length < allowance) :
    let search := (dualImplicantsWithin (E := Scripted .report) f inputs convention allowance)
    ∃ rounds ending s' q, s'.id = s.id ∧
      (ending = .exhausted ∧
          (search.run.run s).run p =
            pure ((.ok (rounds.map (Round.implicant inputs convention)), s'), q) ∧
          p.Exchanged (searchExchanges f inputs convention s.id ending (p.made + 1) rounds) q ∨
        ending ≠ .exhausted ∧
          ∃ e, (search.run.run s).run p = pure ((.error (.error e), s'), q) ∧
          p.BrokenOff (searchExchanges f inputs convention s.id ending (p.made + 1) rounds) q) := by
  intro search
  induction allowance generalizing s p with
  | zero => exact absurd ha (Nat.not_lt_zero _)
  | succ allowance ih =>
    obtain ⟨q, hrun, hx⟩ | ⟨ending, e, s', q, hending, hid, hrun, hx⟩ | ⟨r, q, hrun, hx⟩ :=
      dualImplicantsWithin_step allowance hv hs ho p
    · exact ⟨[], .exhausted, s, q, rfl, .inl ⟨rfl, hrun, hx⟩⟩
    · exact ⟨[], ending, s', q, hid, .inr ⟨hending, e, hrun, hx⟩⟩
    · have hshorter := hx.length_answers_lt List.mem_cons_self rfl
      have hleft : q.answers.length < allowance := by omega
      -- The next minimiser is the one after that of this round.
      have hmade : q.made = p.made + 1 := by rw [hx.made, r.solversMade_exchanges]
      obtain ⟨rounds, ending, s', q', hid, ⟨hending, hrest, hx'⟩ | ⟨hending, e, hrest, hx'⟩⟩ :=
        ih (s := { s with engine := { model := r.model } }) hs ho hleft
      all_goals
        rw [hmade] at hx'
        refine ⟨r :: rounds, ending, s', q', hid, ?_⟩
        dsimp only [search]
        rw [hrun]
      · exact .inl ⟨hending, run_search_bind_ok hrest, hx.trans hx'⟩
      · exact .inr ⟨hending, e, run_search_bind_error hrest, hx.trans_brokenOff hx'⟩

end Rounds

/-! ### The whole procedure -/

section Whole

variable {f : Formula} {inputs : List Atom} {c : Config}

/-- What the enumerator is made for. -/
def enumeratorSearch (E : Type) [Engine E] (c : Config) (f : Formula) (inputs : List Atom) :
    SearchM E (List Clause) := do
  let allowance ← currentAllowance E inputs.length
  let implicants ← dualImplicantsWithin f inputs c.convention allowance
  Process.logEvent (.implicantsExhausted implicants.length)
  return implicants

theorem twoSolverImplicants_eq (E : Type) [Engine E] (c : Config)
    (hv : f.validate inputs = .ok ()) :
    twoSolverImplicants E c f inputs =
      governed c.limits (withSolver f (enumeratorSearch E c f inputs)) := by
  rw [twoSolverImplicants, hv, orFormulaError_ok, pure_bind]
  rfl

/-- The script is long enough for the search of the enumerator. -/
theorem enumeratorSearch_cases (hv : f.validate inputs = .ok ()) {s : Solver (Scripted .report)}
    (hs : s.terminate = some stopRequested) (ho : s.openClause = []) (p : Process) :
    let search := enumeratorSearch (Scripted .report) c f inputs
    ∃ rounds ending s' q, s'.id = s.id ∧
      (ending = .exhausted ∧
          (search.run.run s).run p =
            pure ((.ok (rounds.map (Round.implicant inputs c.convention)), s'), q) ∧
          p.Exchanged (searchExchanges f inputs c.convention s.id ending (p.made + 1) rounds) q ∨
        ending ≠ .exhausted ∧
          ∃ e, (search.run.run s).run p = pure ((.error (.error e), s'), q) ∧
          p.BrokenOff (searchExchanges f inputs c.convention s.id ending (p.made + 1) rounds)
            q) := by
  intro search
  obtain ⟨rounds, ending, s', q, hid, ⟨hending, hrun, hx⟩ | ⟨hending, e, hrun, hx⟩⟩ :=
    dualImplicantsWithin_cases c.convention hv hs ho (Nat.lt_succ_self p.answers.length)
  all_goals
    dsimp only [search, enumeratorSearch]
    rw [run_search_bind_ok (run_currentAllowance_scripted _ s p)]
  · rw [run_search_bind_ok hrun]
    exact ⟨rounds, ending, s', _, hid, .inl ⟨hending, rfl, hx.logEvent _⟩⟩
  · rw [run_search_bind_error hrun]
    exact ⟨rounds, ending, s', q, hid, .inr ⟨hending, e, rfl, hx⟩⟩

/-- **An enumerator** is made, unless the script refuses it, searches, and is released. -/
theorem enumerator_cases (hv : f.validate inputs = .ok ()) (p : Process) :
    let r := (withSolver f (enumeratorSearch (Scripted .report) c f inputs)).run.run p
    (p.answers.head? = some .refuse ∧ (∃ e, r.1 = .error (.error e)) ∧ p.BrokenOff [] r.2) ∨
    ∃ rounds ending,
      let exchanges := enumeratorExchanges f inputs c.convention (p.made + 1) ending rounds
      ending = .exhausted ∧ r.1 = .ok (rounds.map (Round.implicant inputs c.convention)) ∧
          p.Exchanged exchanges r.2 ∨
        ending ≠ .exhausted ∧ (∃ e, r.1 = .error (.error e)) ∧ p.BrokenOff exchanges r.2 := by
  intro r
  have hzero : ∀ d ∈ f, 0 ∉ d := fun d hd h => (Formula.inRange_of_validate hv d hd 0 h).1 rfl
  dsimp only [r]
  obtain ⟨q, hfresh, hq, hrefused⟩ | ⟨q, hfresh, hq⟩ := freshSolver_cases hzero p
  · rw [run_withSolver_error hfresh]
    exact .inl ⟨hrefused, ⟨_, rfl⟩, hq.brokenOff⟩
  · rw [run_withSolver_ok hfresh]
    have hmade : q.made = p.made + 1 := by
      rw [hq.made, Exchange.calls_cons, solversMade_cons, solversMade_load]
      rfl
    obtain ⟨rounds, ending, s', q', hid, hsearch⟩ := enumeratorSearch_cases (c := c) hv
      (s := .fresh (p.made + 1) {} f) rfl rfl q
    have hrelease := exchanged_release s' q'
    rw [hid] at hrelease
    rw [hmade] at hsearch
    refine .inr ⟨rounds, ending, ?_⟩
    obtain ⟨hending, hrun, hx⟩ | ⟨hending, e, hrun, hx⟩ := hsearch
    all_goals
      rw [hrun]
      dsimp only [enumeratorExchanges]
      rw [List.append_assoc]
    · exact .inl ⟨hending, rfl, hq.trans (hx.trans hrelease)⟩
    · exact .inr ⟨hending, ⟨e, rfl⟩, hq.trans_brokenOff (hx.trans hrelease rfl)⟩

/-- **The exchanges of the variant with two solvers**, whatever the script and whatever is signalled
in the meantime. It ends before any call if the script refuses the enumerator, or if the limits
cannot be put in force. Otherwise it goes in rounds, whose implicants are its result if the search
is exhausted. The enumerator is given the clauses of the formula and then the negations of these
implicants, and no solver is given an assumption. -/
theorem twoSolverImplicants_exchanges (c : Config) (hv : f.validate inputs = .ok ())
    (p : Process) :
    let r := (twoSolverImplicants (Scripted .report) c f inputs).run.run p
    ((p.answers.head? = some .refuse ∨
        c.limits.isUnbounded = false ∧
          ∃ e q, (Governor.arm c.limits).run p = pure (.error e, q)) ∧
      (∃ e, r.1 = .error (.error e)) ∧ p.BrokenOff [] r.2) ∨
    ∃ rounds ending,
      let exchanges := enumeratorExchanges f inputs c.convention (p.made + 1) ending rounds
      (ending = .exhausted ∧ r.1 = .ok (rounds.map (Round.implicant inputs c.convention)) ∧
          p.Exchanged exchanges r.2 ∨
        ending ≠ .exhausted ∧ (∃ e, r.1 = .error (.error e)) ∧ p.BrokenOff exchanges r.2) ∧
      Exchange.clausesGiven (p.made + 1) exchanges =
        f ++ rounds.map (Round.negation inputs c.convention) ∧
      ∀ i l, .assume i l ∉ Exchange.calls exchanges := by
  intro r
  have harmed := exchanged_arm c.limits p
  obtain ⟨⟨armed, q⟩, harm⟩ : ∃ a, (Governor.arm c.limits).run p = a := ⟨_, rfl⟩
  rw [harm] at harmed
  dsimp only [r]
  rw [twoSolverImplicants_eq (Scripted .report) c hv]
  cases armed with
  | error e =>
    rw [run_governed_error harm]
    refine .inl ⟨.inr ⟨?_, e, q, harm⟩, ⟨_, rfl⟩, harmed.brokenOff⟩
    by_contra hl
    obtain ⟨baseline, hrun⟩ := run_arm p (eq_true_of_ne_false hl)
    cases harm.symm.trans hrun
  | ok g =>
    rw [run_governed_ok harm]
    have hcases := enumerator_cases (c := c) hv q
    have hmade : q.made = p.made := harmed.made
    have hanswers : p.answers = q.answers := harmed.answers
    generalize (withSolver f (enumeratorSearch (Scripted .report) c f inputs)).run.run q = ended
      at hcases ⊢
    have hdisarmed := exchanged_disarm g ended.2
    rw [hmade, ← hanswers] at hcases
    obtain ⟨hrefused, herror, hx⟩ | ⟨rounds, ending, hsearch⟩ := hcases
    · exact .inl ⟨.inl hrefused, herror, harmed.trans_brokenOff (hx.trans hdisarmed rfl)⟩
    · refine .inr ⟨rounds, ending, ?_, clausesGiven_enumeratorExchanges _ ending rounds,
        assume_notMem_enumeratorExchanges _ ending rounds⟩
      obtain ⟨hending, hresult, hx⟩ | ⟨hending, herror, hx⟩ := hsearch
      · have hx := harmed.trans (hx.trans hdisarmed)
        rw [List.append_nil] at hx
        exact .inl ⟨hending, hresult, hx⟩
      · have hx := harmed.trans_brokenOff (hx.trans hdisarmed rfl)
        rw [List.append_nil] at hx
        exact .inr ⟨hending, herror, hx⟩

/-- A search which is exhausted after one round: the input kept by the minimiser is false on the
model of the enumerator, and so it is in the implicant. -/
theorem twoSolverImplicants_exchanges_clause :
    let p : Process := {
      host := .steady { cpuTime := 0, resident := 0, addressSpace := 0 }
      script := [{ answer := .sat [1, -2] }, { answer := .sat [2] }, { answer := .unsat },
        { answer := .unsat }] }
    let r := (twoSolverImplicants (Scripted .report) {} [[1, -2]] [2]).run.run p
    Formula.validate [[1, -2]] [2] = .ok () ∧ r.1 = .ok [[-2]] ∧
      ∃ rounds, rounds.map (Round.implicant [2] .dontCareAsTrue) = [[-2]] ∧
        let exchanges := enumeratorExchanges [[1, -2]] [2] .dontCareAsTrue 1 .exhausted rounds
        p.Exchanged exchanges r.2 ∧ Exchange.clausesGiven 1 exchanges = [[1, -2], [2]] := by
  intro p r
  have hv : Formula.validate [[1, -2]] [2] = .ok () := by decide
  have hresult : r.1 = .ok [[-2]] := by decide +kernel
  refine ⟨hv, hresult, ?_⟩
  obtain ⟨-, ⟨e, herror⟩, -⟩ | ⟨rounds, _, ⟨rfl, hok, hx⟩ | ⟨-, ⟨e, herror⟩, -⟩, hgiven, -⟩ :=
    twoSolverImplicants_exchanges {} hv p
  · cases hresult.symm.trans herror
  · have himplicants : rounds.map (Round.implicant [2] .dontCareAsTrue) = [[-2]] :=
      Except.ok.inj (hok.symm.trans hresult)
    have hnegations : rounds.map (Round.negation [2] .dontCareAsTrue) = [[2]] := by
      have hneg := congrArg (List.map (List.map (-·))) himplicants
      rwa [List.map_map] at hneg
    exact ⟨rounds, himplicants, hx, hgiven.trans (congrArg ([[1, -2]] ++ ·) hnegations)⟩
  · cases hresult.symm.trans herror

end Whole

end GovernedSat
