import GovernedSat.Proofs.Backtracking.Contract
import GovernedSat.Proofs.Search.Shrinking
import GovernedSat.Proofs.Search.Stopping

/-!
# Minims of any solver

Shrinking starts from the last model of a solver, which may have been used in any way before that
model was found. Its minim is among the inputs true on that model, is exactly what is true on some
model of the clauses, and has no strict part which is true so. This holds with any callback and in
any process, unless the search is stopped.

## Main definitions

* `IsShrunk` — what a minim, and the solver left behind, are to the solver from which it was shrunk.

## Main results

* `shrinkModel_meets_contract` — shrinking after a satisfiable solve of any solver.
-/

namespace GovernedSat

open Assignment

variable {k : Coverage} {inputs : List Atom}

/-- What the minim given by shrinking, and the solver left behind, are to the solver from whose
last model it was shrunk. -/
structure IsShrunk (inputs : List Atom) (convention : ValueConvention) (facts : FactKeeping)
    (s : Solver (Backtracking k)) (minim : List Atom) (s' : Solver (Backtracking k)) : Prop where
  /-- The inputs of the minim are in order. -/
  sublist : minim.Sublist inputs
  /-- They count as true on the last model. -/
  holds : ∀ a ∈ minim, ∃ v, s.value? a = some v ∧ convention.holds v = true
  /-- Exactly these inputs are true on some model of the clauses. -/
  attained : ∃ σ : Assignment, s.engine.clauses.IsTrueOn σ ∧ ∀ a ∈ inputs, σ a = true ↔ a ∈ minim
  /-- On no model of the clauses the true inputs are a strict part of them. -/
  minimal : ∀ σ : Assignment, s.engine.clauses.IsTrueOn σ →
    ¬ ((∀ a ∈ inputs, σ a = true → a ∈ minim) ∧ ∃ a ∈ minim, σ a ≠ true)
  /-- No assumption is pending afterwards. -/
  assumptions : s'.engine.assumptions = []
  /-- With assumptions, exactly the models on which the minim is true are lost. -/
  lost : facts = .byAssumption → ∀ σ : Assignment, s'.engine.clauses.IsTrueOn σ ↔
    s.engine.clauses.IsTrueOn σ ∧ ¬ ∀ a ∈ minim, σ a = true

/-- To be above is to make the minim true. -/
theorem below_iff_forall_mem_filter {σ τ : Assignment} :
    Below inputs τ σ ↔ ∀ a ∈ inputs.filter τ, σ a = true := by
  simp only [Below, List.mem_filter, and_imp]

/-- The true inputs of a minimal model below the last one. -/
theorem isShrunk_filter {s s' : Solver (Backtracking k)} {convention : ValueConvention}
    {facts : FactKeeping} {τ : Assignment} (hτ : s.engine.clauses.IsMinimalOn inputs τ)
    (hb : Below inputs τ (convention.reading s.value?)) (ha : s'.engine.assumptions = [])
    (hlost : facts = .byAssumption → ∀ σ : Assignment, s'.engine.clauses.IsTrueOn σ ↔
      s.engine.clauses.IsTrueOn σ ∧ ¬ Below inputs τ σ) :
    IsShrunk inputs convention facts s (inputs.filter τ) s' where
  sublist := List.filter_sublist
  holds a hm := by
    have h := below_iff_forall_mem_filter.mp hb a hm
    rwa [ValueConvention.reading, Option.any_eq_true] at h
  attained := ⟨τ, hτ.1, fun a ha => by simp [ha]⟩
  minimal := by
    rintro σ hσ ⟨hle, a, hm, hfalse⟩
    have hbelow : Below inputs σ τ := fun b hb hs => (List.mem_filter.mp (hle b hb hs)).2
    obtain ⟨ha, hs⟩ := List.mem_filter.mp hm
    exact hfalse (hτ.2 σ hσ hbelow a ha hs)
  assumptions := ha
  lost hf σ := by rw [hlost hf, below_iff_forall_mem_filter]

section AfterSolve

variable {s₀ s₁ s : Solver (Backtracking k)} {h : List IncrementalCall} {p₀ p₁ : Process}
  (h₀ : s₀.IsFresh) (hl : s₀.Leads h s₁) (ha : Clause.InRange s₁.engine.assumptions)
  (hsolve : (Solver.solve.run s₁).run p₀ = pure ((some .satisfiable, s), p₁))
  (ho : s.openClause = []) (hc : ∀ c ∈ s.engine.clauses, Literal.least ∉ c)

include h₀ hl ha hsolve ho hc

/-- After a satisfiable solve, which ends any history of calls, the solver holds its clauses and
shows a model of them. The callback may be replaced by any quiet one. -/
theorem holds_and_shows_of_leads {callback : Option Callback} (hquiet : IsQuiet callback) :
    let s' : Solver (Backtracking k) := { s with terminate := callback }
    s'.Holds s.engine.clauses [] ∧ s'.Shows s.engine.clauses [] := by
  intro s'
  obtain ⟨hzero, -⟩ := Backtracking.zero_notMem_of_leads h₀ hl
  have hclauses : s.engine.clauses = s₁.engine.clauses :=
    (congrArg (·.1.2.engine.clauses) hsolve).symm.trans
      (s₁.engine.solve_clauses s₁.terminate (p₀.journaled (.solve s₁.id)))
  have hrange : s₁.engine.clauses.InRange :=
    Formula.inRange_iff.mpr fun c hm => ⟨hzero c hm, hc c (hclauses ▸ hm)⟩
  have hs := Backtracking.solved_solve hrange ha s₁.terminate (p₀.journaled (.solve s₁.id))
  generalize hr : s₁.engine.solve s₁.terminate (p₀.journaled (.solve s₁.id)) = r at hs
  have hrun : (Solver.solve.run s₁).run p₀ = ((r.1.1, { s₁ with engine := r.1.2 }), r.2) :=
    hr ▸ Solver.run_solve s₁ p₀
  obtain ⟨⟨report, b⟩, p'⟩ := r
  cases hrun.symm.trans hsolve
  cases hs with
  | satisfiable proper filled clauses assumptions =>
    refine ⟨⟨ho, rfl, rfl, hrange, Clause.inRange_nil, hquiet⟩, proper.answers, fun σ hσ => ?_⟩
    exact ⟨clauses.isTrueOn (proper.isTrueOn_trail hσ), by rintro _ ⟨⟩⟩

/-- In an idle process and with a quiet callback there is a minim. -/
theorem exists_isShrunk (hi : ∀ a ∈ inputs, a.InRange) (convention : ValueConvention)
    (facts : FactKeeping) {callback : Option Callback} (hquiet : IsQuiet callback) {p : Process}
    (hp : p.IsIdle) :
    ∃ minim s' p', ((shrinkModel inputs convention facts).run.run
        { s with terminate := callback }).run p = pure ((.ok minim, s'), p') ∧
      IsShrunk inputs convention facts s minim s' := by
  obtain ⟨hholds, hshows⟩ := holds_and_shows_of_leads h₀ hl ha hsolve ho hc hquiet
  obtain ⟨_, s', p', n, hrun, -, -, τ, hτ, hb, rfl, -, g, hg, hlost⟩ :=
    (hholds.shrinkModel hshows hi convention facts).exists_run hp
  exact ⟨_, s', p', hrun, isShrunk_filter hτ hb hg.assumptions (hg.clauses ▸ hlost)⟩

/-- **Shrinking meets its contract.** After a satisfiable solve, which ends any history of calls to
a new solver and leaves no clause open, shrinking gives a minim as it should be, both with facts
kept by assumptions and by clauses. In any process and with any callback it does so unless it is
stopped, and it is not stopped with a quiet callback in an idle process. -/
theorem shrinkModel_meets_contract (hi : ∀ a ∈ inputs, a.InRange) (convention : ValueConvention)
    (facts : FactKeeping) (p : Process) :
    let r := ((shrinkModel inputs convention facts).run.run s).run p
    ((∃ minim, r.1.1 = .ok minim ∧ IsShrunk inputs convention facts s minim r.1.2) ∨
      ∃ halt, r.1.1 = .error halt ∧ IsStopped s.terminate halt r.2) ∧
    (IsQuiet s.terminate → p.IsIdle →
      ∃ minim, r.1.1 = .ok minim ∧ IsShrunk inputs convention facts s minim r.1.2) := by
  intro r
  constructor
  · let q : Process := { host := .steady ⟨0, 0, 0⟩ }
    have hq : q.IsIdle := Process.isIdle_new _
    have hquiet : IsQuiet none := by rintro _ ⟨⟩
    obtain ⟨minim, s', q', hrun, hshrunk⟩ :=
      exists_isShrunk h₀ hl ha hsolve ho hc hi convention facts hquiet hq
    obtain hstopped | ⟨hsame, -, -⟩ :=
      (stoppingLaw k).shrinkModel facts s s.id none p q hquiet hq
    · exact .inr hstopped
    · rw [hrun] at hsame
      obtain ⟨hok, rfl⟩ := Prod.mk.inj hsame
      exact .inl ⟨minim, hok.symm, { hshrunk with }⟩
  · intro hquiet hp
    obtain ⟨minim, s', p', hrun, hshrunk⟩ :=
      exists_isShrunk h₀ hl ha hsolve ho hc hi convention facts hquiet hp
    exact ⟨minim, congrArg (·.1.1) hrun, (congrArg (·.1.2) hrun : r.1.2 = s') ▸ hshrunk⟩

end AfterSolve

/-- After the clause `[1, 2]` was added and solved, a minim of the atoms is found in any idle
process, although some assumption was pending before the solve. -/
theorem shrinkModel_meets_contract_clause :
    ∃ s₀ s : Solver (Backtracking .needed), s₀.IsFresh ∧
      s₀.Leads [.add 1, .add 2, .add 0, .assume 1, .solve] s ∧ ∀ p : Process, p.IsIdle →
        ∃ minim s' p', ((shrinkModel [1, 2] .strictlyTrue .byAssumption).run.run s).run p =
            pure ((.ok minim, s'), p') ∧
          IsShrunk [1, 2] .strictlyTrue .byAssumption s minim s' := by
  let s₀ : Solver (Backtracking .needed) := { id := 1, engine := {} }
  let p₀ : Process := { host := .steady ⟨0, 0, 0⟩ }
  have h₀ : s₀.IsFresh := ⟨p₀, rfl⟩
  let s₁ : Solver (Backtracking .needed) :=
    { id := 1, engine := { clauses := [[1, 2]], assumptions := [1] } }
  have hl : s₀.Leads [.add 1, .add 2, .add 0, .assume 1] s₁ := .call (.assume 1) p₀
    (.call (.add 0) p₀ (.call (.add 2) p₀ (.call (.add 1) p₀ .refl)))
  have hasked : s₁.Holds [[1, 2]] [1] :=
    ⟨rfl, rfl, rfl, by decide, by decide, by rintro _ ⟨⟩⟩
  obtain ⟨-, _, -, hholds, -, ⟨hreport, -⟩ | ⟨-, hnone⟩⟩ :=
    hasked.solve p₀ (Process.isIdle_new p₀.host)
  · refine ⟨s₀, _, h₀, .call .solve p₀ hl, fun p hp => ?_⟩
    have hc : ∀ c ∈ ([[1, 2]] : Formula), Literal.least ∉ c := by decide
    have hi : ∀ a ∈ [1, 2], Atom.InRange a :=
      Formula.atomInRange_of_validate (f := [[1, 2]]) rfl
    obtain ⟨-, hfound⟩ := shrinkModel_meets_contract h₀ hl hasked.assumedInRange
      (Prod.ext (Prod.ext hreport rfl) rfl) hholds.openClause (hholds.clauses ▸ hc) hi
      .strictlyTrue .byAssumption p
    obtain ⟨minim, hok, hshrunk⟩ := hfound hholds.quiet hp
    exact ⟨minim, _, _, Prod.ext (Prod.ext hok rfl) rfl, hshrunk⟩
  · exact absurd (by decide) (hnone (fun _ => true)
      (List.forall_mem_singleton.mpr (by decide)))

end GovernedSat
