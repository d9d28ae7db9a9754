import GovernedSat.Proofs.Search.Shrinking
import GovernedSat.Proofs.Support
import GovernedSat.Search.DualImplicants

/-!
# A prime cover from two solvers

The clauses of the minimiser say, of an assignment of *kept* values, that every clause of the
formula has a literal true on the model whose atom is kept, and that no input is kept of which no
clause has such a literal. So the inputs kept on its minimal models are the minimal supports of the
model, and each implicant is the restriction of the model to one of them. The enumerator is only
given the negations of the implicants, until every model of the formula makes some implicant true.

## Main definitions

* `SparseValuation.Represents` — a valuation with the values of an assignment.
* `minimiserFormula` — the clauses of the minimiser, for a formula in range.
* `minimiserSearch` — the search of the minimiser.

## Main results

* `isMinimalSupport_of_isMinimalOn` — minimal models of the minimiser give minimal supports.
* `gives_minimise` — the minimiser is satisfiable, and finds a minimal support.
* `Solver.Holds.dualImplicantsWithin` — the implicants which are left.
* `twoSolverImplicants_prime_cover` — the implicants of a formula are a prime cover.
* `twoSolverImplicants_support_cover` — the implicants with respect to any inputs.
-/

namespace GovernedSat

open Assignment

variable {k : Coverage} {s : Solver (Backtracking k)} {f g : Formula} {inputs : List Atom}
  {model : SparseValuation} {σ τ : Assignment} {c : Clause}

/-! ### The model of the enumerator -/

/-- The valuation has the values of the assignment on the atoms of the formula. -/
def SparseValuation.Represents (model : SparseValuation) (f : Formula) (σ : Assignment) : Prop :=
  ∀ a ∈ f.atoms, Valuation.value? model a = some (some (σ a))

namespace SparseValuation

theorem value?_foldl_insert (v : SparseValuation) (σ : Assignment) (atoms : List Atom) (a : Atom) :
    Valuation.value? ((atoms.map fun a => (a, σ a)).foldl (fun v p => v.insert p.1 p.2) v) a =
      if a ∈ atoms then some (some (σ a)) else Valuation.value? v a := by
  induction atoms generalizing v with
  | nil => simp
  | cons b atoms ih =>
    rw [List.map_cons, List.foldl_cons, ih, value?_insert]
    by_cases hm : a ∈ atoms
    · simp [hm]
    · by_cases hb : a = b
      · subst hb
        simp
      · simp [hm, hb]

theorem represents_ofList (f : Formula) (σ : Assignment) :
    (ofList (f.atoms.map fun a => (a, σ a))).Represents f σ := by
  intro a ha
  rw [ofList, value?_foldl_insert, if_pos ha]

theorem Represents.satisfies_iff (h : model.Represents f σ) (hc : c ∈ f) {l : Literal}
    (hl : l ∈ c) : Valuation.satisfies model l = true ↔ l.IsTrueOn σ := by
  have ha : l.atom ∈ f.atoms := Formula.mem_atoms.mpr ⟨c, hc, l, hl, rfl⟩
  rw [Valuation.satisfies, h _ ha, beq_iff_eq, Option.some.injEq, Option.some.injEq,
    Literal.IsTrueOn]

theorem Represents.satisfies_positive (h : model.Represents f σ) {a : Atom} (ha : a ∈ f.atoms)
    (hr : a.InRange) : Valuation.satisfies model (Literal.positive a) = σ a := by
  have hp : Literal.polarity (Literal.positive a) = true := hr.polarity_signed (b := true)
  rw [Valuation.satisfies, hr.atom_positive, h a ha, hp]
  cases σ a <;> rfl

/-- The kept atoms with the values of the valuation are the restriction of the assignment. -/
theorem Represents.mapM_ofAtom? (h : model.Represents f σ) {T : List Atom}
    (hT : ∀ a ∈ T, a ∈ f.atoms) (hr : ∀ a ∈ T, a.InRange) :
    T.mapM (fun a => Literal.ofAtom? a (Valuation.satisfies model (Literal.positive a))) =
      some (σ.restrict T) := by
  refine mapM_eq_some_map fun a ha => ?_
  rw [h.satisfies_positive (hT a ha) (hr a ha)]
  exact (hr a ha).ofAtom?_eq_some

end SparseValuation

theorem modelOn_eq {E : Type} [Engine E] {s : Solver E} (convention : ValueConvention)
    (hs : ∀ a, (s.value? a).isSome) (f : Formula) :
    ∃ model, modelOn s f convention = some model ∧
      model.Represents f (convention.reading s.value?) := by
  rw [modelOn, readValues_eq convention hs]
  exact ⟨_, rfl, SparseValuation.represents_ofList f _⟩

/-! ### The clauses of the minimiser -/

/-- The atoms of the literals true on the model, for each clause. -/
def keptClauses (f : Formula) (model : SparseValuation) : Formula := f.map (satisfiedAtoms model)

/-- The clauses of the minimiser, for inputs in range. -/
def minimiserFormula (f : Formula) (inputs : List Atom) (model : SparseValuation) : Formula :=
  keptClauses f model ++
    (inputs.filter fun a => a ∉ (keptClauses f model).atoms).map fun a => [Literal.signed a false]

theorem minimiserClauses_eq (hi : ∀ a ∈ inputs, a.InRange) :
    minimiserClauses f inputs model = some (minimiserFormula f inputs model) := by
  have hunits : (inputs.filter fun a => a ∉ (keptClauses f model).atoms).mapM
      (fun a => (Literal.ofAtom? a false).map fun l => [l]) =
      some ((inputs.filter fun a => a ∉ (keptClauses f model).atoms).map
        fun a => [Literal.signed a false]) := by
    refine mapM_eq_some_map fun a ha => ?_
    rw [(hi a (List.mem_filter.mp ha).1).ofAtom?_eq_some, Option.map_some]
  exact congrArg (Option.map (keptClauses f model ++ ·)) hunits

theorem mem_satisfiedAtoms {l : Literal} :
    l ∈ satisfiedAtoms model c ↔
      ∃ m ∈ c, Valuation.satisfies model m = true ∧ Literal.positive m.atom = l := by
  simp [satisfiedAtoms, and_assoc]

section Minimiser

variable (hf : f.InRange) (hi : ∀ a ∈ inputs, a.InRange) (hm : model.Represents f σ)

include hf

theorem inRange_minimiserFormula (hi : ∀ a ∈ inputs, a.InRange) :
    (minimiserFormula f inputs model).InRange := by
  refine Formula.inRange_append.mpr ⟨fun c' hc' l hl => ?_, fun c' hc' l hl => ?_⟩
  · obtain ⟨c, hc, rfl⟩ := List.mem_map.mp hc'
    obtain ⟨m, hm, -, rfl⟩ := mem_satisfiedAtoms.mp hl
    exact (hf c hc m hm).atom.inRange_positive
  · obtain ⟨a, ha, rfl⟩ := List.mem_map.mp hc'
    rw [List.mem_singleton.mp hl]
    exact (hi a (List.mem_filter.mp ha).1).inRange_signed

include hm

/-- The kept atoms are those of the literals of the formula which are true on the model. -/
theorem mem_atoms_keptClauses {a : Atom} :
    a ∈ (keptClauses f model).atoms ↔ ∃ c ∈ f, ∃ l ∈ c, l.IsTrueOn σ ∧ l.atom = a := by
  rw [Formula.mem_atoms, keptClauses]
  constructor
  · rintro ⟨_, hc', _, hl', rfl⟩
    obtain ⟨c, hc, rfl⟩ := List.mem_map.mp hc'
    obtain ⟨l, hl, hs, rfl⟩ := mem_satisfiedAtoms.mp hl'
    exact ⟨c, hc, l, hl, (hm.satisfies_iff hc hl).mp hs, ((hf c hc l hl).atom.atom_positive).symm⟩
  · rintro ⟨c, hc, l, hl, ht, rfl⟩
    exact ⟨_, List.mem_map_of_mem hc, _, mem_satisfiedAtoms.mpr
      ⟨l, hl, (hm.satisfies_iff hc hl).mpr ht, rfl⟩, (hf c hc l hl).atom.atom_positive⟩

theorem isTrueOn_keptClauses :
    (keptClauses f model).IsTrueOn τ ↔ ∀ c ∈ f, ∃ l ∈ c, l.IsTrueOn σ ∧ τ l.atom = true := by
  rw [Formula.IsTrueOn, keptClauses, List.forall_mem_map]
  refine forall₂_congr fun c hc => ?_
  constructor
  · rintro ⟨_, hl', ht⟩
    obtain ⟨l, hl, hs, rfl⟩ := mem_satisfiedAtoms.mp hl'
    exact ⟨l, hl, (hm.satisfies_iff hc hl).mp hs, (hf c hc l hl).atom.isTrueOn_positive.mp ht⟩
  · rintro ⟨l, hl, hs, ht⟩
    exact ⟨_, mem_satisfiedAtoms.mpr ⟨l, hl, (hm.satisfies_iff hc hl).mpr hs, rfl⟩,
      (hf c hc l hl).atom.isTrueOn_positive.mpr ht⟩

include hi

/-- **The models of the minimiser**: a literal true on the model is kept in every clause, and no
input is kept of which no clause has such a literal. -/
theorem isTrueOn_minimiserFormula :
    (minimiserFormula f inputs model).IsTrueOn τ ↔
      (∀ c ∈ f, ∃ l ∈ c, l.IsTrueOn σ ∧ τ l.atom = true) ∧
        ∀ a ∈ inputs, a ∉ (keptClauses f model).atoms → τ a = false := by
  rw [minimiserFormula, Formula.isTrueOn_append, isTrueOn_keptClauses hf hm]
  refine and_congr_right fun _ => ?_
  rw [Formula.IsTrueOn, List.forall_mem_map]
  constructor
  · intro h a ha hfree
    have ht := h a (List.mem_filter.mpr ⟨ha, by simpa using hfree⟩)
    rw [Clause.isTrueOn_cons, (hi a ha).isTrueOn_signed] at ht
    exact ht.resolve_right Clause.not_isTrueOn_nil
  · intro h a ha
    obtain ⟨ha, hfree⟩ := List.mem_filter.mp ha
    exact ⟨_, List.mem_singleton_self _,
      (hi a ha).isTrueOn_signed.mpr (h a ha (of_decide_eq_true hfree))⟩

/-- The minimiser has a model: all atoms which may be kept are. -/
theorem exists_isTrueOn_minimiserFormula (hσ : f.IsTrueOn σ) :
    ∃ τ, (minimiserFormula f inputs model).IsTrueOn τ := by
  refine ⟨fun a => decide (a ∈ (keptClauses f model).atoms),
    (isTrueOn_minimiserFormula hf hi hm).mpr ⟨fun c hc => ?_, fun a _ hfree => ?_⟩⟩
  · obtain ⟨l, hl, ht⟩ := hσ c hc
    exact ⟨l, hl, ht, decide_eq_true ((mem_atoms_keptClauses hf hm).mpr ⟨c, hc, l, hl, ht, rfl⟩)⟩
  · exact decide_eq_false hfree

/-- **Minimal models of the minimiser give minimal supports.** -/
theorem isMinimalSupport_of_isMinimalOn
    (hτ : (minimiserFormula f inputs model).IsMinimalOn inputs τ) :
    f.IsMinimalSupport inputs σ (inputs.filter τ) := by
  obtain ⟨hkept, hfree⟩ := (isTrueOn_minimiserFormula hf hi hm).mp hτ.1
  refine ⟨fun c hc => ?_, fun U hU hsup => ?_⟩
  · obtain ⟨l, hl, ht, hk⟩ := hkept c hc
    by_cases hin : l.atom ∈ inputs
    · exact ⟨l, hl, ht, .inl (List.mem_filter.mpr ⟨hin, hk⟩)⟩
    · exact ⟨l, hl, ht, .inr hin⟩
  · -- A smaller support, together with all atoms which are no inputs, is a model below.
    let υ : Assignment := fun a => decide (a ∈ U ∨ a ∉ inputs)
    have hυ : (minimiserFormula f inputs model).IsTrueOn υ := by
      refine (isTrueOn_minimiserFormula hf hi hm).mpr ⟨fun c hc => ?_, fun a ha hn => ?_⟩
      · obtain ⟨l, hl, ht, hk⟩ := hsup c hc
        exact ⟨l, hl, ht, decide_eq_true hk⟩
      · refine decide_eq_false ?_
        rintro (haU | hna)
        · have := (List.mem_filter.mp (hU haU)).2
          rw [hfree a ha hn] at this
          cases this
        · exact hna ha
    have hbelow : Below inputs υ τ := by
      intro a ha hυa
      rcases of_decide_eq_true hυa with haU | hna
      · exact (List.mem_filter.mp (hU haU)).2
      · exact absurd ha hna
    intro a ha
    obtain ⟨ha, hτa⟩ := List.mem_filter.mp ha
    exact (of_decide_eq_true (hτ.2 υ hυ hbelow a ha hτa)).resolve_right fun hna => hna ha

end Minimiser

/-! ### Finding implicants -/

/-- The search of the minimiser, with a search which shrinks the model it finds. -/
def minimiserSearch {E : Type} [Engine E] (f : Formula) (inputs : List Atom)
    (model : SparseValuation) (shrink : SearchM E (List Atom)) : SearchM E (List Atom) := do
  onSolver (Solver.addFormula (← orOverflow (minimiserClauses f inputs model)))
  if ← isSatisfiable then shrink
  else
    Process.logEvent .minimiserWithoutModel
    throw (.error .invalidState)

theorem minimise_eq (E : Type) [Engine E] (f : Formula) (inputs : List Atom)
    (convention : ValueConvention) (model : SparseValuation) :
    minimise E f inputs convention model =
      withSolver (E := E) []
        (minimiserSearch f inputs model (shrinkModel inputs convention .byClause)) :=
  rfl

/-- **The minimiser finds a minimal support**, and is never without a model. -/
theorem gives_minimise (hf : f.InRange) (hi : ∀ a ∈ inputs, a.InRange)
    (hm : model.Represents f σ) (hσ : f.IsTrueOn σ) (convention : ValueConvention) :
    Gives (minimise (Backtracking k) f inputs convention model) fun T n =>
      T ⊆ inputs ∧ f.IsMinimalSupport inputs σ T ∧ n ≤ inputs.length + 2 := by
  refine gives_withSolver Formula.inRange_nil fun s hs => ?_
  simp only [minimiserClauses_eq hi, orOverflow_some, pure_bind]
  refine (yields_lift (hs.addFormula (inRange_minimiserFormula hf hi))).bind ?_
  rintro _ s₁ _ ⟨h₁, rfl⟩
  rw [List.nil_append] at h₁
  refine h₁.isSatisfiable.bind ?_
  rintro _ s₂ _ ⟨h₂, rfl, ⟨rfl, hs₂⟩ | ⟨rfl, hnone⟩⟩
  · refine (h₂.shrinkModel hs₂ hi convention .byClause).mono ?_
    rintro _ _ n ⟨τ, hτ, -, rfl, hn, -⟩
    exact ⟨List.filter_sublist.subset, isMinimalSupport_of_isMinimalOn hf hi hm hτ, by omega⟩
  · obtain ⟨τ, hτ⟩ := exists_isTrueOn_minimiserFormula hf hi hm hσ
    exact absurd hτ (hnone τ nofun)

/-- **All implicants which are left**: they cover the models of the enumerator, provided that there
are fewer of these than solves allowed. -/
theorem Solver.Holds.dualImplicantsWithin {allowance : Nat} (h : s.Holds g []) (hf : f.InRange)
    (hi : ∀ a ∈ inputs, a.InRange) (hin : ∀ a ∈ inputs, a ∈ f.atoms)
    (hg : ∀ τ, g.IsTrueOn τ → f.IsTrueOn τ) (convention : ValueConvention)
    (ha : g.modelCount inputs < allowance) :
    Yields (dualImplicantsWithin f inputs convention allowance) s fun implicants _ n =>
      IsSupportCover implicants f g inputs ∧
        n ≤ implicants.length * (inputs.length + 3) + 1 ∧
        implicants.length ≤ g.modelCount inputs := by
  induction allowance generalizing s g with
  | zero => omega
  | succ allowance ih =>
    refine h.isSatisfiable.bind ?_
    rintro _ s₁ _ ⟨h₁, rfl, ⟨rfl, hproper, htrue⟩ | ⟨rfl, hnone⟩⟩
    · have hσ := (htrue _ (hproper.agreesWith_reading convention)).1
      obtain ⟨model, hmodel, hm⟩ := modelOn_eq convention hproper.isSome f
      generalize convention.reading s₁.value? = σ at hσ hm
      refine .bind_get ?_
      simp only [hmodel, orOverflow_some, pure_bind]
      refine (yields_procedure (gives_minimise hf hi hm (hg σ hσ) convention)).bind ?_
      rintro T _ n ⟨rfl, hT, hmin, hn⟩
      have hTr : ∀ a ∈ T, a.InRange := fun a ha => hi a (hT ha)
      have hr : Clause.InRange (σ.restrict T) := inRange_restrict hTr
      simp only [hm.mapM_ofAtom? (fun a ha => hin a (hT ha)) hTr, orOverflow_some, pure_bind]
      refine .bind_process (ensures_logEvent _) ?_
      simp only [Clause.negation?_eq_some hr, orOverflow_some, pure_bind]
      refine (yields_lift (h₁.addClause hr.map_neg)).bind ?_
      rintro _ s₂ _ ⟨h₂, -, rfl⟩
      have hlt := Formula.modelCount_block_lt hT hTr hσ
      have hg' : ∀ τ, Formula.IsTrueOn (g ++ [(σ.restrict T).map (-·)]) τ → f.IsTrueOn τ :=
        fun τ hτ => hg τ ((Formula.isTrueOn_block_iff hTr).mp hτ).1
      refine (ih h₂ hg' (by omega)).bind ?_
      rintro implicants _ m ⟨hcover, hle, hlen⟩
      refine yields_pure ⟨hcover.cons hi hσ hT hmin, ?_, ?_⟩
      · rw [List.length_cons, Nat.succ_mul]
        omega
      · rw [List.length_cons]
        omega
    · exact yields_pure ⟨.nil fun σ => hnone σ nofun, by omega, Nat.zero_le _⟩

/-! ### All implicants -/

theorem gives_twoSolverImplicants {c : Config} (hv : f.validate inputs = .ok ())
    (hl : c.limits.isUnbounded = true) :
    Gives (twoSolverImplicants (Backtracking k) c f inputs) fun implicants n =>
      IsSupportCover implicants f f inputs ∧
        n ≤ implicants.length * (inputs.length + 3) + 1 ∧
        implicants.length ≤ 2 ^ inputs.length := by
  rw [twoSolverImplicants, hv, orFormulaError_ok, pure_bind]
  refine .governed hl (gives_withSolver (Formula.inRange_of_validate hv) fun s hs => ?_)
  obtain ⟨a, ha, hlt, -⟩ := exists_allowance k inputs.length
  have hle := f.modelCount_le inputs
  refine .bind_process ha ?_
  refine (hs.dualImplicantsWithin (Formula.inRange_of_validate hv)
    (Formula.atomInRange_of_validate hv) (Formula.mem_atoms_of_validate hv) (fun _ => id)
    c.convention (by omega)).bind ?_
  rintro implicants s' n ⟨hcover, hn, hlen⟩
  exact .bind_process (ensures_logEvent _) (yields_pure ⟨hcover, by omega, by omega⟩)

/-- **The implicants with two solvers are a prime cover** when all atoms are inputs and no clause
has an atom in both polarities. In an idle process and without limits, every implicant given is
prime, every model makes one of them true, and they are pairwise incomparable. -/
theorem twoSolverImplicants_prime_cover (k : Coverage) (c : Config)
    (hv : f.validate inputs = .ok ()) (hI : ∀ a ∈ f.atoms, a ∈ inputs) (ht : f.TautologyFree)
    (hl : c.limits.isUnbounded = true) {p : Process} (hp : p.IsIdle) :
    ∃ implicants p',
      (twoSolverImplicants (Backtracking k) c f inputs).run.run p = (.ok implicants, p') ∧
        (∀ t ∈ implicants,
          (∀ σ : Assignment, (∀ l ∈ t, l.IsTrueOn σ) → f.IsTrueOn σ) ∧
          ∀ l ∈ t, ∃ σ : Assignment, (∀ m ∈ t, m ≠ l → m.IsTrueOn σ) ∧ ¬ f.IsTrueOn σ) ∧
        (∀ σ : Assignment, f.IsTrueOn σ → ∃ t ∈ implicants, ∀ l ∈ t, l.IsTrueOn σ) ∧
        implicants.Pairwise fun t u => ¬ t ⊆ u ∧ ¬ u ⊆ t := by
  have hf := Formula.inRange_of_validate hv
  have hi := Formula.atomInRange_of_validate hv
  obtain ⟨-, n, -, implicants, hr, hcover, -⟩ := gives_twoSolverImplicants (k := k) hv hl p hp
  have hprime : ∀ t ∈ implicants, f.IsPrimeImplicant t := by
    intro t htmem
    obtain ⟨σ, T, -, hT, hmin, rfl⟩ := hcover.support t htmem
    exact hmin.isPrimeImplicant hf hI ht fun a ha => hi a (hT ha)
  exact ⟨implicants, _, Prod.ext hr rfl, fun t ht => ⟨(hprime t ht).implies, (hprime t ht).prime⟩,
    hcover.cover, hcover.pairwise hprime⟩

/-- The prime implicants found for the clause `[1, -2]` cover the model on which neither atom is
true, and none of them is contained in another. -/
theorem twoSolverImplicants_clause :
    ∃ implicants p', (twoSolverImplicants (Backtracking .full) {} [[1, -2]] [2, 1]).run.run
        { host := .steady ⟨0, 0, 0⟩ } = (.ok implicants, p') ∧
      (∃ t ∈ implicants, ∀ l ∈ t, Literal.IsTrueOn l fun _ => false) ∧
      implicants.Pairwise fun t u => ¬ t ⊆ u ∧ ¬ u ⊆ t := by
  have hv : Formula.validate [[1, -2]] [2, 1] = .ok () := by decide
  have hI : Formula.atoms [[1, -2]] ⊆ [2, 1] := by decide
  obtain ⟨implicants, p', hrun, -, hcover, hpairwise⟩ :=
    twoSolverImplicants_prime_cover .full {} hv (fun _ ha => hI ha) (by decide) (by decide)
      (Process.isIdle_new (.steady ⟨0, 0, 0⟩))
  exact ⟨implicants, p', hrun, hcover _ (by decide), hpairwise⟩

/-- **The implicants with two solvers come from minimal supports** of models, for any inputs. In an
idle process and without limits, every implicant given is part of a model which is supported by its
atoms and by no proper part of them, every model makes some implicant true, and no implicant is
contained in a later one. -/
theorem twoSolverImplicants_support_cover (k : Coverage) (c : Config)
    (hv : f.validate inputs = .ok ()) (hl : c.limits.isUnbounded = true) {p : Process}
    (hp : p.IsIdle) :
    ∃ implicants p',
      (twoSolverImplicants (Backtracking k) c f inputs).run.run p = (.ok implicants, p') ∧
        (∀ t ∈ implicants, ∃ m : Assignment, f.IsTrueOn m ∧
          (∀ l ∈ t, l.IsTrueOn m ∧ l.atom ∈ inputs) ∧
          f.SupportedBy inputs m (t.map Literal.atom) ∧
          ∀ u ⊆ t, ¬ t ⊆ u → ¬ f.SupportedBy inputs m (u.map Literal.atom)) ∧
        (∀ σ : Assignment, f.IsTrueOn σ → ∃ t ∈ implicants, ∀ l ∈ t, l.IsTrueOn σ) ∧
        implicants.Pairwise fun t u => ¬ t ⊆ u := by
  obtain ⟨-, n, -, implicants, hr, hcover, -⟩ := gives_twoSolverImplicants (k := k) hv hl p hp
  refine ⟨implicants, _, Prod.ext hr rfl, fun t ht => ?_, hcover.cover, hcover.notSubset⟩
  obtain ⟨m, T, hm, hT, hmin, rfl⟩ := hcover.support t ht
  have hTr : ∀ a ∈ T, a.InRange := fun a ha => Formula.atomInRange_of_validate hv a (hT ha)
  refine ⟨m, hm, fun l hl => ?_, ?_, fun u hu hn hs => hn (hmin.restrict_subset hTr hu hs)⟩
  · obtain ⟨a, ha, rfl⟩ := List.mem_map.mp hl
    exact ⟨(hTr a ha).isTrueOn_signed.mpr rfl, (hTr a ha).atom_signed.symm ▸ hT ha⟩
  · rw [map_atom_restrict hTr]
    exact hmin.supported

/-- With the atom `3` hidden and a clause which is always true, the implicants found cover the model
on which `2` alone is true, and none of them is contained in a later one. -/
theorem twoSolverImplicants_hidden_atom :
    ∃ implicants p', (twoSolverImplicants (Backtracking .needed) {}
        [[1, 2], [3, -3], [-1, 3]] [2, 1]).run.run
        { host := .steady ⟨0, 0, 0⟩ } = (.ok implicants, p') ∧
      (∃ t ∈ implicants, ∀ l ∈ t, Literal.IsTrueOn l fun a => a = 2) ∧
      implicants.Pairwise fun t u => ¬ t ⊆ u := by
  have hv : Formula.validate [[1, 2], [3, -3], [-1, 3]] [2, 1] = .ok () := by decide
  obtain ⟨implicants, p', hrun, -, hcover, hpairwise⟩ :=
    twoSolverImplicants_support_cover .needed {} hv (by decide)
      (Process.isIdle_new (.steady ⟨0, 0, 0⟩))
  exact ⟨implicants, p', hrun, hcover _ (by decide), hpairwise⟩

end GovernedSat
