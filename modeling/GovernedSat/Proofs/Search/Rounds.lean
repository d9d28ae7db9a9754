import GovernedSat.Proofs.Search.DualImplicants
import GovernedSat.Proofs.Search.Exchanges

/-!
# Rounds of exchanges

The search of the variant with two solvers goes in *rounds*. In each one the enumerator finds a
model, from which the clauses of a fresh minimiser are made, and each model which the minimiser
finds is followed by the clauses which that model leads to. The last one gives the implicant, with
the polarities of the model of the enumerator, and its negation is given to the enumerator. A search
which is broken off ends in the middle of this.

What is defined here is which exchanges these are for given models, whatever the models are. The
enumerator is given nothing but the formula and the negations, and no solver is given an assumption.

## Main definitions

* `ValueConvention.readModel` — the assignment read in a model.
* `Assignment.minimiserClauses`, `Assignment.shrinkClauses` — the clauses which a model leads to.
* `minimiserExchanges` — the exchanges with a minimiser.
* `Round`, `Ending`, `searchExchanges` — the exchanges of a search.
* `enumeratorExchanges` — the exchanges of the enumerator and of its minimisers.

## Main results

* `clausesGiven_enumeratorExchanges` — what the enumerator is given.
* `assume_notMem_enumeratorExchanges` — nothing is assumed.
-/

namespace GovernedSat

open Process

/-! ### The clauses which a model leads to -/

/-- The assignment which a convention reads in a model of a scripted solver. -/
def ValueConvention.readModel (convention : ValueConvention) (model : List Literal) : Assignment :=
  fun a => convention.holds (({ model } : Scripted .report).value a)

/-- The answers of a scripted solver are read off its model. -/
theorem ValueConvention.reading_value? (convention : ValueConvention)
    (s : Solver (Scripted .report)) :
    convention.reading s.value? = convention.readModel s.engine.model := rfl

namespace Assignment

/-- For each clause the positive literals of the atoms of its literals which are true. -/
def keptClauses (σ : Assignment) (f : Formula) : Formula :=
  f.map fun c => (c.filter fun l => l.IsTrueOn σ).map fun l => Literal.positive l.atom

/-- The clauses of the minimiser: those, and then a negative unit for each input which is in none of
them. -/
def minimiserClauses (σ : Assignment) (f : Formula) (inputs : List Atom) : Formula :=
  σ.keptClauses f ++
    (inputs.filter fun a => a ∉ (σ.keptClauses f).atoms).map fun a => [Literal.signed a false]

/-- The clauses by which the true inputs are forbidden and the other inputs are kept false. -/
def shrinkClauses (σ : Assignment) (inputs : List Atom) : Formula :=
  σ.minimBlock inputs :: (σ.factLiterals inputs).map ([·])

variable {σ : Assignment} {f : Formula} {inputs : List Atom}

/-- The valuation which represents an assignment leads to the same clauses. -/
theorem minimiserFormula_eq {model : SparseValuation} (h : model.Represents f σ) :
    minimiserFormula f inputs model = σ.minimiserClauses f inputs := by
  have hkept : GovernedSat.keptClauses f model = σ.keptClauses f := by
    refine List.map_congr_left fun c hc => congrArg (List.map _) (List.filter_congr fun l hl => ?_)
    rw [Bool.eq_iff_iff, h.satisfies_iff hc hl, decide_eq_true_eq]
  rw [minimiserFormula, hkept, minimiserClauses]

/-- The clauses by which shrinking goes on hold no zero. -/
theorem zero_notMem_shrinkClauses (hi : ∀ a ∈ inputs, a.InRange) :
    ∀ c ∈ σ.shrinkClauses inputs, 0 ∉ c := by
  refine List.forall_mem_cons.mpr ⟨fun h => (inRange_minimBlock hi 0 h).1 rfl, ?_⟩
  rw [List.forall_mem_map]
  intro l hl h
  rw [← List.mem_singleton.mp h] at hl
  exact (inRange_factLiterals hi 0 hl).1 rfl

end Assignment

/-! ### The exchanges of a search -/

section Exchanges

variable (f : Formula) (inputs : List Atom) (convention : ValueConvention)

/-- Solves of a minimiser which find models, each followed by the clauses which the model leads
to. -/
def shrinkExchanges (i : Nat) (models : List (List Literal)) : List Exchange :=
  models.flatMap fun model => ⟨.solve i, some (.sat model)⟩ ::
    Exchange.load i ((convention.readModel model).shrinkClauses inputs)

/-- The exchanges with the minimiser with a number, for a model of the enumerator: it is made and
given its clauses, finds some models, and is released after a last solve. -/
def minimiserExchanges (i : Nat) (model : List Literal) (minims : List (List Literal))
    (last : Option ScriptAnswer) : List Exchange :=
  { call := .init i } ::
    Exchange.load i ((convention.readModel model).minimiserClauses f inputs) ++
      shrinkExchanges inputs convention i minims ++ [⟨.solve i, last⟩, { call := .release i }]

/-- A round of the search: a model of the enumerator, and the models of its minimiser. -/
structure Round where
  /-- The model of the enumerator. -/
  model : List Literal
  /-- The models of the minimiser, in order. -/
  minims : List (List Literal)
  /-- The minimiser finds a model. -/
  minims_ne_nil : minims ≠ []

namespace Round

/-- The inputs true on the last model of the minimiser. -/
def minim (r : Round) : List Atom :=
  inputs.filter (convention.readModel (r.minims.getLast r.minims_ne_nil))

/-- The implicant: the minim with the polarities of the model of the enumerator. -/
def implicant (r : Round) : Clause :=
  (convention.readModel r.model).restrict (r.minim inputs convention)

/-- The negation of the implicant. -/
def negation (r : Round) : Clause := (r.implicant inputs convention).map (-·)

/-- The exchanges of the round with the enumerator `e` and the minimiser `i`. -/
def exchanges (r : Round) (e i : Nat) : List Exchange :=
  ⟨.solve e, some (.sat r.model)⟩ ::
    minimiserExchanges f inputs convention i r.model r.minims (some .unsat) ++
      [{ call := .clause e (r.negation inputs convention) }]

end Round

/-- How the search ends after the last round. -/
inductive Ending where
  /-- The enumerator has no further model. -/
  | exhausted
  /-- The enumerator finds no model, or there is no minimiser for it. -/
  | stopped
  /-- The minimiser finds models, but gives no minim. -/
  | unminimised (model : List Literal) (minims : List (List Literal))

/-- The last exchanges with the enumerator `e`, and perhaps a minimiser `i`. -/
def Ending.exchanges (e i : Nat) : Ending → List Exchange
  | exhausted => [⟨.solve e, some .unsat⟩]
  | stopped => [⟨.solve e, none⟩]
  | unminimised model minims => ⟨.solve e, some (.sat model)⟩ ::
      minimiserExchanges f inputs convention i model minims none

/-- The exchanges of the search of the enumerator `e`, whose minimisers are numbered from `i` on. -/
def searchExchanges (e : Nat) (ending : Ending) : Nat → List Round → List Exchange
  | i, [] => ending.exchanges f inputs convention e i
  | i, r :: rounds =>
    r.exchanges f inputs convention e i ++ searchExchanges e ending (i + 1) rounds

/-- The exchanges of the enumerator with a number, and of its minimisers. -/
def enumeratorExchanges (e : Nat) (ending : Ending) (rounds : List Round) : List Exchange :=
  { call := .init e } :: Exchange.load e f ++
    searchExchanges f inputs convention e ending (e + 1) rounds ++ [{ call := .release e }]

end Exchanges

/-! ### The solvers made -/

section Facts

variable {f : Formula} {inputs : List Atom} {convention : ValueConvention}

theorem shrinkExchanges_cons (i : Nat) (model : List Literal) (models : List (List Literal)) :
    shrinkExchanges inputs convention i (model :: models) = ⟨.solve i, some (.sat model)⟩ ::
      Exchange.load i ((convention.readModel model).shrinkClauses inputs) ++
        shrinkExchanges inputs convention i models := List.flatMap_cons

theorem solversMade_shrinkExchanges (inputs : List Atom) (convention : ValueConvention) (i : Nat)
    (models : List (List Literal)) :
    solversMade (Exchange.calls (shrinkExchanges inputs convention i models)) = 0 := by
  induction models with
  | nil => rfl
  | cons model models ih =>
    rw [shrinkExchanges_cons, Exchange.calls_append, solversMade_append, ih, Exchange.calls_cons]
    exact solversMade_load i _

/-- One solver is made in a round. -/
theorem Round.solversMade_exchanges (r : Round) (e i : Nat) :
    solversMade (Exchange.calls (r.exchanges f inputs convention e i)) = 1 := by
  have hload := solversMade_load i
    ((convention.readModel r.model).minimiserClauses f inputs)
  have hshrink := solversMade_shrinkExchanges inputs convention i r.minims
  simp only [Round.exchanges, minimiserExchanges, Exchange.calls_cons, Exchange.calls_append,
    List.cons_append, solversMade_cons, solversMade_append, hload, hshrink]
  rfl

/-! ### What the solvers are given -/

theorem isPlain_shrinkExchanges (i : Nat) (models : List (List Literal)) :
    ∀ x ∈ shrinkExchanges inputs convention i models, x.IsPlain i := by
  induction models with
  | nil => nofun
  | cons model models ih =>
    rw [shrinkExchanges_cons]
    exact List.forall_mem_append.mpr
      ⟨List.forall_mem_cons.mpr ⟨.solve _, Exchange.isPlain_load i _⟩, ih⟩

/-- All exchanges with a minimiser are with this one. -/
theorem isPlain_minimiserExchanges (i : Nat) (model : List Literal) (minims : List (List Literal))
    (last : Option ScriptAnswer) :
    ∀ x ∈ minimiserExchanges f inputs convention i model minims last, x.IsPlain i := by
  simp only [minimiserExchanges, List.forall_mem_append, List.forall_mem_cons]
  exact ⟨⟨⟨.init, Exchange.isPlain_load i _⟩, isPlain_shrinkExchanges i minims⟩,
    .solve _, .release, nofun⟩

/-- In a round the enumerator is given the negation of the implicant. -/
theorem Round.clausesGiven_exchanges (r : Round) {e i : Nat} (h : e < i) :
    Exchange.clausesGiven e (r.exchanges f inputs convention e i) =
      [r.negation inputs convention] := by
  rw [Round.exchanges, Exchange.clausesGiven_append, Exchange.clausesGiven_cons,
    Exchange.clausesGiven_eq_nil (isPlain_minimiserExchanges i _ _ _) h.ne]
  simp [Call.given?]

/-- At the end of a search the enumerator is given nothing. -/
theorem Ending.clausesGiven_exchanges (ending : Ending) {e i : Nat} (h : e < i) :
    Exchange.clausesGiven e (ending.exchanges f inputs convention e i) = [] := by
  cases ending with
  | exhausted | stopped => rfl
  | unminimised model minims =>
    rw [Ending.exchanges, Exchange.clausesGiven_cons,
      Exchange.clausesGiven_eq_nil (isPlain_minimiserExchanges i _ _ _) h.ne]
    rfl

theorem clausesGiven_searchExchanges {e : Nat} (ending : Ending) {i : Nat} (h : e < i)
    (rounds : List Round) :
    Exchange.clausesGiven e (searchExchanges f inputs convention e ending i rounds) =
      rounds.map (Round.negation inputs convention) := by
  induction rounds generalizing i with
  | nil => exact ending.clausesGiven_exchanges h
  | cons r rounds ih =>
    rw [searchExchanges, Exchange.clausesGiven_append, r.clausesGiven_exchanges h,
      ih (Nat.lt_succ_of_lt h)]
    rfl

/-- **The enumerator is given the formula and the negations of the implicants**, in order. -/
theorem clausesGiven_enumeratorExchanges (e : Nat) (ending : Ending) (rounds : List Round) :
    Exchange.clausesGiven e (enumeratorExchanges f inputs convention e ending rounds) =
      f ++ rounds.map (Round.negation inputs convention) := by
  rw [enumeratorExchanges, Exchange.clausesGiven_append, Exchange.clausesGiven_append,
    Exchange.clausesGiven_cons, Exchange.clausesGiven_load,
    clausesGiven_searchExchanges ending (Nat.lt_succ_self e)]
  simp [Call.given?]

theorem exists_isPlain_searchExchanges (e : Nat) (ending : Ending) (i : Nat)
    (rounds : List Round) :
    ∀ x ∈ searchExchanges f inputs convention e ending i rounds, ∃ j, x.IsPlain j := by
  induction rounds generalizing i with
  | nil =>
    cases ending with
    | exhausted | stopped => exact List.forall_mem_singleton.mpr ⟨e, .solve _⟩
    | unminimised model minims =>
      exact List.forall_mem_cons.mpr ⟨⟨e, .solve _⟩,
        fun x hx => ⟨i, isPlain_minimiserExchanges i _ _ _ x hx⟩⟩
  | cons r rounds ih =>
    simp only [searchExchanges, Round.exchanges, List.forall_mem_append, List.forall_mem_cons]
    exact ⟨⟨⟨⟨e, .solve _⟩, fun x hx => ⟨i, isPlain_minimiserExchanges i _ _ _ x hx⟩⟩,
      ⟨e, .clause _⟩, nofun⟩, ih (i + 1)⟩

/-- **Nothing is assumed.** -/
theorem assume_notMem_enumeratorExchanges (e : Nat) (ending : Ending) (rounds : List Round)
    (i : Nat) (l : Literal) :
    .assume i l ∉ Exchange.calls (enumeratorExchanges f inputs convention e ending rounds) := by
  have hplain : ∀ x ∈ enumeratorExchanges f inputs convention e ending rounds,
      ∃ j, x.IsPlain j := by
    simp only [enumeratorExchanges, List.forall_mem_append, List.forall_mem_cons]
    exact ⟨⟨⟨⟨e, .init⟩, fun x hx => ⟨e, Exchange.isPlain_load e f x hx⟩⟩,
      exists_isPlain_searchExchanges e ending (e + 1) rounds⟩, ⟨e, .release⟩, nofun⟩
  intro h
  obtain ⟨x, hx, hcall⟩ := List.mem_map.mp h
  obtain ⟨j, hj⟩ := hplain x hx
  exact hj.ne_assume hcall

end Facts

end GovernedSat
