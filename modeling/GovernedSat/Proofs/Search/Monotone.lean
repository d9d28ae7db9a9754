import GovernedSat.Proofs.Search.DualImplicants
import GovernedSat.Proofs.Search.Implicants

/-!
# The two ways of finding implicants on monotone inputs

When the inputs occur only positively, the minimal support of a model has only inputs true on it,
and making all other inputs false leaves a model. So the implicants found with two solvers are among
the sets of true inputs of models, and below each of these sets there is one of them: the minimal
ones among them are the implicants found with one solver.

The others are minimal only for the values which their models give to the atoms which are no inputs.
They do not arise when these values can be exchanged between models, in particular when all atoms
are inputs; otherwise they do, so the two ways differ.

## Main definitions

* `Formula.PositiveOn` — the inputs occur only positively.
* `Formula.SeparableOn` — the inputs and the other atoms do not depend on each other.
* `literalSets` — a list of implicants as a set of sets of literals.

## Main results

* `IsSupportCover.minimal_literalSets_iff` — the minimal implicants with two solvers.
* `oneSolverImplicants_eq_minimal_twoSolverImplicants` — how the two ways compare.
* `oneSolverImplicants_ne_twoSolverImplicants` — where they differ.
-/

namespace GovernedSat

open Assignment

variable {f : Formula} {inputs T : List Atom} {σ τ : Assignment} {implicants : List Clause}

/-! ### Inputs which occur only positively -/

namespace Formula

/-- The inputs occur only positively. -/
def PositiveOn (f : Formula) (inputs : List Atom) : Prop :=
  ∀ c ∈ f, ∀ l ∈ c, Literal.atom l ∈ inputs → Literal.polarity l = true

instance (f : Formula) (inputs : List Atom) : Decidable (f.PositiveOn inputs) :=
  decidable_of_iff (f.all fun c => c.all fun l => l.atom ∉ inputs || l.polarity) <| by
    simp [PositiveOn, imp_iff_not_or]

/-- The inputs of one model and the other atoms of another make up a model. -/
def SeparableOn (f : Formula) (inputs : List Atom) : Prop :=
  ∀ σ τ : Assignment, f.IsTrueOn σ → f.IsTrueOn τ →
    f.IsTrueOn fun a => if a ∈ inputs then σ a else τ a

/-- When all atoms are inputs, there are no other atoms to depend on. -/
theorem separableOn_of_atoms_subset (h : f.atoms ⊆ inputs) : f.SeparableOn inputs := by
  intro σ τ hσ _ c hc
  obtain ⟨l, hl, ht⟩ := hσ c hc
  have hin : l.atom ∈ inputs := h (mem_atoms.mpr ⟨c, hc, l, hl, rfl⟩)
  exact ⟨l, hl, (if_pos hin).trans ht⟩

namespace IsMinimalSupport

variable (h : f.IsMinimalSupport inputs σ T) (hpos : f.PositiveOn inputs) (hT : T ⊆ inputs)

include h hpos hT

/-- The atoms of a minimal support are true. -/
theorem eq_true_of_mem {a : Atom} (ha : a ∈ T) : σ a = true := by
  have hsup : f.SupportedBy inputs σ (T.filter σ) := by
    intro c hc
    obtain ⟨l, hl, ht, hin | hout⟩ := h.supported c hc
    · have htrue : σ l.atom = true := ht.trans (hpos c hc l hl (hT hin))
      exact ⟨l, hl, ht, .inl (List.mem_filter.mpr ⟨hin, htrue⟩)⟩
    · exact ⟨l, hl, ht, .inr hout⟩
  exact (List.mem_filter.mp (h.minimal _ List.filter_sublist.subset hsup ha)).2

/-- The implicant of a minimal support has the atoms of the support as positive literals. -/
theorem restrict_eq : σ.restrict T = T.map Literal.positive :=
  List.map_congr_left fun a ha => by rw [h.eq_true_of_mem hpos hT ha, Literal.signed_true]

/-- Some model has the atoms of a minimal support as its true inputs. -/
theorem exists_trueInputs_eq :
    ∃ τ : Assignment, f.IsTrueOn τ ∧ {l | l ∈ σ.restrict T} = τ.trueInputs inputs := by
  refine ⟨fun a => if a ∈ inputs then decide (a ∈ T) else σ a, fun c hc => ?_, ?_⟩
  · obtain ⟨l, hl, ht, hin | hout⟩ := h.supported c hc
    · have hp := hpos c hc l hl (hT hin)
      exact ⟨l, hl, ((if_pos (hT hin)).trans (decide_eq_true hin)).trans hp.symm⟩
    · exact ⟨l, hl, (if_neg hout).trans ht⟩
  · rw [h.restrict_eq hpos hT]
    ext l
    constructor
    · intro hl
      obtain ⟨a, ha, rfl⟩ := List.mem_map.mp hl
      exact ⟨a, hT ha, (if_pos (hT ha)).trans (decide_eq_true ha), rfl⟩
    · rintro ⟨a, ha, htrue, rfl⟩
      exact List.mem_map_of_mem (of_decide_eq_true ((if_pos ha).symm.trans htrue))

/-- A model whose true inputs are in a minimal support of another has all of the support true, when
the inputs do not depend on the other atoms. -/
theorem subset_trueInputs (hsep : f.SeparableOn inputs) (hi : ∀ a ∈ inputs, a.InRange)
    (hσ : f.IsTrueOn σ) (hτ : f.IsTrueOn τ) (hsub : τ.trueInputs inputs ⊆ {l | l ∈ σ.restrict T}) :
    {l | l ∈ σ.restrict T} ⊆ τ.trueInputs inputs := by
  rw [h.restrict_eq hpos hT] at hsub ⊢
  have hmem : inputs.filter τ ⊆ T := by
    intro a ha
    obtain ⟨ha, htrue⟩ := List.mem_filter.mp ha
    obtain ⟨b, hb, he⟩ := List.mem_map.mp (hsub ⟨a, ha, htrue, rfl⟩)
    rwa [← (hi a ha).atom_positive, ← he, (hi b (hT hb)).atom_positive]
  -- The true inputs of `τ` together with the other atoms of `σ` make every clause true.
  have hsup : f.SupportedBy inputs σ (inputs.filter τ) := by
    intro c hc
    obtain ⟨l, hl, ht⟩ := hsep τ σ hτ hσ c hc
    by_cases hin : l.atom ∈ inputs
    · have hp := hpos c hc l hl hin
      have hfilter : l.atom ∈ inputs.filter τ :=
        List.mem_filter.mpr ⟨hin, ((if_pos hin).symm.trans ht).trans hp⟩
      have htrue := h.eq_true_of_mem hpos hT (hmem hfilter)
      exact ⟨l, hl, htrue.trans hp.symm, .inl hfilter⟩
    · exact ⟨l, hl, (if_neg hin).symm.trans ht, .inr hin⟩
  intro l hl
  obtain ⟨a, ha, rfl⟩ := List.mem_map.mp hl
  obtain ⟨ha, htrue⟩ := List.mem_filter.mp (h.minimal _ hmem hsup ha)
  exact ⟨a, ha, htrue, rfl⟩

end IsMinimalSupport

end Formula

/-! ### Implicants as sets -/

/-- A list of implicants, as a set of sets of literals. -/
def literalSets (implicants : List Clause) : Set (Set Literal) :=
  {S | ∃ t ∈ implicants, {l | l ∈ t} = S}

/-- The implicants of a minimal enumeration are the minimal sets of true inputs. -/
theorem IsMinimalEnumeration.mem_literalSets_iff (h : IsMinimalEnumeration implicants f inputs)
    (hi : ∀ a ∈ inputs, a.InRange) {S : Set Literal} :
    S ∈ literalSets implicants ↔
      Minimal (fun S => ∃ σ : Assignment, f.IsTrueOn σ ∧ S = σ.trueInputs inputs) S := by
  rw [minimal_trueInputs_iff hi]
  constructor
  · rintro ⟨t, ht, rfl⟩
    obtain ⟨τ, hτ, rfl⟩ := (h.mem_iff t).mp ht
    exact ⟨τ, hτ, setOf_mem_positive τ inputs⟩
  · rintro ⟨τ, hτ, rfl⟩
    exact ⟨_, (h.mem_iff _).mpr ⟨τ, hτ, rfl⟩, setOf_mem_positive τ inputs⟩

namespace IsSupportCover

variable (h : IsSupportCover implicants f f inputs) (hpos : f.PositiveOn inputs)

include h hpos

/-- Every implicant of a cover is the set of the true inputs of some model. -/
theorem exists_trueInputs_eq {S : Set Literal} (hS : S ∈ literalSets implicants) :
    ∃ τ : Assignment, f.IsTrueOn τ ∧ S = τ.trueInputs inputs := by
  obtain ⟨t, ht, rfl⟩ := hS
  obtain ⟨σ, T, -, hT, hmin, rfl⟩ := h.support t ht
  exact hmin.exists_trueInputs_eq hpos hT

/-- Among the true inputs of every model there is an implicant of a cover. -/
theorem exists_subset_trueInputs (hi : ∀ a ∈ inputs, a.InRange) (hσ : f.IsTrueOn σ) :
    ∃ S ∈ literalSets implicants, S ⊆ σ.trueInputs inputs := by
  obtain ⟨t, ht, htrue⟩ := h.cover σ hσ
  refine ⟨_, ⟨t, ht, rfl⟩, fun l hl => ?_⟩
  obtain ⟨τ, T, -, hT, hmin, rfl⟩ := h.support t ht
  rw [hmin.restrict_eq hpos hT] at hl htrue
  obtain ⟨a, ha, rfl⟩ := List.mem_map.mp hl
  exact ⟨a, hT ha, (hi a (hT ha)).isTrueOn_positive.mp (htrue _ hl), rfl⟩

/-- **The minimal implicants of a cover are the minimal sets of true inputs.** -/
theorem minimal_literalSets_iff (hi : ∀ a ∈ inputs, a.InRange) {S : Set Literal} :
    Minimal (fun S => ∃ σ : Assignment, f.IsTrueOn σ ∧ S = σ.trueInputs inputs) S ↔
      Minimal (· ∈ literalSets implicants) S := by
  refine minimal_iff_minimal_of_imp_of_forall (fun S hS => h.exists_trueInputs_eq hpos hS) ?_
  rintro _ ⟨σ, hσ, rfl⟩
  obtain ⟨S, hS, hsub⟩ := h.exists_subset_trueInputs hpos hi hσ
  exact ⟨S, hsub, hS⟩

/-- All implicants of a cover are minimal when the inputs do not depend on the other atoms. -/
theorem minimal_of_mem_literalSets (hsep : f.SeparableOn inputs) (hi : ∀ a ∈ inputs, a.InRange)
    {S : Set Literal} (hS : S ∈ literalSets implicants) :
    Minimal (· ∈ literalSets implicants) S := by
  refine ⟨hS, fun U hU hsub => ?_⟩
  obtain ⟨τ, hτ, rfl⟩ := h.exists_trueInputs_eq hpos hU
  obtain ⟨t, ht, rfl⟩ := hS
  obtain ⟨σ, T, hσ, hT, hmin, rfl⟩ := h.support t ht
  exact hmin.subset_trueInputs hpos hT hsep hi hσ hτ hsub

end IsSupportCover

/-! ### Comparing the two ways -/

/-- **On monotone inputs, one solver finds the minimal ones of the implicants which two solvers
find.** The two ways find the same implicants when the inputs do not depend on the other atoms. -/
theorem oneSolverImplicants_eq_minimal_twoSolverImplicants (k k' : Coverage) (c c' : Config)
    (hv : f.validate inputs = .ok ()) (hpos : f.PositiveOn inputs)
    (hl : c.limits.isUnbounded = true) (hl' : c'.limits.isUnbounded = true) {p p' : Process}
    (hp : p.IsIdle) (hp' : p'.IsIdle) :
    ∃ single q dual q',
      (oneSolverImplicants (Backtracking k) c f inputs).run.run p = (.ok single, q) ∧
        (twoSolverImplicants (Backtracking k') c' f inputs).run.run p' = (.ok dual, q') ∧
        literalSets single = {S | Minimal (· ∈ literalSets dual) S} ∧
        (f.SeparableOn inputs → literalSets single = literalSets dual) := by
  have hi := Formula.atomInRange_of_validate hv
  obtain ⟨-, -, -, single, hr, hm, -⟩ := gives_oneSolverImplicants (k := k) hv hl p hp
  obtain ⟨-, -, -, dual, hr', hcover, -⟩ := gives_twoSolverImplicants (k := k') hv hl' p' hp'
  have hmin : literalSets single = {S | Minimal (· ∈ literalSets dual) S} :=
    Set.ext fun S => (hm.mem_literalSets_iff hi).trans (hcover.minimal_literalSets_iff hpos hi)
  refine ⟨single, _, dual, _, Prod.ext hr rfl, Prod.ext hr' rfl, hmin, fun hsep => ?_⟩
  rw [hmin]
  ext S
  exact ⟨fun hS => hS.prop, fun hS => hcover.minimal_of_mem_literalSets hpos hsep hi hS⟩

/-- On the clauses `[1, 2]` and `[2, 3]`, with all atoms as inputs, the two ways agree. -/
theorem oneSolverImplicants_eq_twoSolverImplicants_clauses :
    ∃ single q dual q', (oneSolverImplicants (Backtracking .needed) {} [[1, 2], [2, 3]] [3, 1, 2]
        ).run.run { host := .steady ⟨0, 0, 0⟩ } = (.ok single, q) ∧
      (twoSolverImplicants (Backtracking .needed) {} [[1, 2], [2, 3]] [3, 1, 2]).run.run
        { host := .steady ⟨0, 0, 0⟩ } = (.ok dual, q') ∧
      literalSets single = literalSets dual := by
  have hv : Formula.validate [[1, 2], [2, 3]] [3, 1, 2] = .ok () := by decide
  have hp := Process.isIdle_new (.steady ⟨0, 0, 0⟩)
  have hsep : Formula.SeparableOn [[1, 2], [2, 3]] [3, 1, 2] :=
    Formula.separableOn_of_atoms_subset (by decide)
  obtain ⟨single, q, dual, q', hrun, hrun', -, heq⟩ :=
    oneSolverImplicants_eq_minimal_twoSolverImplicants .needed .needed {} {} hv (by decide)
      (by decide) (by decide) hp hp
  exact ⟨single, q, dual, q', hrun, hrun', heq hsep⟩

/-- On the clause `[1, -2]` with the input `1`, which occurs only positively, the two ways differ:
one solver finds that nothing has to be true. When the first model has the hidden atom `2` true,
two solvers find that `1` has to be true besides. -/
theorem oneSolverImplicants_ne_twoSolverImplicants :
    Formula.validate [[1, -2]] [1] = .ok () ∧ Formula.PositiveOn [[1, -2]] [1] ∧
      ((oneSolverImplicants (Backtracking .full) {} [[1, -2]] [1]).run.run
        { host := .steady ⟨0, 0, 0⟩ }).1 = .ok [[]] ∧
      ((twoSolverImplicants (Backtracking .full) {} [[1, -2]] [1]).run.run
        { host := .steady ⟨0, 0, 0⟩ }).1 = .ok [[1], []] ∧
      literalSets [[]] = {∅} ∧ literalSets [[1], []] = {{1}, ∅} ∧
      literalSets [[]] ≠ literalSets [[1], []] := by
  have hsingle : literalSets [[]] = {∅} := by simp [literalSets]
  have hdual : literalSets [[1], []] = {{1}, ∅} := by
    ext S
    simp [literalSets, eq_comm]
  refine ⟨by decide, by decide, by decide +kernel, by decide +kernel, hsingle, hdual, fun he => ?_⟩
  have hmem : {1} ∈ literalSets [[]] := he ▸ hdual ▸ Set.mem_insert _ _
  rw [hsingle] at hmem
  exact Set.singleton_ne_empty (1 : Literal) hmem

end GovernedSat
