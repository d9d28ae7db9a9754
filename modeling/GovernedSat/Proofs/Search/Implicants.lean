import GovernedSat.Proofs.Restriction
import GovernedSat.Proofs.Search.Shrinking
import GovernedSat.Search.Implicants

/-!
# The minimal sets of true inputs, each once

With one solver, every model found is shrunk to a minimal one, after which the clauses exclude the
models above that one and no other. So the minimal models left are those with other inputs true, and
none of them is lost, whatever the models met while shrinking.

## Main definitions

* `IsMinimalEnumeration` — the lists which have the true inputs of every minimal model once.

## Main results

* `Solver.Holds.implicantsWithin` — all implicants which are left.
* `mem_oneSolverImplicants_iff` — all prime implicants of a formula, each once.
-/

namespace GovernedSat

open Assignment

variable {k : Coverage} {s : Solver (Backtracking k)} {f g : Formula} {inputs : List Atom}
  {implicants : List Clause} {τ : Assignment}

/-! ### Lists of implicants -/

/-- The list has the true inputs of every minimal model, as positive literals, exactly once, and
nothing else. -/
structure IsMinimalEnumeration (implicants : List Clause) (f : Formula) (inputs : List Atom) :
    Prop where
  /-- No implicant is repeated, even in another order. -/
  nodup : (implicants.map fun t => {l | l ∈ t}).Nodup
  /-- The members are the true inputs of minimal models. -/
  mem_iff : ∀ t, t ∈ implicants ↔
    ∃ τ, f.IsMinimalOn inputs τ ∧ (inputs.filter τ).map Literal.positive = t

namespace IsMinimalEnumeration

theorem nil (h : ∀ σ : Assignment, ¬ f.IsTrueOn σ) : IsMinimalEnumeration [] f inputs :=
  ⟨List.nodup_nil, fun _ => iff_of_false List.not_mem_nil fun ⟨σ, hσ, _⟩ => h σ hσ.1⟩

/-- The implicant of a minimal model comes before those which are left when the assignments above
the model are excluded. -/
theorem cons (hi : ∀ a ∈ inputs, a.InRange) (hτ : f.IsMinimalOn inputs τ)
    (hg : ∀ υ, g.IsTrueOn υ ↔ f.IsTrueOn υ ∧ ¬ Below inputs τ υ)
    (h : IsMinimalEnumeration implicants g inputs) :
    IsMinimalEnumeration ((inputs.filter τ).map Literal.positive :: implicants) f inputs := by
  refine ⟨?_, fun t => ?_⟩
  · rw [List.map_cons, List.nodup_cons]
    refine ⟨fun hmem => ?_, h.nodup⟩
    obtain ⟨t, ht, he⟩ := List.mem_map.mp hmem
    obtain ⟨υ, hυ, rfl⟩ := (h.mem_iff t).mp ht
    rw [setOf_mem_positive, setOf_mem_positive] at he
    exact ((hg υ).mp hυ.1).2 ((trueInputs_subset_iff hi).mp he.ge)
  · rw [List.mem_cons, h.mem_iff]
    constructor
    · rintro (rfl | ⟨υ, hυ, rfl⟩)
      · exact ⟨τ, hτ, rfl⟩
      · exact ⟨υ, ((Formula.isMinimalOn_of_block hg).mp hυ).1, rfl⟩
    · rintro ⟨υ, hυ, rfl⟩
      by_cases hb : Below inputs τ υ
      · left
        have hb' : Below inputs υ τ := hυ.2 τ hτ.1 hb
        congr 1
        exact List.filter_congr fun a ha => Bool.eq_iff_iff.mpr ⟨hb' a ha, hb a ha⟩
      · exact .inr ⟨υ, (Formula.isMinimalOn_of_block hg).mpr ⟨hυ, hb⟩, rfl⟩

end IsMinimalEnumeration

/-! ### Finding implicants -/

/-- **All implicants which are left**, each once, provided that there are fewer models than solves
allowed. -/
theorem Solver.Holds.implicantsWithin {allowance : Nat} (h : s.Holds f [])
    (hi : ∀ a ∈ inputs, a.InRange) (convention : ValueConvention)
    (ha : f.modelCount inputs < allowance) :
    Yields (implicantsWithin inputs convention allowance) s fun implicants _ n =>
      IsMinimalEnumeration implicants f inputs ∧
        n ≤ implicants.length * (inputs.length + 2) + 1 ∧
        implicants.length ≤ f.modelCount inputs := by
  induction allowance generalizing s f with
  | zero => omega
  | succ allowance ih =>
    refine h.isSatisfiable.bind ?_
    rintro _ s₁ _ ⟨h₁, rfl, ⟨rfl, hs₁⟩ | ⟨rfl, hnone⟩⟩
    · refine (h₁.shrinkModel hs₁ hi convention .byAssumption).bind ?_
      rintro _ s₂ n ⟨τ, hτ, -, rfl, hn, g, h₂, hg⟩
      have hg := hg rfl
      have hlt : g.modelCount inputs < f.modelCount inputs :=
        Formula.modelCount_lt (fun υ hυ => ((hg υ).mp hυ).1) hτ.1 fun υ hυ he =>
          ((hg υ).mp hυ).2 fun a ha => (he a ha).trans
      refine .bind_process (ensures_logEvent _) ?_
      refine (ih h₂ (by omega)).bind ?_
      rintro implicants _ m ⟨hm, hle, hlen⟩
      refine yields_pure ⟨hm.cons hi hτ hg, ?_, ?_⟩
      · rw [List.length_cons, Nat.succ_mul]
        omega
      · rw [List.length_cons]
        omega
    · exact yields_pure ⟨.nil fun σ => hnone σ nofun, by omega, Nat.zero_le _⟩

/-! ### All implicants -/

theorem gives_oneSolverImplicants {c : Config} (hv : f.validate inputs = .ok ())
    (hl : c.limits.isUnbounded = true) :
    Gives (oneSolverImplicants (Backtracking k) c f inputs) fun implicants n =>
      IsMinimalEnumeration implicants f inputs ∧
        n ≤ implicants.length * (inputs.length + 2) + 1 ∧
        implicants.length ≤ 2 ^ inputs.length := by
  rw [oneSolverImplicants, hv, orFormulaError_ok, pure_bind]
  refine .governed hl (gives_withSolver (Formula.inRange_of_validate hv) fun s hs => ?_)
  obtain ⟨a, ha, hlt, -⟩ := exists_allowance k inputs.length
  have hle := f.modelCount_le inputs
  refine .bind_process ha ?_
  refine (hs.implicantsWithin (Formula.atomInRange_of_validate hv) c.convention (by omega)).bind ?_
  rintro implicants s' n ⟨hm, hn, hlen⟩
  exact .bind_process (ensures_logEvent _) (yields_pure ⟨hm, by omega, by omega⟩)

/-- **The prime implicants with one solver are exactly the minimal sets.** In an idle process and
without limits, the implicants given are, as sets of positive literals, the minimal ones among the
sets of inputs which are all the true inputs of some model, and none is given twice. -/
theorem mem_oneSolverImplicants_iff (k : Coverage) (c : Config) (hv : f.validate inputs = .ok ())
    (hl : c.limits.isUnbounded = true) {p : Process} (hp : p.IsIdle) :
    ∃ implicants p',
      (oneSolverImplicants (Backtracking k) c f inputs).run.run p = (.ok implicants, p') ∧
        (implicants.map fun t => {l | l ∈ t}).Nodup ∧
        ∀ S : Set Literal, (∃ t ∈ implicants, {l | l ∈ t} = S) ↔
          Minimal (fun S => ∃ σ : Assignment, f.IsTrueOn σ ∧ S = σ.trueInputs inputs) S := by
  obtain ⟨-, n, -, implicants, hr, hm, -⟩ := gives_oneSolverImplicants (k := k) hv hl p hp
  refine ⟨implicants, _, Prod.ext hr rfl, hm.nodup, fun S => ?_⟩
  rw [minimal_trueInputs_iff (Formula.atomInRange_of_validate hv)]
  constructor
  · rintro ⟨t, ht, rfl⟩
    obtain ⟨τ, hτ, rfl⟩ := (hm.mem_iff t).mp ht
    exact ⟨τ, hτ, setOf_mem_positive τ inputs⟩
  · rintro ⟨τ, hτ, rfl⟩
    exact ⟨_, (hm.mem_iff _).mpr ⟨τ, hτ, rfl⟩, setOf_mem_positive τ inputs⟩

/-- One of the prime implicants of the clause `[1, 2]` is the set of `2` alone. -/
theorem mem_oneSolverImplicants_clause :
    ∃ implicants p', (oneSolverImplicants (Backtracking .needed) {} [[1, 2]] [1, 2]).run.run
        { host := .steady ⟨0, 0, 0⟩ } = (.ok implicants, p') ∧
      (implicants.map fun t => {l | l ∈ t}).Nodup ∧
      ∃ t ∈ implicants, {l | l ∈ t} = Assignment.trueInputs (fun a => a = 2) [1, 2] := by
  have hv : Formula.validate [[1, 2]] [1, 2] = .ok () := by decide
  have hi := Formula.atomInRange_of_validate hv
  obtain ⟨implicants, p', hrun, hn, hm⟩ := mem_oneSolverImplicants_iff .needed {} hv (by decide)
    (Process.isIdle_new (.steady ⟨0, 0, 0⟩))
  refine ⟨implicants, p', hrun, hn, (hm _).mpr ((minimal_trueInputs_iff hi).mpr ?_)⟩
  refine ⟨fun a => a = 2, ⟨by decide, fun υ hυ hb a _ hτ => ?_⟩, rfl⟩
  -- A model below has `1` false, and so `2` true.
  obtain rfl : a = 2 := by simpa using hτ
  have h₁ : υ 1 = false := eq_false_of_ne_true fun h => absurd (hb 1 (by decide) h) (by decide)
  obtain ⟨l, hl, ht⟩ := hυ [1, 2] (by decide)
  rcases List.mem_cons.mp hl with rfl | hl
  · exact absurd (show υ 1 = true from ht) (by simp [h₁])
  · rw [List.mem_singleton.mp hl] at ht
    exact ht

end GovernedSat
