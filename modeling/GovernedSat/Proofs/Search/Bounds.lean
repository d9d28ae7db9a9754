import GovernedSat.Proofs.Search.DualImplicants
import GovernedSat.Proofs.Search.Enumeration
import GovernedSat.Proofs.Search.Implicants

/-!
# How many solves are made

Every solve of a procedure finds a model or is the last of its kind, and a model which is found is
never found again. So the models on the projection, and the implicants, are at most as many as there
are sets of the atoms, and the solves which are made are bounded by what is found. Within a shrink
every solve which finds a model leads to a smaller minim: the model makes the last minim false and
keeps the facts, which leaves fewer inputs to be true however the atoms left open are read.

## Main definitions

* `ShrinksThrough` — the minims which are met in a shrink, one after another.

## Main results

* `ShrinksThrough.run_shrinkWithin` — shrinking gives the last minim which is met.
* `Solver.Holds.exists_shrinksThrough` — every minim which is met is smaller than the one before.
* `solves_are_bounded` — the number of solves of every procedure.
-/

namespace GovernedSat

open Assignment

/-! ### The minims met in a shrink -/

section

variable {E : Type} [Engine E] {inputs : List Atom} {convention : ValueConvention}
  {facts : FactKeeping}

/-- The minims met in a shrink, from one state of a solver and of the process to another. The minim
of the last model is forbidden. When the solve after that finds a model, its minim is the next one,
and otherwise the shrink is at its end. -/
inductive ShrinksThrough (inputs : List Atom) (convention : ValueConvention)
    (facts : FactKeeping) : Solver E × Process → List (List Atom) → Solver E × Process → Prop
  /-- The solve finds no model. -/
  | last {s s₁ s₂ : Solver E} {p p₁ p₂ : Process} {minim : List Atom}
      (forbidden : ((forbidMinim inputs convention facts).run.run s).run p =
        pure ((.ok minim, s₁), p₁))
      (solved : (isSatisfiable.run.run s₁).run p₁ = pure ((.ok false, s₂), p₂)) :
      ShrinksThrough inputs convention facts (s, p) [minim] (s₂, p₂)
  /-- The solve finds a model. -/
  | next {s s₁ s₂ : Solver E} {p p₁ p₂ : Process} {minim : List Atom} {minims : List (List Atom)}
      {e : Solver E × Process}
      (forbidden : ((forbidMinim inputs convention facts).run.run s).run p =
        pure ((.ok minim, s₁), p₁))
      (solved : (isSatisfiable.run.run s₁).run p₁ = pure ((.ok true, s₂), p₂))
      (rest : ShrinksThrough inputs convention facts (s₂, p₂) minims e) :
      ShrinksThrough inputs convention facts (s, p) (minim :: minims) e

namespace ShrinksThrough

variable {b e : Solver E × Process} {minims : List (List Atom)}

theorem ne_nil (h : ShrinksThrough inputs convention facts b minims e) : minims ≠ [] := by
  cases h <;> exact List.cons_ne_nil _ _

/-- **Shrinking gives the last minim which is met**, if there are no more of them than solves
allowed. -/
theorem run_shrinkWithin {allowance : Nat} (h : ShrinksThrough inputs convention facts b minims e)
    (ha : minims.length ≤ allowance) :
    ((shrinkWithin inputs convention facts allowance).run.run b.1).run b.2 =
      pure ((.ok (minims.getLast h.ne_nil), e.1), e.2) := by
  obtain ⟨allowance, rfl⟩ : ∃ n, allowance = n + 1 :=
    Nat.exists_eq_succ_of_ne_zero fun h₀ => h.ne_nil (List.eq_nil_of_length_eq_zero (by omega))
  induction h generalizing allowance with
  | last forbidden solved =>
    rw [shrinkWithin, run_search_bind_ok forbidden, run_search_bind_ok solved]
    rfl
  | next forbidden solved rest ih =>
    rw [List.length_cons] at ha
    have hne := List.length_pos_of_ne_nil rest.ne_nil
    obtain ⟨allowance, rfl⟩ : ∃ n, allowance = n + 1 := Nat.exists_eq_succ_of_ne_zero (by omega)
    rw [shrinkWithin, run_search_bind_ok forbidden, run_search_bind_ok solved,
      List.getLast_cons rest.ne_nil]
    exact ih allowance (by omega)

end ShrinksThrough

end

/-! ### Shrinking with a backtracking solver -/

variable {k : Coverage} {s : Solver (Backtracking k)} {f : Formula} {inputs : List Atom}
  {facts : FactKeeping} {σ τ : Assignment} {p : Process}

/-- Strictly below, fewer inputs are true. -/
theorem Assignment.Below.filter_ssubset (h : Below inputs τ σ) (hn : ¬ Below inputs σ τ) :
    inputs.filter τ ⊆ inputs.filter σ ∧ ¬ inputs.filter σ ⊆ inputs.filter τ := by
  refine ⟨fun a ha => ?_, fun hsub => hn fun a ha hσ => ?_⟩
  · rw [List.mem_filter] at ha ⊢
    exact ⟨ha.1, h a ha.1 ha.2⟩
  · exact (List.mem_filter.mp (hsub (List.mem_filter.mpr ⟨ha, hσ⟩))).2

/-- **Every minim which is met is smaller than the one before**, and one solve is made for each of
them. -/
theorem Solver.Holds.exists_shrinksThrough (h : s.Holds f []) (hs : s.Shows f [])
    (hi : ∀ a ∈ inputs, a.InRange) (convention : ValueConvention) (facts : FactKeeping)
    (hp : p.IsIdle) :
    let minim := inputs.filter (convention.reading s.value?)
    ∃ minims s' p', ShrinksThrough inputs convention facts (s, p) minims (s', p') ∧
      minims.head? = some minim ∧
      minims.IsChain (fun m m' => m' ⊆ m ∧ ¬ m ⊆ m') ∧
      p'.solves = p.solves + minims.length ∧ minims.length ≤ minim.length + 1 := by
  intro minim
  obtain ⟨n, hn⟩ : ∃ n, minim.length = n := ⟨_, rfl⟩
  induction n using Nat.strong_induction_on generalizing s f p with
  | _ n ih =>
    obtain ⟨m, s₁, p₁, _, hforbid, hp₁, hn₁, rfl, rfl, h₁⟩ :=
      (h.forbidMinim hs.proper hi convention facts).exists_run hp
    obtain ⟨found, s₂, p₂, _, hsolve, hp₂, hn₂, h₂, rfl, hfound⟩ := h₁.isSatisfiable.exists_run hp₁
    rw [hn₁] at hn₂
    obtain ⟨rfl, hs₂⟩ | ⟨rfl, -⟩ := hfound
    · have hσ₂ := hs₂.isTrueOn _ (hs₂.proper.agreesWith_reading convention)
      obtain ⟨-, hnot, hb⟩ := (isTrueOn_forbid_iff hi facts).mp hσ₂
      have hlt : _ < minim.length := hb.length_filter_lt hnot
      have hs₂' : s₂.Shows (facts.forbid f (convention.reading s.value?) inputs) [] :=
        ⟨hs₂.proper, fun τ hτ => ⟨(hs₂.isTrueOn τ hτ).1, by simp⟩⟩
      obtain ⟨minims, s', p', hrest, hhead, hchain, hcount, hle⟩ :=
        ih _ (hn ▸ hlt) h₂ hs₂' hp₂ rfl
      refine ⟨minim :: minims, s', p', .next hforbid hsolve hrest, rfl, ?_, ?_, ?_⟩
      · rw [List.isChain_cons, hhead]
        refine ⟨?_, hchain⟩
        rintro _ ⟨⟩
        exact hb.filter_ssubset hnot
      · rw [hcount, hn₂, List.length_cons]
        omega
      · rw [List.length_cons]
        omega
    · exact ⟨[minim], s₂, p₂, .last hforbid hsolve, rfl, List.isChain_singleton minim,
        hn₂, by simp⟩

/-- A shrink gives the last minim which is met. -/
theorem ShrinksThrough.run_shrinkModel {minims : List (List Atom)} {s' : Solver (Backtracking k)}
    {p' : Process} {convention : ValueConvention}
    (h : ShrinksThrough inputs convention facts (s, p) minims (s', p'))
    (ha : minims.length ≤ inputs.length + 1) :
    ((shrinkModel inputs convention facts).run.run s).run p =
      pure ((.ok (minims.getLast h.ne_nil), s'), p') := by
  have hallowance := two_pow_lt_allowance k p inputs.length
  have hlt := inputs.length.lt_two_pow_self
  have hle : minims.length ≤ Engine.allowance (Backtracking k) p inputs.length := by omega
  exact h.run_shrinkWithin hle

/-! ### The number of solves -/

/-- **The number of solves is bounded.** In an idle process and without limits, enumeration makes
one solve for each model and one more, and the implicants are found with at most as many solves for
each as there are inputs, and two or three more, and a last one. The models and the implicants are
at most as many as there are sets of the atoms. Every shrink, from whatever clauses it starts, is a
sequence of minims of which each is a strict part of the one before, with one solve for each. -/
theorem solves_are_bounded (k : Coverage) (c : Config) {f : Formula} {atoms : List Atom}
    (hv : f.validate atoms = .ok ()) (hl : c.limits.isUnbounded = true) {p : Process}
    (hp : p.IsIdle) :
    (∃ models p', (allModels (Backtracking k) c f atoms).run.run p = pure (.ok models, p') ∧
      p'.solves = p.solves + (models.length + 1) ∧ models.length ≤ 2 ^ atoms.length) ∧
    (∃ implicants p',
      (oneSolverImplicants (Backtracking k) c f atoms).run.run p = pure (.ok implicants, p') ∧
        p'.solves ≤ p.solves + (implicants.length * (atoms.length + 2) + 1) ∧
        implicants.length ≤ 2 ^ atoms.length) ∧
    (∃ implicants p',
      (twoSolverImplicants (Backtracking k) c f atoms).run.run p = pure (.ok implicants, p') ∧
        p'.solves ≤ p.solves + (implicants.length * (atoms.length + 3) + 1) ∧
        implicants.length ≤ 2 ^ atoms.length) ∧
    ∀ (facts : FactKeeping) (g : Formula) (s : Solver (Backtracking k)), s.Holds g [] →
      s.Shows g [] → ∀ q : Process, q.IsIdle →
        ∃ minims s' q', ∃ hm : ShrinksThrough atoms c.convention facts (s, q) minims (s', q'),
          ((shrinkModel atoms c.convention facts).run.run s).run q =
              pure ((.ok (minims.getLast hm.ne_nil), s'), q') ∧
            minims.IsChain (fun m m' => m' ⊆ m ∧ ¬ m ⊆ m') ∧
            q'.solves = q.solves + minims.length ∧ minims.length ≤ atoms.length + 1 := by
  refine ⟨?_, ?_, ?_, fun facts g s h hs q hq => ?_⟩
  · obtain ⟨models, p', n, hrun, -, hn, -, rfl, hlen⟩ :=
      (gives_allModels (k := k) hv hl).exists_run hp
    exact ⟨models, p', hrun, hn, hlen⟩
  · obtain ⟨implicants, p', n, hrun, -, hn, -, hle, hlen⟩ :=
      (gives_oneSolverImplicants (k := k) hv hl).exists_run hp
    exact ⟨implicants, p', hrun, by omega, hlen⟩
  · obtain ⟨implicants, p', n, hrun, -, hn, -, hle, hlen⟩ :=
      (gives_twoSolverImplicants (k := k) hv hl).exists_run hp
    exact ⟨implicants, p', hrun, by omega, hlen⟩
  · obtain ⟨minims, s', q', hm, -, hchain, hcount, hle⟩ :=
      h.exists_shrinksThrough hs (Formula.atomInRange_of_validate hv) c.convention facts hq
    have hfilter := List.length_filter_le (c.convention.reading s.value?) atoms
    exact ⟨minims, s', q', hm, hm.run_shrinkModel (by omega), hchain, hcount, by omega⟩

/-- For the clause `[1, 2]` enumeration makes one solve more than there are models, which are at
most four, and the shrink of the first model which is found, by clauses, makes at most three. -/
theorem solves_are_bounded_clause :
    let p : Process := { host := .steady ⟨0, 0, 0⟩ }
    (∃ models p', (allModels (Backtracking .needed) {} [[1, 2]] [1, 2]).run.run p =
        pure (.ok models, p') ∧ p'.solves = models.length + 1 ∧ models.length ≤ 4) ∧
      ∃ (s : Solver (Backtracking .needed)) (q : Process) (minim : List Atom)
        (s' : Solver (Backtracking .needed)) (q' : Process), s.Shows [[1, 2]] [] ∧ q.IsIdle ∧
        ((shrinkModel [1, 2] .dontCareAsTrue .byClause).run.run s).run q =
          pure ((.ok minim, s'), q') ∧ q'.solves ≤ q.solves + 3 := by
  intro p
  have hv : Formula.validate [[1, 2]] [1, 2] = .ok () := by decide
  have hp : p.IsIdle := Process.isIdle_new _
  obtain ⟨⟨models, p', hrun, hn, hlen⟩, -, -, hshrink⟩ :=
    solves_are_bounded .needed {} hv (by decide) hp
  refine ⟨⟨models, p', hrun, hn.trans (Nat.zero_add _), hlen⟩, ?_⟩
  obtain ⟨s, p₁, -, -, hp₁, -, h, -⟩ := (gives_freshSolver (k := .needed)
    (Formula.inRange_of_validate hv)).exists_run hp
  obtain ⟨_, s₁, q, _, -, hq, -, h₁, -, ⟨-, hs⟩ | ⟨-, hnone⟩⟩ := h.isSatisfiable.exists_run hp₁
  · obtain ⟨minims, s', q', hm, hrun, -, hcount, hle⟩ := hshrink .byClause _ s₁ h₁ hs q hq
    exact ⟨s₁, q, _, s', q', hs, hq, hrun, by rw [hcount]; exact Nat.add_le_add_left hle _⟩
  · exact absurd (by decide) (hnone (fun _ => true) nofun)

end GovernedSat
