import GovernedSat.Proofs.Search.Answers
import GovernedSat.Proofs.Search.Solving
import GovernedSat.Search.ModelStream

/-!
# All models, each once

A stream of models blocks every model found by its negation, which on the atoms of the projection
excludes this model and no other. So the clauses of the solver always have exactly those models of
the formula which were not found yet, as seen on the projection, and they are exhausted after
finitely many solves.

## Main definitions

* `ModelStream.Holds` — a stream with a solver of which the clauses are known.

## Main results

* `ModelStream.Holds.next` — the next model, and what is left to be found.
* `ModelStream.Holds.restWithin` — all models which are left, each once.
* `allModels_eq` — all models of a formula, each once.
-/

namespace GovernedSat

variable {k : Coverage} {s : Solver (Backtracking k)} {f : Formula} {P : List Atom}
  {convention : ValueConvention}

/-! ### Lists of models -/

/-- The list has every model of the formula, as seen on the atoms, exactly once, and nothing
else. -/
structure IsEnumeration (models : List Clause) (f : Formula) (P : List Atom) : Prop where
  /-- No model is repeated. -/
  nodup : models.Nodup
  /-- The members are the restrictions of models. -/
  mem_iff : ∀ m, m ∈ models ↔ ∃ σ : Assignment, f.IsTrueOn σ ∧ σ.restrict P = m

namespace IsEnumeration

variable {models : List Clause} {σ : Assignment}

theorem nil (h : ∀ σ : Assignment, ¬ f.IsTrueOn σ) : IsEnumeration [] f P :=
  ⟨List.nodup_nil, fun _ => iff_of_false List.not_mem_nil fun ⟨σ, hσ, _⟩ => h σ hσ⟩

/-- A model comes before those which are left when it is blocked. -/
theorem cons (hP : ∀ a ∈ P, a.InRange) (hσ : f.IsTrueOn σ)
    (h : IsEnumeration models (f ++ [(σ.restrict P).map (-·)]) P) :
    IsEnumeration (σ.restrict P :: models) f P := by
  refine ⟨List.nodup_cons.mpr ⟨?_, h.nodup⟩, fun m => ?_⟩
  · rw [h.mem_iff]
    rintro ⟨τ, hτ, he⟩
    exact ((Formula.isTrueOn_block_iff hP).mp hτ).2 ((Assignment.restrict_eq_iff hP).mp he)
  · rw [List.mem_cons, h.mem_iff]
    constructor
    · rintro (rfl | ⟨τ, hτ, rfl⟩)
      · exact ⟨σ, hσ, rfl⟩
      · exact ⟨τ, ((Formula.isTrueOn_block_iff hP).mp hτ).1, rfl⟩
    · rintro ⟨τ, hτ, rfl⟩
      by_cases he : ∀ a ∈ P, τ a = σ a
      · exact .inl ((Assignment.restrict_eq_iff hP).mpr he)
      · exact .inr ⟨τ, (Formula.isTrueOn_block_iff hP).mpr ⟨hτ, he⟩, rfl⟩

end IsEnumeration

/-! ### Finding models -/

/-- Either a model is found and blocked, or there is none. -/
theorem Solver.Holds.findModel (h : s.Holds f []) (hP : ∀ a ∈ P, a.InRange) :
    Yields (ModelStream.findModel P convention) s fun r s' n => n = 1 ∧
      ((∃ σ : Assignment, f.IsTrueOn σ ∧ r = some (σ.restrict P) ∧
          s'.Holds (f ++ [(σ.restrict P).map (-·)]) []) ∨
        r = none ∧ s'.Holds f [] ∧ ∀ σ : Assignment, ¬ f.IsTrueOn σ) := by
  refine h.isSatisfiable.bind ?_
  rintro _ s' _ ⟨h', rfl, ⟨rfl, hproper, htrue⟩ | ⟨rfl, hnone⟩⟩
  · have hσ := (htrue _ (hproper.agreesWith_reading convention)).1
    have hread := ModelStream.readModel_eq convention hproper.isSome hP
    generalize convention.reading s'.value? = σ at hσ hread
    have hr : Clause.InRange (σ.restrict P) := Assignment.inRange_restrict hP
    refine .bind_get ?_
    simp only [hread, Clause.negation?_eq_some hr, orOverflow_some, pure_bind]
    refine (yields_lift (h'.addClause hr.map_neg)).bind ?_
    rintro _ s'' _ ⟨h'', -, rfl⟩
    exact yields_pure ⟨rfl, .inl ⟨σ, hσ, rfl, h''⟩⟩
  · exact yields_pure ⟨rfl, .inr ⟨rfl, h', fun σ => hnone σ nofun⟩⟩

/-- The model found by a solver is blocked. -/
theorem Solver.Holds.found (h : s.Holds f []) (hP : ∀ a ∈ P, a.InRange) :
    (ModelStream.found P convention s .satisfiable).2.Holds
      (f ++ [((convention.reading s.value?).restrict P).map (-·)]) [] where
  openClause := rfl
  clauses := by
    change s.engine.clauses ++ [s.openClause ++ _] = _
    rw [h.clauses, h.openClause, List.nil_append]
  assumptions := h.assumptions
  inRange := Formula.inRange_append.mpr
    ⟨h.inRange, by simpa using (Assignment.inRange_restrict hP).map_neg⟩
  assumedInRange := Clause.inRange_nil
  quiet := h.quiet

/-! ### Streams -/

namespace ModelStream

variable {stream : ModelStream (Backtracking k)}

/-- The stream has a solver with the clauses given, and owns no governor. -/
structure Holds (stream : ModelStream (Backtracking k)) (f : Formula) : Prop where
  /-- The solver has the clauses. -/
  solver : ∃ s, stream.solver = some s ∧ s.Holds f []
  /-- There is no governor. -/
  governor : stream.governor = none

/-- Closing gives the solver back, whether there is one or not. -/
theorem ensures_close (hg : stream.governor = none) :
    Ensures (close.run stream) fun r n =>
      r = ((), { stream with solver := none, governor := none }) ∧ n = 0 := by
  cases hs : stream.solver with
  | none =>
    have hrun : close.run stream = pure ((), { stream with solver := none, governor := none }) := by
      simp [close, hs, hg]
    rw [hrun]
    exact ensures_pure ⟨rfl, rfl⟩
  | some s =>
    have hrun : close.run stream = s.release >>= fun _ =>
        pure ((), { stream with solver := none, governor := none }) := by
      simp [close, hs, hg]
    rw [hrun]
    refine (Solver.ensures_release s).bind ?_
    rintro _ _ rfl
    exact ensures_pure ⟨rfl, rfl⟩

/-- **The next model** is blocked when it is found, and when there is none the stream is closed. -/
theorem Holds.next (h : stream.Holds f) (hP : ∀ a ∈ stream.projection, a.InRange) :
    Yields next stream fun r stream' n => n = 1 ∧
      ((∃ σ : Assignment, f.IsTrueOn σ ∧ r = some (σ.restrict stream.projection) ∧
          stream'.projection = stream.projection ∧
          stream'.Holds (f ++ [(σ.restrict stream.projection).map (-·)])) ∨
        r = none ∧ stream'.governor = none ∧ ∀ σ : Assignment, ¬ f.IsTrueOn σ) := by
  obtain ⟨s, hs, hf⟩ := h.solver
  refine .bind_get ?_
  simp only [hs]
  refine (yields_process (hf.findModel hP)).bind ?_
  rintro ⟨_, s'⟩ _ _ ⟨rfl, r, rfl, rfl, ⟨σ, hσ, rfl, h'⟩ | ⟨rfl, -, hnone⟩⟩
  · refine .bind_set (.bind_set (.bind_process (ensures_logEvent _) (yields_pure ⟨rfl, .inl ?_⟩)))
    exact ⟨σ, hσ, rfl, rfl, ⟨s', rfl, h'⟩, h.governor⟩
  · refine .bind_set (.bind_process (ensures_logEvent _) ?_)
    have hg : ({ stream with solver := some s' } : ModelStream (Backtracking k)).governor = none :=
      h.governor
    refine (yields_lift (ensures_close hg)).bind ?_
    rintro _ _ _ ⟨hr, rfl⟩
    cases hr
    exact yields_pure ⟨rfl, .inr ⟨rfl, rfl, hnone⟩⟩

/-- **All models which are left**, each once, provided that they are fewer than allowed. -/
theorem Holds.restWithin {allowance : Nat} (h : stream.Holds f)
    (hP : ∀ a ∈ stream.projection, a.InRange)
    (ha : f.modelCount stream.projection < allowance) :
    Yields (restWithin allowance) stream fun models stream' n =>
      IsEnumeration models f stream.projection ∧ stream'.governor = none ∧
        n = models.length + 1 ∧ models.length ≤ f.modelCount stream.projection := by
  induction allowance generalizing stream f with
  | zero => omega
  | succ allowance ih =>
    refine (h.next hP).bind ?_
    rintro _ stream' _ ⟨rfl, ⟨σ, hσ, rfl, hp, h'⟩ | ⟨rfl, hg, hnone⟩⟩
    · have hlt := Formula.modelCount_block_lt (List.Subset.refl _) hP hσ
      rw [← hp] at hP hlt h' ha ⊢
      refine (ih h' hP (by omega)).bind ?_
      rintro models _ _ ⟨hm, hg, rfl, hle⟩
      refine yields_pure ⟨hm.cons hP hσ, hg, ?_, ?_⟩
      · rw [List.length_cons]
        omega
      · rw [List.length_cons]
        omega
    · exact yields_pure ⟨.nil hnone, hg, rfl, Nat.zero_le _⟩

theorem gives_start (hv : f.validate P = .ok ()) (convention : ValueConvention) :
    Gives (start (E := Backtracking k) f P convention) fun stream n =>
      stream.Holds f ∧ stream.projection = P ∧ n = 0 := by
  rw [start, hv, orFormulaError_ok, pure_bind]
  refine (gives_freshSolver (Formula.inRange_of_validate hv)).bind ?_
  rintro s _ ⟨h, rfl⟩
  exact gives_pure ⟨⟨⟨s, rfl, h⟩, rfl⟩, rfl, rfl⟩

/-- The allowance is never exhausted. -/
theorem Holds.drain (h : stream.Holds f) (hP : ∀ a ∈ stream.projection, a.InRange) :
    Gives stream.drain fun models n => IsEnumeration models f stream.projection ∧
      n = models.length + 1 ∧ models.length ≤ 2 ^ stream.projection.length := by
  have hle := f.modelCount_le stream.projection
  obtain ⟨a, ha, hlt, -⟩ := exists_allowance k stream.projection.length
  refine .bind_process ha ?_
  refine (gives_lift (h.restWithin hP (Nat.lt_of_le_of_lt hle hlt))).bind ?_
  rintro ⟨_, stream'⟩ _ ⟨models, rfl, hm, hg, rfl, hn⟩
  refine (gives_lift (ensures_close hg)).bind ?_
  rintro _ _ ⟨rfl, rfl⟩
  exact gives_pure ⟨hm, rfl, by omega⟩

end ModelStream

/-! ### All models -/

theorem gives_allModels {c : Config} (hv : f.validate P = .ok ())
    (hl : c.limits.isUnbounded = true) :
    Gives (allModels (Backtracking k) c f P) fun models n =>
      IsEnumeration models f P ∧ n = models.length + 1 ∧ models.length ≤ 2 ^ P.length := by
  rw [allModels, hv, orFormulaError_ok, pure_bind]
  refine .governed hl ?_
  refine (ModelStream.gives_start hv c.convention).bind ?_
  rintro stream _ ⟨h, rfl, rfl⟩
  refine (h.drain (Formula.atomInRange_of_validate hv)).mono ?_
  rintro models _ ⟨hm, rfl, hn⟩
  exact ⟨hm, by omega, hn⟩

/-- **Every model is found exactly once.** In an idle process and without limits, enumeration gives
each restriction to the projection of an assignment which makes the formula true, once, and nothing
else. -/
theorem mem_allModels_iff (k : Coverage) (c : Config) (hv : f.validate P = .ok ())
    (hl : c.limits.isUnbounded = true) {p : Process} (hp : p.IsIdle) :
    ∃ models p', (allModels (Backtracking k) c f P).run.run p = (.ok models, p') ∧ models.Nodup ∧
      ∀ m, m ∈ models ↔ ∃ σ : Assignment, f.IsTrueOn σ ∧ σ.restrict? P = some m := by
  obtain ⟨-, n, -, models, hr, hm, -⟩ := gives_allModels (k := k) hv hl p hp
  refine ⟨models, _, Prod.ext hr rfl, hm.nodup, fun m => ?_⟩
  simp only [hm.mem_iff, Assignment.restrict?_eq_some (Formula.atomInRange_of_validate hv),
    Option.some.injEq]

/-- On the atoms `2` and `1`, in this order, the clause `[1, 2]` has the model on which `2` alone is
true, but not the one on which neither is. -/
theorem mem_allModels_clause :
    ∃ models p', (allModels (Backtracking .needed) {} [[1, 2]] [2, 1]).run.run
        { host := .steady ⟨0, 0, 0⟩ } = (.ok models, p') ∧
      models.Nodup ∧ [2, -1] ∈ models ∧ [-2, -1] ∉ models := by
  have hv : Formula.validate [[1, 2]] [2, 1] = .ok () := by decide
  obtain ⟨models, p', hrun, hn, hm⟩ :=
    mem_allModels_iff .needed {} hv (by decide) (Process.isIdle_new (.steady ⟨0, 0, 0⟩))
  refine ⟨models, p', hrun, hn, (hm _).mpr ⟨fun a => a = 2, by decide, by decide⟩, fun h => ?_⟩
  obtain ⟨σ, hσ, hr⟩ := (hm _).mp h
  have hP := Formula.atomInRange_of_validate hv
  have hl : ∀ l ∈ ([-2, -1] : Clause), l.IsTrueOn σ := by
    rw [Assignment.restrict?_eq_some hP, Option.some.injEq] at hr
    rw [← hr, Assignment.forall_isTrueOn_restrict hP]
    exact fun _ _ => rfl
  have h₁ : ¬ Literal.IsTrueOn 1 σ := (Literal.isTrueOn_neg (by decide)).mp (hl (-1) (by decide))
  have h₂ : ¬ Literal.IsTrueOn 2 σ := (Literal.isTrueOn_neg (by decide)).mp (hl (-2) (by decide))
  simp [h₁, h₂] at hσ

end GovernedSat
