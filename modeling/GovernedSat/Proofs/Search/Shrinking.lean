import GovernedSat.Proofs.Minimality
import GovernedSat.Proofs.Search.Solving
import GovernedSat.Search.Shrinking

/-!
# Shrinking ends with a minimal model

Forbidding the true inputs of a model and keeping the other inputs false leaves exactly the models
strictly below it. So each further model found has fewer true inputs, and the last one is minimal
among the models of the clauses at the start: a model below it would have been below all the models
forbidden, and so be left. With the facts kept by assumptions, the clauses at the end exclude, of
the models at the start, those above the last one and no other, as all the models forbidden are
above it.

## Main definitions

* `FactKeeping.clauses`, `FactKeeping.assumptions` — what keeps the facts false.

## Main results

* `Solver.Holds.forbidMinim` — what is left when the true inputs of a model are forbidden.
* `Solver.Holds.shrinkModel` — shrinking ends with a minimal model.
-/

namespace GovernedSat

open Assignment

variable {k : Coverage} {s : Solver (Backtracking k)} {f g : Formula} {as kept : Clause}
  {inputs : List Atom} {facts : FactKeeping} {σ τ : Assignment}

/-! ### Reading values -/

theorem readValues_eq {E : Type} [Engine E] {s : Solver E} (convention : ValueConvention)
    (hs : ∀ a, (s.value? a).isSome) (atoms : List Atom) :
    readValues s atoms convention =
      some (atoms.map fun a => (a, convention.reading s.value? a)) := by
  refine mapM_eq_some_map fun a _ => ?_
  obtain ⟨v, hv⟩ := Option.isSome_iff_exists.mp (hs a)
  rw [ValueConvention.reading, hv, Option.map_some, Option.any_some]

/-- The atoms which count as true, and those which do not. -/
theorem partition_values (σ : Assignment) (inputs : List Atom) :
    (inputs.map fun a => (a, σ a)).partition (·.2) =
      ((inputs.filter σ).map fun a => (a, σ a),
        (inputs.filter fun a => !σ a).map fun a => (a, σ a)) := by
  rw [List.partition_eq_filter_filter, List.filter_map, List.filter_map]
  rfl

/-! ### Keeping facts -/

/-- The clauses by which facts are kept. -/
def FactKeeping.clauses : FactKeeping → Clause → Formula
  | byAssumption, _ => []
  | byClause, kept => kept.map ([·])

/-- The assumptions by which facts are kept. -/
def FactKeeping.assumptions : FactKeeping → Clause → Clause
  | byAssumption, kept => kept
  | byClause, _ => []

theorem FactKeeping.isTrueOn_clauses (facts : FactKeeping) (kept : Clause) (τ : Assignment) :
    (facts.clauses kept).IsTrueOn τ ∧ (∀ l ∈ facts.assumptions kept, l.IsTrueOn τ) ↔
      ∀ l ∈ kept, l.IsTrueOn τ := by
  cases facts with
  | byAssumption => simp [clauses, assumptions]
  | byClause => simp [clauses, assumptions, Formula.IsTrueOn]

theorem FactKeeping.clauses_cons (facts : FactKeeping) (l : Literal) (kept : Clause) :
    facts.clauses (l :: kept) = facts.clauses [l] ++ facts.clauses kept := by
  cases facts <;> rfl

theorem FactKeeping.assumptions_cons (facts : FactKeeping) (l : Literal) (kept : Clause) :
    facts.assumptions (l :: kept) = facts.assumptions [l] ++ facts.assumptions kept := by
  cases facts <;> rfl

/-- The clauses after the true inputs of an assignment are forbidden and its facts kept. -/
def FactKeeping.forbid (facts : FactKeeping) (f : Formula) (σ : Assignment) (inputs : List Atom) :
    Formula :=
  f ++ [σ.minimBlock inputs] ++ facts.clauses (σ.factLiterals inputs)

section Forbid

variable (hi : ∀ a ∈ inputs, a.InRange)

include hi

/-- What is left are the models strictly below. -/
theorem isTrueOn_forbid_iff (facts : FactKeeping) :
    (facts.forbid f σ inputs).IsTrueOn τ ∧
        (∀ l ∈ facts.assumptions (σ.factLiterals inputs), l.IsTrueOn τ) ↔
      f.IsTrueOn τ ∧ ¬ Below inputs σ τ ∧ Below inputs τ σ := by
  rw [FactKeeping.forbid, Formula.isTrueOn_append, and_assoc, facts.isTrueOn_clauses,
    forall_isTrueOn_factLiterals hi, Formula.isTrueOn_append, Formula.isTrueOn_cons,
    isTrueOn_minimBlock hi, and_iff_left Formula.isTrueOn_nil, and_assoc]

/-- With assumptions, the clauses exclude the assignments above and no other. -/
theorem isTrueOn_forbid_byAssumption :
    (FactKeeping.byAssumption.forbid f σ inputs).IsTrueOn τ ↔
      f.IsTrueOn τ ∧ ¬ Below inputs σ τ := by
  rw [FactKeeping.forbid, FactKeeping.clauses, List.append_nil, Formula.isTrueOn_append,
    Formula.isTrueOn_cons, isTrueOn_minimBlock hi, and_iff_left Formula.isTrueOn_nil]

/-- A minimal model of what is left, if it is strictly below, was minimal before. -/
theorem isMinimalOn_of_forbid (hτ : (facts.forbid f σ inputs).IsMinimalOn inputs τ)
    (hb : Below inputs τ σ) (hn : ¬ Below inputs σ τ) : f.IsMinimalOn inputs τ := by
  refine ⟨fun c hc => hτ.1 c ?_, fun υ hυ hυτ => ?_⟩
  · exact List.mem_append_left _ (List.mem_append_left _ hc)
  · have hleft := (isTrueOn_forbid_iff hi facts).mpr
      ⟨hυ, fun h => hn (h.trans hυτ), hυτ.trans hb⟩
    exact hτ.2 υ hleft.1 hυτ

/-- A model is minimal when nothing is left. -/
theorem isMinimalOn_of_forall_not (hσ : f.IsTrueOn σ)
    (hno : ∀ υ : Assignment,
      (∀ l ∈ facts.assumptions (σ.factLiterals inputs), l.IsTrueOn υ) →
        ¬ (facts.forbid f σ inputs).IsTrueOn υ) : f.IsMinimalOn inputs σ := by
  refine ⟨hσ, fun υ hυ hb => ?_⟩
  by_contra hn
  obtain ⟨hf, hk⟩ := (isTrueOn_forbid_iff hi facts).mpr ⟨hυ, hn, hb⟩
  exact hno υ hk hf

end Forbid

/-- The true inputs of the last model are forbidden, and its facts kept. -/
theorem run_forbidMinim_eq {E : Type} [Engine E] {s : Solver E} (hs : ∀ a, (s.value? a).isSome)
    (hi : ∀ a ∈ inputs, a.InRange) (convention : ValueConvention) (facts : FactKeeping) :
    let σ := convention.reading s.value?
    (forbidMinim inputs convention facts).run.run s = (do
      Process.logEvent (.shrinking (inputs.filter σ).length)
      onSolver do
        Solver.addClause (σ.minimBlock inputs)
        (σ.factLiterals inputs).forM facts.keep
      return inputs.filter σ : SearchM E (List Atom)).run.run s := by
  intro σ
  have hread : readValues s inputs convention = some (inputs.map fun a => (a, σ a)) :=
    readValues_eq convention hs inputs
  have hminim : (((inputs.filter σ).map fun a => (a, σ a)).map (·.1)) = inputs.filter σ := by
    rw [List.map_map]
    exact List.map_id _
  have hnegated : (inputs.filter σ).mapM (fun a => Literal.ofAtom? a false) =
      some (σ.minimBlock inputs) :=
    mapM_eq_some_map fun a ha => (hi a (List.mem_filter.mp ha).1).ofAtom?_eq_some
  have hkept : ((inputs.filter fun a => !σ a).map fun a => (a, σ a)).mapM
      (fun p => Literal.ofAtom? p.1 false) = some (σ.factLiterals inputs) := by
    rw [List.mapM_map]
    exact mapM_eq_some_map fun a ha => (hi a (List.mem_filter.mp ha).1).ofAtom?_eq_some
  change (orOverflow (readValues s inputs convention) >>= _ : SearchM E (List Atom)).run.run s = _
  simp only [hread, orOverflow_some, pure_bind, partition_values, hminim, hnegated, hkept]

namespace Solver.Holds

theorem keep (h : s.Holds f as) (facts : FactKeeping) {l : Literal} (hl : l.InRange) :
    Ensures ((facts.keep l).run s) fun r n =>
      r.2.Holds (f ++ facts.clauses [l]) (as ++ facts.assumptions [l]) ∧
        r.2.value? = s.value? ∧ n = 0 := by
  cases facts with
  | byAssumption =>
    rw [FactKeeping.clauses, List.append_nil]
    exact h.assume hl
  | byClause =>
    rw [FactKeeping.assumptions, List.append_nil]
    exact h.addClause (by simpa using hl)

theorem keepAll (h : s.Holds f as) (facts : FactKeeping) (hk : Clause.InRange kept) :
    Ensures ((kept.forM facts.keep).run s) fun r n =>
      r.2.Holds (f ++ facts.clauses kept) (as ++ facts.assumptions kept) ∧
        r.2.value? = s.value? ∧ n = 0 := by
  induction kept generalizing s f as with
  | nil =>
    refine ensures_pure ⟨?_, rfl, rfl⟩
    cases facts <;> simpa [FactKeeping.clauses, FactKeeping.assumptions] using h
  | cons l kept ih =>
    rw [Clause.inRange_cons] at hk
    rw [facts.clauses_cons, facts.assumptions_cons, ← List.append_assoc, ← List.append_assoc]
    change Ensures ((facts.keep l).run s >>= fun r => (kept.forM facts.keep).run r.2) _
    refine (h.keep facts hk.1).bind ?_
    rintro ⟨⟨⟩, s'⟩ _ ⟨h', hv, rfl⟩
    refine (ih h' hk.2).mono ?_
    rintro r _ ⟨hr, hv', rfl⟩
    exact ⟨hr, hv'.trans hv, rfl⟩

/-! ### Forbidding a model -/

/-- **The true inputs of the last model are forbidden, and its facts kept.** -/
theorem forbidMinim (h : s.Holds f []) (hs : Answers.IsProper s.value?)
    (hi : ∀ a ∈ inputs, a.InRange) (convention : ValueConvention) (facts : FactKeeping) :
    let σ := convention.reading s.value?
    Yields (forbidMinim inputs convention facts) s fun minim s' n =>
      minim = inputs.filter σ ∧ n = 0 ∧
        s'.Holds (facts.forbid f σ inputs) (facts.assumptions (σ.factLiterals inputs)) := by
  intro σ
  refine .of_run_eq (run_forbidMinim_eq hs.isSome hi convention facts) ?_
  refine .bind_process (ensures_logEvent _) ?_
  have hadd : Ensures ((Solver.addClause (σ.minimBlock inputs) >>= fun _ =>
      (σ.factLiterals inputs).forM facts.keep : SolverM (Backtracking k) Unit).run s) fun r n =>
      r.2.Holds (facts.forbid f σ inputs) ([] ++ facts.assumptions (σ.factLiterals inputs)) ∧
        n = 0 := by
    change Ensures ((Solver.addClause (σ.minimBlock inputs)).run s >>= fun r =>
      ((σ.factLiterals inputs).forM facts.keep).run r.2) _
    refine (h.addClause (inRange_minimBlock hi)).bind ?_
    rintro ⟨⟨⟩, s'⟩ _ ⟨h', -, rfl⟩
    refine (h'.keepAll facts (inRange_factLiterals hi)).mono ?_
    rintro r _ ⟨hr, -, rfl⟩
    exact ⟨hr, rfl⟩
  refine (yields_lift hadd).bind ?_
  rintro _ s' _ ⟨h', rfl⟩
  exact yields_pure ⟨rfl, rfl, h'⟩

/-! ### Shrinking -/

/-- **Shrinking ends with a minimal model** below the last one found, provided that fewer of its
inputs are true than solves are allowed. -/
theorem shrinkWithin {allowance : Nat} (h : s.Holds f []) (hs : s.Shows f [])
    (hi : ∀ a ∈ inputs, a.InRange) (convention : ValueConvention) (facts : FactKeeping)
    (ha : (inputs.filter (convention.reading s.value?)).length < allowance) :
    Yields (shrinkWithin inputs convention facts allowance) s fun minim s' n =>
      ∃ τ, f.IsMinimalOn inputs τ ∧ Below inputs τ (convention.reading s.value?) ∧
        minim = inputs.filter τ ∧
        n ≤ (inputs.filter (convention.reading s.value?)).length + 1 ∧
        ∃ g, s'.Holds g [] ∧ (facts = .byAssumption →
          ∀ υ, g.IsTrueOn υ ↔ f.IsTrueOn υ ∧ ¬ Below inputs τ υ) := by
  induction allowance generalizing s f with
  | zero => omega
  | succ allowance ih =>
    have hσ := (hs.isTrueOn _ (hs.proper.agreesWith_reading convention)).1
    refine (h.forbidMinim hs.proper hi convention facts).bind ?_
    generalize convention.reading s.value? = σ at hσ ha
    rintro _ s₁ _ ⟨rfl, rfl, h₁⟩
    refine h₁.isSatisfiable.bind ?_
    rintro _ s₂ _ ⟨h₂, rfl, ⟨rfl, hs₂⟩ | ⟨rfl, hnone⟩⟩
    · have hσ₂ := hs₂.isTrueOn _ (hs₂.proper.agreesWith_reading convention)
      obtain ⟨-, hn, hb⟩ := (isTrueOn_forbid_iff hi facts).mp hσ₂
      have hlt := hb.length_filter_lt hn
      have hs₂' : s₂.Shows (facts.forbid f σ inputs) [] :=
        ⟨hs₂.proper, fun τ hτ => ⟨(hs₂.isTrueOn τ hτ).1, by simp⟩⟩
      refine (ih h₂ hs₂' (by omega)).mono ?_
      rintro _ s' n ⟨τ, hτ, hbτ, rfl, hle, g, hg, hblock⟩
      have hτσ := hbτ.trans hb
      have hmin := isMinimalOn_of_forbid hi hτ hτσ fun h => hn (h.trans hbτ)
      refine ⟨τ, hmin, hτσ, rfl, by omega, g, hg, ?_⟩
      -- The models above the first one forbidden are among those above the last one.
      rintro rfl υ
      rw [hblock rfl, isTrueOn_forbid_byAssumption hi, and_assoc]
      exact and_congr_right fun _ => and_iff_right_of_imp fun hnτ hσυ => hnτ (hτσ.trans hσυ)
    · refine yields_pure ⟨σ, isMinimalOn_of_forall_not hi hσ hnone, below_refl inputs σ, rfl,
        by omega, _, h₂, ?_⟩
      rintro rfl υ
      exact isTrueOn_forbid_byAssumption hi

/-- The allowance is never exhausted. -/
theorem shrinkModel (h : s.Holds f []) (hs : s.Shows f []) (hi : ∀ a ∈ inputs, a.InRange)
    (convention : ValueConvention) (facts : FactKeeping) :
    Yields (shrinkModel inputs convention facts) s fun minim s' n =>
      ∃ τ, f.IsMinimalOn inputs τ ∧ Below inputs τ (convention.reading s.value?) ∧
        minim = inputs.filter τ ∧ n ≤ inputs.length + 1 ∧
        ∃ g, s'.Holds g [] ∧ (facts = .byAssumption →
          ∀ υ, g.IsTrueOn υ ↔ f.IsTrueOn υ ∧ ¬ Below inputs τ υ) := by
  obtain ⟨a, ha, -, hlt⟩ := exists_allowance k inputs.length
  have hle := List.length_filter_le (convention.reading s.value?) inputs
  refine .bind_process ha ?_
  refine (h.shrinkWithin hs hi convention facts (by omega)).mono ?_
  rintro minim s' n ⟨τ, hτ, hb, hm, hn, hg⟩
  exact ⟨τ, hτ, hb, hm, by omega, hg⟩

end Solver.Holds

end GovernedSat
