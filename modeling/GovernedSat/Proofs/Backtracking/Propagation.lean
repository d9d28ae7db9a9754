import GovernedSat.Backtracking.Propagation
import GovernedSat.Proofs.Backtracking.Trail

/-!
# Soundness of unit propagation

Propagation only adds literals which are true wherever the formula and the trail are, so a conflict
means that they are true nowhere together. It stops only where each clause is either satisfied or
has at least two open occurrences, so that a literal to decide on is left unless all is satisfied.

## Main definitions

* `Trail.Derives` — a trail reached from another by adding what has to be true.

## Main results

* `not_isTrueOn_of_propagate`, `derives_of_propagate_satisfied`, `derives_of_propagate_undecided` —
  the three outcomes.
-/

namespace GovernedSat

open Trail

/-- A trail which adds to another only what is true wherever the formula and that trail are, and
stays consistent. -/
structure Trail.Derives (f : Formula) (t t' : Trail) : Prop where
  /-- Nothing is taken back. -/
  subset : t ⊆ t'
  /-- Whatever is added has to be true. -/
  isTrueOn : ∀ {σ : Assignment}, f.IsTrueOn σ → t.IsTrueOn σ → t'.IsTrueOn σ
  /-- No two opposite literals are made true. -/
  consistent : t.Consistent → t'.Consistent

namespace Trail.Derives

variable {f : Formula} {c : Clause} {l : Literal} {t t' t'' : Trail}

theorem refl (f : Formula) (t : Trail) : Derives f t t := ⟨List.Subset.refl t, fun _ h => h, id⟩

theorem trans (h : Derives f t t') (h' : Derives f t' t'') : Derives f t t'' where
  subset := List.Subset.trans h.subset h'.subset
  isTrueOn hf ht := h'.isTrueOn hf (h.isTrueOn hf ht)
  consistent ht := h'.consistent (h.consistent ht)

theorem cons (h : Derives f t t') : Derives (c :: f) t t' where
  subset := h.subset
  isTrueOn hf ht := h.isTrueOn (Formula.isTrueOn_cons.mp hf).2 ht
  consistent := h.consistent

/-- The only open literal of a clause may be made true. -/
theorem of_unit (hc : Clause.InRange c) (h : t.status c = .unit l) :
    Derives (c :: f) t (l :: t) where
  subset := List.subset_cons_self l t
  isTrueOn hf ht :=
    isTrueOn_cons.mpr ⟨isTrueOn_of_unit hc h ht (Formula.isTrueOn_cons.mp hf).1, ht⟩
  consistent ht :=
    have hl := mem_of_status_eq_unit h
    consistent_cons ht (hc l hl.1) hl.2

end Trail.Derives

variable {f : Formula} {p q : Pass} {t t' : Trail} {σ : Assignment}

/-! ### One pass -/

theorem derives_of_pass (hf : f.InRange) (h : pass f p = some q) :
    Derives f p.trail q.trail := by
  fun_induction pass f p with
  | case1 p =>
    cases h
    exact .refl [] _
  | case2 _ _ _ _ ih => exact (ih (Formula.inRange_cons.mp hf).2 h).cons
  | case3 => cases h
  | case4 c f p l hs ih =>
    obtain ⟨hc, hf⟩ := Formula.inRange_cons.mp hf
    exact (Derives.of_unit hc hs).trans (ih hf h).cons
  | case5 _ _ _ _ ih => exact (ih (Formula.inRange_cons.mp hf).2 h).cons

/-- A pass which meets a conflict refutes the formula under the trail. -/
theorem not_isTrueOn_of_pass (hf : f.InRange) (h : pass f p = none) (hp : p.trail.IsTrueOn σ) :
    ¬ f.IsTrueOn σ := by
  fun_induction pass f p with
  | case1 => cases h
  | case2 _ _ _ _ ih =>
    exact fun hσ => ih (Formula.inRange_cons.mp hf).2 h hp (Formula.isTrueOn_cons.mp hσ).2
  | case3 c f p hs =>
    obtain ⟨hc, -⟩ := Formula.inRange_cons.mp hf
    exact fun hσ => not_isTrueOn_of_conflict hc hs hp (Formula.isTrueOn_cons.mp hσ).1
  | case4 c f p l hs ih =>
    obtain ⟨hc, hf⟩ := Formula.inRange_cons.mp hf
    intro hσ
    have hp' := (Derives.of_unit (f := f) hc hs).isTrueOn hσ hp
    exact ih hf h hp' (Formula.isTrueOn_cons.mp hσ).2
  | case5 _ _ _ _ ih =>
    exact fun hσ => ih (Formula.inRange_cons.mp hf).2 h hp (Formula.isTrueOn_cons.mp hσ).2

/-- A pass in which every clause is satisfied makes nothing true. -/
theorem satisfies_of_pass (h : pass f p = some q) (hq : q.settled = true) :
    p.settled = true ∧ q.trail = p.trail ∧ p.trail.Satisfies f := by
  fun_induction pass f p with
  | case1 p =>
    cases h
    exact ⟨hq, rfl, by simp [Satisfies]⟩
  | case2 c f p hs ih =>
    obtain ⟨hp, ht, hsat⟩ := ih h
    refine ⟨hp, ht, fun d hd => ?_⟩
    rcases List.mem_cons.mp hd with rfl | hd
    · exact status_eq_satisfied_iff.mp hs
    · exact hsat d hd
  | case3 => cases h
  | case4 c f p l hs ih => cases (ih h).1
  | case5 c f p hs ih => cases (ih h).1

/-- A pass which makes nothing true has seen each clause satisfied or undecided. -/
theorem status_of_pass (h : pass f p = some q) (hq : q.changed = false) :
    p.changed = false ∧ q.trail = p.trail ∧
      (∀ c ∈ f, q.trail.status c = .satisfied ∨ q.trail.status c = .undecided) ∧
      (q.settled = false → p.settled = true → ∃ c ∈ f, q.trail.status c = .undecided) := by
  fun_induction pass f p with
  | case1 p =>
    cases h
    exact ⟨hq, rfl, by simp, fun hs hs' => by simp [hs] at hs'⟩
  | case2 c f p hs ih =>
    obtain ⟨hp, ht, hall, hex⟩ := ih h
    refine ⟨hp, ht, List.forall_mem_cons.mpr ⟨.inl (ht ▸ hs), hall⟩, fun hs₁ hs₂ => ?_⟩
    obtain ⟨d, hd, hu⟩ := hex hs₁ hs₂
    exact ⟨d, List.mem_cons_of_mem c hd, hu⟩
  | case3 => cases h
  | case4 c f p l hs ih => cases (ih h).1
  | case5 c f p hs ih =>
    obtain ⟨hp, ht, hall, -⟩ := ih h
    have hu : q.trail.status c = .undecided := ht ▸ hs
    exact ⟨hp, ht, List.forall_mem_cons.mpr ⟨.inr hu, hall⟩, fun _ _ => ⟨c, List.mem_cons_self, hu⟩⟩

/-! ### Propagation -/

theorem not_isTrueOn_of_propagate (hf : f.InRange) (h : propagate f t = .conflict)
    (ht : t.IsTrueOn σ) : ¬ f.IsTrueOn σ := by
  fun_induction propagate f t with
  | case1 t hp => exact not_isTrueOn_of_pass hf hp ht
  | case2 => cases h
  | case3 t q hp _ _ ih => exact fun hσ => ih h ((derives_of_pass hf hp).isTrueOn hσ ht) hσ
  | case4 => cases h

theorem derives_of_propagate_satisfied (hf : f.InRange) (h : propagate f t = .satisfied t') :
    Derives f t t' ∧ t'.Satisfies f := by
  fun_induction propagate f t with
  | case1 => cases h
  | case2 t q hp hs =>
    cases h
    obtain ⟨-, ht, hsat⟩ := satisfies_of_pass hp hs
    exact ⟨derives_of_pass hf hp, ht ▸ hsat⟩
  | case3 t q hp _ _ ih => exact ⟨(derives_of_pass hf hp).trans (ih h).1, (ih h).2⟩
  | case4 => cases h

theorem derives_of_propagate_undecided (hf : f.InRange) (h : propagate f t = .undecided t') :
    Derives f t t' ∧ (∀ c ∈ f, t'.status c = .satisfied ∨ t'.status c = .undecided) ∧
      ∃ c ∈ f, t'.status c = .undecided := by
  fun_induction propagate f t with
  | case1 => cases h
  | case2 => cases h
  | case3 t q hp _ _ ih => exact ⟨(derives_of_pass hf hp).trans (ih h).1, (ih h).2⟩
  | case4 t q hp hs hq =>
    cases h
    obtain ⟨-, -, hall, hex⟩ := status_of_pass hp (by simpa using hq)
    exact ⟨derives_of_pass hf hp, hall, hex (by simpa using hs) rfl⟩

end GovernedSat
