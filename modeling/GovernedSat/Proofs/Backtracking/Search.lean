import GovernedSat.Backtracking.Search
import GovernedSat.Proofs.Backtracking.Propagation

/-!
# Correctness of the backtracking search

A search which is not stopped decides whether some assignment on which the trail is true makes the
formula true: either it gives a trail which satisfies the formula, or there is none. As propagation
leaves an open literal in a clause which is not satisfied, there is always one to decide on, and as
this literal is in range, so is its opposite.

What the callback answers is independent of that. It is asked in the same order whatever state it
carries along, and the first time that it asks to stop is the end of the search.

## Main definitions

* `Verdict.IsCorrect` — what a verdict says of the formula and the trail.
* `Effort.Related` — two efforts after the same steps.
* `CallbackPreserves` — what the answers of a callback preserve.

## Main results

* `search_induction` — the induction over a search of a formula in range.
* `isCorrect_search` — a verdict is correct.
* `search_related` — a search does not depend on the state of the callback.
* `search_preserves` — what every answer preserves until the callback asks to stop.
* `search_alone` — a search which is not stopped does what it does without a callback.
-/

namespace GovernedSat

open Trail

/-- What a verdict says of the assignments on which a trail is true. -/
def Verdict.IsCorrect (f : Formula) (t : Trail) : Verdict → Prop
  | .model t' => t ⊆ t' ∧ t'.Consistent ∧ t'.Satisfies f
  | .refuted => ∀ σ : Assignment, t.IsTrueOn σ → ¬ f.IsTrueOn σ
  | .stopped => True
  | .overflow => False

variable {σ τ : Type} {f : Formula} {t t' : Trail} {l m : Literal}

/-! ### Decisions -/

/-- There is a literal to decide on as long as some clause is undecided. -/
theorem exists_decision? (hall : ∀ c ∈ f, t.status c = .satisfied ∨ t.status c = .undecided)
    (hex : ∃ c ∈ f, t.status c = .undecided) : ∃ l, decision? f t = some l := by
  have hsome : (f.find? fun c => !c.any t.isTrue).isSome := by
    obtain ⟨c, hc, hu⟩ := hex
    refine List.find?_isSome.mpr ⟨c, hc, ?_⟩
    have hn := forall_notMem_of_status_ne (t := t) (c := c) (by simp [hu])
    rw [Bool.not_eq_true', ← Bool.not_eq_true, any_isTrue_iff]
    simpa using hn
  obtain ⟨c, hc⟩ := Option.isSome_iff_exists.mp hsome
  have hn : t.status c ≠ .satisfied := by
    have hc' := List.find?_some hc
    rw [Bool.not_eq_true', ← Bool.not_eq_true, any_isTrue_iff] at hc'
    exact fun hs => hc' (status_eq_satisfied_iff.mp hs)
  obtain ⟨l, hl, ho⟩ := exists_isOpen_of_undecided
    ((hall c (List.mem_of_find?_eq_some hc)).resolve_left hn)
  obtain ⟨m, hm⟩ := Option.isSome_iff_exists.mp (List.find?_isSome.mpr ⟨l, hl, ho⟩)
  exact ⟨m, by rw [decision?, hc, Option.bind_some, hm]⟩

/-- The atom decided on is open both ways. -/
theorem isOpen_positive_of_decision? (hf : f.InRange) (h : decision? f t = some l) :
    (Literal.positive l.atom).InRange ∧ t.isOpen (Literal.positive l.atom) = true := by
  obtain ⟨hl, ho⟩ := decision?_eq_some h
  have hr := hf.of_mem_flatten hl
  refine ⟨hr.atom.inRange_positive, ?_⟩
  rcases Literal.positive_atom l with he | he
  · rw [he]
    exact ho
  · rw [he, isOpen_neg]
    exact ho

/-- A formula refuted with a literal both ways is refuted without it. -/
theorem refuted_of_both (hl : l.InRange) (h₁ : Verdict.refuted.IsCorrect f (l :: t))
    (h₂ : Verdict.refuted.IsCorrect f (-l :: t)) : Verdict.refuted.IsCorrect f t := by
  intro σ ht
  by_cases hσ : l.IsTrueOn σ
  · exact h₁ σ (isTrueOn_cons.mpr ⟨hσ, ht⟩)
  · exact h₂ σ (isTrueOn_cons.mpr ⟨(Literal.isTrueOn_neg hl).mpr hσ, ht⟩)

/-- A verdict with a further literal holds without it, unless it is a refutation. -/
theorem Verdict.IsCorrect.of_cons {v : Verdict} (h : v.IsCorrect f (l :: t)) (hv : v ≠ .refuted) :
    v.IsCorrect f t := by
  cases v with
  | model t' => exact ⟨fun x hx => h.1 (List.mem_cons_of_mem l hx), h.2⟩
  | refuted => exact absurd rfl hv
  | stopped => trivial
  | overflow => exact h

theorem Verdict.IsCorrect.of_derives {v : Verdict} (h : v.IsCorrect f t')
    (hd : Derives f t t') : v.IsCorrect f t := by
  cases v with
  | model t'' => exact ⟨List.Subset.trans hd.subset h.1, h.2⟩
  | refuted => exact fun σ ht hσ => h σ (hd.isTrueOn hσ ht) hσ
  | stopped => trivial
  | overflow => exact h

/-! ### The steps of a search -/

section Steps

variable {poll : Option (StateM σ Bool)} {e e₁ : Effort σ}

theorem search_of_stop (h : e.step poll = (true, e₁)) : search f poll t e = (.stopped, e₁) := by
  rw [search, h]
  rfl

theorem search_of_conflict (h : e.step poll = (false, e₁)) (hp : propagate f t = .conflict) :
    search f poll t e = (.refuted, e₁) := by
  rw [search, h]
  simp only [Bool.false_eq_true, if_false]
  split <;> simp_all

theorem search_of_satisfied (h : e.step poll = (false, e₁)) (hp : propagate f t = .satisfied t') :
    search f poll t e = (.model t', e₁) := by
  rw [search, h]
  simp only [Bool.false_eq_true, if_false]
  split <;> simp_all

/-- A decision made true, and made false where that is refuted and its opposite is in range. -/
theorem search_of_decision (h : e.step poll = (false, e₁)) (hp : propagate f t = .undecided t')
    (hl : decision? f t' = some l) :
    search f poll t e = match search f poll (Literal.positive l.atom :: t') e₁ with
      | (.refuted, e₂) =>
        match Literal.negate? (Literal.positive l.atom) with
        | none => (.overflow, e₂)
        | some m => search f poll (m :: t') e₂
      | r => r := by
  rw [search, h]
  simp only [Bool.false_eq_true, if_false]
  split <;> simp_all
  grind

/-- The opposite of a decision is in range where the formula is. -/
theorem search_of_undecided (hf : f.InRange) (h : e.step poll = (false, e₁))
    (hp : propagate f t = .undecided t') (hl : decision? f t' = some l) :
    search f poll t e = match search f poll (Literal.positive l.atom :: t') e₁ with
      | (.refuted, e₂) => search f poll (-Literal.positive l.atom :: t') e₂
      | r => r := by
  rw [search_of_decision h hp hl,
    Literal.negate?_eq_some_neg (isOpen_positive_of_decision? hf hl).1]

/-- **Induction over a search.** For a formula in range a search is stopped, ends with what
propagation says, keeps the outcome of its decision, or has the outcome of the opposite one. -/
theorem search_induction (hf : f.InRange) {motive : Trail → Effort σ → Verdict × Effort σ → Prop}
    (stopped : ∀ t e e₁, e.step poll = (true, e₁) → motive t e (.stopped, e₁))
    (conflict : ∀ t e e₁, e.step poll = (false, e₁) → propagate f t = .conflict →
      motive t e (.refuted, e₁))
    (satisfied : ∀ t e e₁ t', e.step poll = (false, e₁) → propagate f t = .satisfied t' →
      motive t e (.model t', e₁))
    (decided : ∀ t e e₁ t' l r, e.step poll = (false, e₁) → propagate f t = .undecided t' →
      decision? f t' = some l → motive (Literal.positive l.atom :: t') e₁ r → r.1 ≠ .refuted →
      motive t e r)
    (reverted : ∀ t e e₁ t' l e₂ r, e.step poll = (false, e₁) → propagate f t = .undecided t' →
      decision? f t' = some l → motive (Literal.positive l.atom :: t') e₁ (.refuted, e₂) →
      motive (-Literal.positive l.atom :: t') e₂ r → motive t e r)
    (t : Trail) (e : Effort σ) : motive t e (search f poll t e) := by
  induction t, e using search.induct f poll with
  | case1 t e e₁ hs =>
    rw [search_of_stop hs]
    exact stopped t e e₁ hs
  | case2 t e stop e₁ hs hstop hp =>
    rw [eq_false_of_ne_true hstop] at hs
    rw [search_of_conflict hs hp]
    exact conflict t e e₁ hs hp
  | case3 t e stop e₁ hs hstop t' hp =>
    rw [eq_false_of_ne_true hstop] at hs
    rw [search_of_satisfied hs hp]
    exact satisfied t e e₁ t' hs hp
  | case4 t e stop e₁ hs hstop t' hp hn =>
    obtain ⟨-, hall, hex⟩ := derives_of_propagate_undecided hf hp
    obtain ⟨l, hl⟩ := exists_decision? hall hex
    rw [hn] at hl
    cases hl
  | case5 t e stop e₁ hs hstop t' hp l hl e₂ hr hm ih =>
    obtain ⟨hr, -⟩ := isOpen_positive_of_decision? hf hl
    exact absurd (Literal.negate?_eq_none_iff.mp hm) hr.2
  | case6 t e stop e₁ hs hstop t' hp l hl e₂ hr m hm ih₁ ih₂ =>
    rw [eq_false_of_ne_true hstop] at hs
    rw [Literal.negate?_eq_some hm] at ih₂
    rw [hr] at ih₁
    rw [search_of_undecided hf hs hp hl, hr]
    exact reverted t e e₁ t' l e₂ _ hs hp hl ih₁ ih₂
  | case7 t e stop e₁ hs hstop t' hp l hl hr ih =>
    rw [eq_false_of_ne_true hstop] at hs
    have hne : (search f poll (Literal.positive l.atom :: t') e₁).1 ≠ .refuted :=
      fun he => hr _ (Prod.ext he rfl)
    rw [search_of_undecided hf hs hp hl]
    split
    · next he => exact absurd (congrArg Prod.fst he) hne
    · exact decided t e e₁ t' l _ hs hp hl ih hne

end Steps

/-! ### The verdict -/

/-- **A verdict is correct.** A search which is not stopped gives a model which extends the trail,
or else there is none. -/
theorem isCorrect_search (poll : Option (StateM σ Bool)) (e : Effort σ) (hf : f.InRange)
    (ht : t.Consistent) : (search f poll t e).1.IsCorrect f t := by
  refine search_induction hf (motive := fun t _ r => t.Consistent → r.1.IsCorrect f t)
    ?stopped ?conflict ?satisfied ?decided ?reverted t e ht
  case stopped => exact fun t e e₁ _ _ => trivial
  case conflict => exact fun t e e₁ _ hp _ σ ht' hσ => not_isTrueOn_of_propagate hf hp ht' hσ
  case satisfied =>
    intro t e e₁ t' _ hp ht
    obtain ⟨hd, hsat⟩ := derives_of_propagate_satisfied hf hp
    exact ⟨hd.subset, hd.consistent ht, hsat⟩
  case decided =>
    intro t e e₁ t' l r _ hp hl ih hne ht
    obtain ⟨hd, -⟩ := derives_of_propagate_undecided hf hp
    obtain ⟨hr, ho⟩ := isOpen_positive_of_decision? hf hl
    exact ((ih (consistent_cons (hd.consistent ht) hr ho)).of_cons hne).of_derives hd
  case reverted =>
    intro t e e₁ t' l e₂ r _ hp hl ih₁ ih₂ ht
    obtain ⟨hd, -⟩ := derives_of_propagate_undecided hf hp
    obtain ⟨hr, ho⟩ := isOpen_positive_of_decision? hf hl
    have h₁ := ih₁ (consistent_cons (hd.consistent ht) hr ho)
    have h₂ := ih₂ (consistent_cons (hd.consistent ht) hr.neg (isOpen_neg.trans ho))
    refine Verdict.IsCorrect.of_derives ?_ hd
    by_cases hne : r.1 = .refuted
    · rw [hne] at h₂ ⊢
      exact refuted_of_both hr h₁ h₂
    · exact h₂.of_cons hne

/-! ### The callback -/

/-- The efforts have made the same steps, and the states of their callbacks are related. -/
def Effort.Related (R : σ → τ → Prop) (e : Effort σ) (e' : Effort τ) : Prop :=
  e.steps = e'.steps ∧ R e.state e'.state

/-- **A search does not depend on the state of the callback**, as long as the callback answers the
same in related states and leads to related states. -/
theorem search_related {R : σ → τ → Prop} {poll : Option (StateM σ Bool)}
    {poll' : Option (StateM τ Bool)} (hf : f.InRange)
    (hstep : ∀ e e', Effort.Related R e e' →
      (e.step poll).1 = (e'.step poll').1 ∧ Effort.Related R (e.step poll).2 (e'.step poll').2)
    (t : Trail) {e : Effort σ} {e' : Effort τ} (h : Effort.Related R e e') :
    (search f poll t e).1 = (search f poll' t e').1 ∧
      Effort.Related R (search f poll t e).2 (search f poll' t e').2 := by
  have hstep' : ∀ {e e' b e₁}, Effort.Related R e e' → e.step poll = (b, e₁) →
      ∃ e₁', e'.step poll' = (b, e₁') ∧ Effort.Related R e₁ e₁' := by
    intro e e' b e₁ h hs
    have h' := hstep e e' h
    rw [hs] at h'
    exact ⟨_, Prod.ext h'.1.symm rfl, h'.2⟩
  refine search_induction hf (motive := fun t e r => ∀ e', Effort.Related R e e' →
    r.1 = (search f poll' t e').1 ∧ Effort.Related R r.2 (search f poll' t e').2)
    ?stopped ?conflict ?satisfied ?decided ?reverted t e e' h
  case stopped =>
    intro t e e₁ hs e' h
    obtain ⟨e₁', hs', h₁⟩ := hstep' h hs
    rw [search_of_stop hs']
    exact ⟨rfl, h₁⟩
  case conflict =>
    intro t e e₁ hs hp e' h
    obtain ⟨e₁', hs', h₁⟩ := hstep' h hs
    rw [search_of_conflict hs' hp]
    exact ⟨rfl, h₁⟩
  case satisfied =>
    intro t e e₁ t' hs hp e' h
    obtain ⟨e₁', hs', h₁⟩ := hstep' h hs
    rw [search_of_satisfied hs' hp]
    exact ⟨rfl, h₁⟩
  case decided =>
    intro t e e₁ t' l r hs hp hl ih hne e' h
    obtain ⟨e₁', hs', h₁⟩ := hstep' h hs
    obtain ⟨hv, h₂⟩ := ih e₁' h₁
    rw [search_of_undecided hf hs' hp hl]
    split
    · next e₂' he =>
      rw [he] at hv
      exact absurd hv hne
    · exact ⟨hv, h₂⟩
  case reverted =>
    intro t e e₁ t' l e₂ r hs hp hl ih₁ ih₂ e' h
    obtain ⟨e₁', hs', h₁⟩ := hstep' h hs
    obtain ⟨hv, h₂⟩ := ih₁ e₁' h₁
    rw [search_of_undecided hf hs' hp hl]
    split
    · next e₂' he =>
      rw [he] at h₂
      exact ih₂ e₂' h₂
    · next hr => exact (hr _ (Prod.ext hv.symm rfl)).elim

/-- Whatever the callback answers preserves `I`, except that asking to stop leads to `J`. -/
def CallbackPreserves (I J : σ → Prop) (poll : Option (StateM σ Bool)) : Prop :=
  ∀ ask, poll = some ask → ∀ s, I s → if (ask.run s).1 then J (ask.run s).2 else I (ask.run s).2

theorem Effort.step_preserves {I J : σ → Prop} {poll : Option (StateM σ Bool)}
    (hask : CallbackPreserves I J poll) {e : Effort σ} (h : I e.state) :
    if (e.step poll).1 then J (e.step poll).2.state else I (e.step poll).2.state := by
  cases poll with
  | none => exact h
  | some ask =>
    by_cases hdue : (e.steps + 1) % stepsPerPoll = 0
    · simp only [Effort.step, hdue, if_true]
      exact hask ask rfl e.state h
    · simp only [Effort.step, hdue, if_false, Bool.false_eq_true]
      exact h

/-- What every answer preserves holds in the end of a search, except that the answer which stops
the search leads to something else. The formula need not be in range. -/
theorem search_preserves {I J : σ → Prop} {poll : Option (StateM σ Bool)}
    (hask : CallbackPreserves I J poll) (t : Trail) {e : Effort σ} (h : I e.state) :
    if (search f poll t e).1 = .stopped then J (search f poll t e).2.state
    else I (search f poll t e).2.state := by
  have hgo : ∀ {e e₁ : Effort σ} {stop : Bool}, I e.state → e.step poll = (stop, e₁) →
      if stop then J e₁.state else I e₁.state := by
    intro e e₁ stop h hs
    have h' := Effort.step_preserves hask h
    rwa [hs] at h'
  induction t, e using search.induct f poll with
  | case1 t e e₁ hs =>
    rw [search_of_stop hs]
    exact hgo h hs
  | case2 t e stop e₁ hs
  | case3 t e stop e₁ hs
  | case4 t e stop e₁ hs =>
    have h₁ := hgo h hs
    rw [search, hs]
    grind
  | case5 t e stop e₁ hs _ t' _ l _ e₂ hr _ ih
  | case6 t e stop e₁ hs _ t' _ l _ e₂ hr m _ ih
  | case7 t e stop e₁ hs _ t' _ l _ hr ih =>
    have h₁ := hgo h hs
    rw [search, hs]
    grind

/-- A search which is not stopped has the verdict of a search without a callback, and makes the same
steps. -/
theorem search_alone (poll : Option (StateM σ Bool)) (t : Trail) (e : Effort σ) (e' : Effort τ)
    (h : e'.steps = e.steps) :
    (search f poll t e).1 = .stopped ∨
      (search f none t e').1 = (search f poll t e).1 ∧
        (search f none t e').2.steps = (search f poll t e).2.steps := by
  have hstep : ∀ {e e₁ : Effort σ} {stop : Bool} {e' : Effort τ}, e'.steps = e.steps →
      e.step poll = (stop, e₁) → ∃ e₁', e'.step none = (false, e₁') ∧ e₁'.steps = e₁.steps := by
    intro e e₁ stop e' h hs
    refine ⟨_, rfl, ?_⟩
    have hcount : (e.step poll).2.steps = e.steps + 1 := by
      unfold Effort.step
      grind
    rw [← congrArg (·.2.steps) hs, hcount, ← h]
  induction t, e using search.induct f poll generalizing e' with
  | case1 t e e₁ hs =>
    rw [search_of_stop hs]
    exact .inl rfl
  | case2 t e stop e₁ hs
  | case3 t e stop e₁ hs
  | case4 t e stop e₁ hs =>
    obtain ⟨e₁', hs', h₁⟩ := hstep h hs
    rw [search, hs, search, hs']
    grind
  | case5 t e stop e₁ hs hstop t' hp l hl e₂ hr hm ih =>
    rw [eq_false_of_ne_true hstop] at hs
    obtain ⟨e₁', hs', h₁⟩ := hstep h hs
    have hdecided := ih e₁' h₁
    rw [search_of_decision hs hp hl, search_of_decision hs' hp hl]
    grind
  | case6 t e stop e₁ hs hstop t' hp l hl e₂ hr m hm ih₁ ih₂ =>
    rw [eq_false_of_ne_true hstop] at hs
    obtain ⟨e₁', hs', h₁⟩ := hstep h hs
    have hdecided := ih₁ e₁' h₁
    rw [search_of_decision hs hp hl, search_of_decision hs' hp hl]
    grind
  | case7 t e stop e₁ hs hstop t' hp l hl hr ih =>
    rw [eq_false_of_ne_true hstop] at hs
    obtain ⟨e₁', hs', h₁⟩ := hstep h hs
    have hne : (search f poll (Literal.positive l.atom :: t') e₁).1 ≠ .refuted :=
      fun he => hr _ (Prod.ext he rfl)
    have hdecided := ih e₁' h₁
    rw [search_of_decision hs hp hl, search_of_decision hs' hp hl]
    split
    · next he => exact absurd (congrArg Prod.fst he) hne
    · obtain hstopped | ⟨hv, hn⟩ := hdecided
      · exact .inl hstopped
      · split
        · next he => exact absurd (hv.symm.trans (congrArg Prod.fst he)) hne
        · exact .inr ⟨hv, hn⟩

end GovernedSat
