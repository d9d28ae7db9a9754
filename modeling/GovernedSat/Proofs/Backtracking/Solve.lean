import GovernedSat.Proofs.Backtracking.Model
import GovernedSat.Proofs.Backtracking.Search

/-!
# Correctness of a solve

A solve makes the assumptions true in turn and searches from there. Whatever it reports, the clauses
stay and the assumptions are forgotten, and the model changes only when a new one is found, on which
all clauses and assumptions are true. It is interrupted exactly when the callback has asked to stop;
the answers of the callback are seen by recording them in the state which it carries along.

## Main definitions

* `Backtracking.Solved` — what a solve may report and leave behind.
* `Backtracking.recorded` — a callback which also keeps its answers.
* `Backtracking.solveAlone` — a solve which nothing interrupts.
* `Backtracking.pollAnswers` — the answers of the callback during a solve.

## Main results

* `Backtracking.solved_solve` — every solve is one of these.
* `Backtracking.eq_solveAlone_of_ne` — a solve which is not interrupted.
* `Backtracking.solve_recorded` — recording the answers changes nothing else.
* `Backtracking.interrupted_iff` — a solve is interrupted exactly when an answer was yes.
* `Backtracking.not_interrupted_of_preserves` — callbacks which never ask to stop.
* `Backtracking.solve_keeps` — what the callback always preserves.
-/

namespace GovernedSat

/-! ### The greatest atom -/

theorem Atom.max_le_iff {a b c : Atom} : max a b ≤ c ↔ a ≤ c ∧ b ≤ c := by
  change (if a ≤ b then b else a) ≤ c ↔ _
  simp only [UInt32.le_iff_toNat_le]
  split_ifs with h <;> omega

theorem foldl_max_le_iff {atoms : List Atom} {a b : Atom} :
    atoms.foldl max a ≤ b ↔ a ≤ b ∧ ∀ x ∈ atoms, x ≤ b := by
  induction atoms generalizing a with
  | nil => simp
  | cons x atoms ih => rw [List.foldl_cons, ih, Atom.max_le_iff, List.forall_mem_cons, and_assoc]

theorem Formula.maxAtom_le_iff {f : Formula} {b : Atom} :
    f.maxAtom ≤ b ↔ ∀ l ∈ f.flatten, l.atom ≤ b := by
  rw [maxAtom, foldl_max_le_iff, and_iff_right (UInt32.zero_le)]
  constructor
  · intro h l hl
    obtain ⟨c, hc, hl⟩ := List.mem_flatten.mp hl
    exact h _ (mem_atoms.mpr ⟨c, hc, l, hl, rfl⟩)
  · intro h a ha
    obtain ⟨c, hc, l, hl, rfl⟩ := mem_atoms.mp ha
    exact h l (List.mem_flatten.mpr ⟨c, hc, hl⟩)

namespace Backtracking

variable {k : Coverage} {σ τ : Type}

/-- What a solve may report, with the solver which it leaves behind. -/
inductive Solved (b : Backtracking k) : Option Report → Backtracking k → Prop
  | satisfiable {m : FoundModel} {n : Nat} (proper : m.IsProper) (filled : m.filled = b.filled)
      (clauses : m.trail.Satisfies b.clauses) (assumptions : b.assumptions ⊆ m.trail) :
      Solved b (some .satisfiable) { b with assumptions := [], model := m, steps := n }
  | unsatisfiable {n : Nat}
      (refuted : ∀ v : Assignment, Trail.IsTrueOn b.assumptions v → ¬ b.clauses.IsTrueOn v) :
      Solved b (some .unsatisfiable) { b with assumptions := [], steps := n }
  | interrupted {n : Nat} : Solved b (some .interrupted) { b with assumptions := [], steps := n }

theorem Solved.clauses_eq {b b' : Backtracking k} {r : Option Report} (h : Solved b r b') :
    b'.clauses = b.clauses := by
  cases h <;> rfl

theorem Solved.assumptions_eq {b b' : Backtracking k} {r : Option Report} (h : Solved b r b') :
    b'.assumptions = [] := by
  cases h <;> rfl

theorem maxAtom_le_iff {b : Backtracking k} {a : Atom} :
    b.maxAtom ≤ a ↔ ∀ l ∈ b.clauses.flatten ++ b.assumptions, l.atom ≤ a := by
  rw [maxAtom, Atom.max_le_iff, Formula.maxAtom_le_iff, Formula.maxAtom_le_iff,
    List.forall_mem_append, List.flatten_singleton]

/-- Only literals in range are filled in. -/
theorem filled_le {b : Backtracking k} (hf : b.clauses.InRange)
    (ha : Clause.InRange b.assumptions) : b.filled ≤ Atom.greatest := by
  cases k with
  | needed => exact UInt32.zero_le
  | full =>
    refine maxAtom_le_iff.mpr fun l hl => ?_
    rcases List.mem_append.mp hl with hl | hl
    · exact (hf.of_mem_flatten hl).atom.2
    · exact (ha l hl).atom.2

/-! ### Assumptions -/

/-- Assumptions which can be made true in turn are, on a trail which stays consistent. -/
theorem assumeAll_eq_some {ls : List Literal} {t t' : Trail} (hl : Clause.InRange ls)
    (ht : t.Consistent) (h : assumeAll ls t = some t') :
    t ⊆ t' ∧ ls ⊆ t' ∧ t'.Consistent ∧
      ∀ v : Assignment, t.IsTrueOn v → Trail.IsTrueOn ls v → t'.IsTrueOn v := by
  induction ls generalizing t with
  | nil =>
    cases h
    exact ⟨List.Subset.refl _, List.nil_subset _, ht, fun v hv _ => hv⟩
  | cons l ls ih =>
    rw [assumeAll] at h
    split_ifs at h with hf
    rw [Clause.inRange_cons] at hl
    obtain ⟨hs, hls, hc, hv⟩ := ih hl.2 (Trail.consistent_cons_of_not_isFalse ht hl.1 hf) h
    refine ⟨fun x hx => hs (List.mem_cons_of_mem l hx), ?_, hc, fun v hv₁ hv₂ => ?_⟩
    · exact List.cons_subset.mpr ⟨hs List.mem_cons_self, hls⟩
    · rw [Trail.isTrueOn_cons] at hv₂
      exact hv v (Trail.isTrueOn_cons.mpr ⟨hv₂.1, hv₁⟩) hv₂.2

/-- Assumptions which cannot all be made true in turn contradict the trail. -/
theorem assumeAll_eq_none {ls : List Literal} {t : Trail} (hl : Clause.InRange ls)
    (h : assumeAll ls t = none) {v : Assignment} (hv : t.IsTrueOn v) :
    ¬ Trail.IsTrueOn ls v := by
  induction ls generalizing t with
  | nil => cases h
  | cons l ls ih =>
    rw [assumeAll] at h
    rw [Clause.inRange_cons] at hl
    rw [Trail.isTrueOn_cons]
    rintro ⟨hv₁, hv₂⟩
    split_ifs at h with hf
    · simp only [Trail.isFalse, decide_eq_true_eq] at hf
      exact (Literal.isTrueOn_neg hl.1).mp (hv _ hf.2) hv₁
    · exact ih hl.2 h (Trail.isTrueOn_cons.mpr ⟨hv₁, hv⟩) hv₂

/-! ### A solve -/

theorem solve_of_none {b : Backtracking k} {poll : Option (StateM σ Bool)} {s : σ}
    (h : assumeAll b.assumptions [] = none) :
    b.solve poll s = ((some .unsatisfiable, { b with assumptions := [] }), s) := by
  rw [solve, h]

/-- The report of a verdict, and the solver which it leaves behind. -/
theorem solve_of_some {b : Backtracking k} {poll : Option (StateM σ Bool)} {s : σ} {t : Trail}
    (h : assumeAll b.assumptions [] = some t) :
    let r := search b.clauses poll t { steps := b.steps, state := s }
    let b' := { b with assumptions := [], steps := r.2.steps }
    b.solve poll s = (match r.1 with
      | .model t' => (some .satisfiable, { b' with model := { trail := t', filled := b.filled } })
      | .refuted => (some .unsatisfiable, b')
      | .stopped => (some .interrupted, b')
      | .overflow => (none, b'), r.2.state) := by
  rw [solve, h]
  dsimp only
  split <;> simp_all

/-- The clauses stay, whatever they are. -/
theorem solve_clauses (b : Backtracking k) (poll : Option (StateM σ Bool)) (s : σ) :
    (b.solve poll s).1.2.clauses = b.clauses := by
  cases h : assumeAll b.assumptions [] with
  | none => rw [solve_of_none h]
  | some t =>
    rw [solve_of_some h]
    dsimp only
    split <;> rfl

/-- **Every solve is correct.** A satisfiable one finds a model of the clauses and the assumptions,
and an unsatisfiable one shows that there is none. -/
theorem solved_solve {b : Backtracking k} (hf : b.clauses.InRange)
    (ha : Clause.InRange b.assumptions) (poll : Option (StateM σ Bool)) (s : σ) :
    Solved b (b.solve poll s).1.1 (b.solve poll s).1.2 := by
  cases h : assumeAll b.assumptions [] with
  | none =>
    rw [solve_of_none h]
    exact .unsatisfiable fun v hv => absurd hv (assumeAll_eq_none ha h Trail.isTrueOn_nil)
  | some t =>
    obtain ⟨-, hs, hc, hv⟩ := assumeAll_eq_some ha Trail.consistent_nil h
    have hcorrect := isCorrect_search poll { steps := b.steps, state := s } hf hc
    rw [solve_of_some h]
    dsimp only
    match hr : (search b.clauses poll t { steps := b.steps, state := s }).1 with
    | .model t' =>
      rw [hr] at hcorrect
      exact .satisfiable ⟨hcorrect.2.1, filled_le hf ha⟩ rfl hcorrect.2.2
        (List.Subset.trans hs hcorrect.1)
    | .refuted =>
      rw [hr] at hcorrect
      exact .unsatisfiable fun v hv' => hcorrect v (hv v Trail.isTrueOn_nil hv')
    | .stopped => exact .interrupted
    | .overflow =>
      rw [hr] at hcorrect
      exact hcorrect.elim

/-! ### The answers of the callback -/

/-- A solve depends on the callback only through its answers. -/
theorem solve_related {b : Backtracking k} {R : σ → τ → Prop} {poll : Option (StateM σ Bool)}
    {poll' : Option (StateM τ Bool)} (hf : b.clauses.InRange)
    (hstep : ∀ e e', Effort.Related R e e' →
      (e.step poll).1 = (e'.step poll').1 ∧ Effort.Related R (e.step poll).2 (e'.step poll').2)
    {s : σ} {s' : τ} (h : R s s') :
    (b.solve poll s).1 = (b.solve poll' s').1 ∧ R (b.solve poll s).2 (b.solve poll' s').2 := by
  cases ha : assumeAll b.assumptions [] with
  | none =>
    rw [solve_of_none ha, solve_of_none ha]
    exact ⟨rfl, h⟩
  | some t =>
    have hr : Effort.Related R { steps := b.steps, state := s } { steps := b.steps, state := s' } :=
      ⟨rfl, h⟩
    obtain ⟨hv, hn, hs⟩ := search_related hf hstep t hr
    rw [solve_of_some ha, solve_of_some ha]
    dsimp only
    rw [hv, hn]
    exact ⟨rfl, hs⟩

theorem solve_preserves {b : Backtracking k} {I J : σ → Prop} {poll : Option (StateM σ Bool)}
    (hask : CallbackPreserves I J poll) {s : σ} (h : I s) :
    if (b.solve poll s).1.1 = some .interrupted then J (b.solve poll s).2
    else I (b.solve poll s).2 := by
  cases ha : assumeAll b.assumptions [] with
  | none =>
    rw [solve_of_none ha]
    exact h
  | some t =>
    have hs := search_preserves (f := b.clauses) hask t (e := { steps := b.steps, state := s }) h
    rw [solve_of_some ha]
    dsimp only
    split <;> simp_all

/-- A solve whose callback never asks to stop is not interrupted. -/
theorem not_interrupted_of_preserves {b : Backtracking k} {I : σ → Prop}
    {poll : Option (StateM σ Bool)}
    (hask : ∀ ask, poll = some ask → ∀ s, I s → (ask.run s).1 = false ∧ I (ask.run s).2)
    {s : σ} (h : I s) :
    (b.solve poll s).1.1 ≠ some .interrupted ∧ I (b.solve poll s).2 := by
  have hpreserves : CallbackPreserves I (fun _ => False) poll := by
    intro ask ha s hs
    obtain ⟨hn, hi⟩ := hask ask ha s hs
    rw [if_neg (ne_true_of_eq_false hn)]
    exact hi
  have hs := solve_preserves (b := b) hpreserves h
  split_ifs at hs with hi
  exact ⟨hi, hs⟩

/-- What the callback always preserves holds in the end of a solve. -/
theorem solve_keeps {b : Backtracking k} {I : σ → Prop} {poll : Option (StateM σ Bool)}
    (hask : ∀ ask, poll = some ask → ∀ s, I s → I (ask.run s).2) {s : σ} (h : I s) :
    I (b.solve poll s).2 := by
  have hask' : CallbackPreserves I I poll := fun ask ha s hs => by
    simpa using hask ask ha s hs
  simpa using solve_preserves hask' h

/-- A solve which nothing interrupts. -/
def solveAlone (b : Backtracking k) : Option Report × Backtracking k :=
  (b.solve (none : Option (StateM Unit Bool)) ()).1

/-- A solve which is not interrupted does what it does when nothing can interrupt it. -/
theorem eq_solveAlone_of_ne (b : Backtracking k) (poll : Option (StateM σ Bool)) (s : σ)
    (h : (b.solve poll s).1.1 ≠ some .interrupted) : (b.solve poll s).1 = b.solveAlone := by
  cases ha : assumeAll b.assumptions [] with
  | none => rw [solveAlone, solve_of_none ha, solve_of_none ha]
  | some t =>
    rw [solve_of_some ha] at h ⊢
    rw [solveAlone, solve_of_some ha]
    obtain hstopped | ⟨hv, hn⟩ := search_alone (f := b.clauses) poll t
      { steps := b.steps, state := s } { steps := b.steps, state := () } rfl
    · rw [hstopped] at h
      exact absurd rfl h
    · dsimp only
      rw [hv, hn]

/-- A callback which also keeps its answers, in order. -/
def recorded (ask : StateM σ Bool) : StateM (σ × List Bool) Bool := fun s =>
  let (answer, state) := ask.run s.1
  (answer, (state, s.2 ++ [answer]))

/-- The answers of the callback during a solve, in order. -/
def pollAnswers (b : Backtracking k) (poll : Option (StateM σ Bool)) (s : σ) : List Bool :=
  (b.solve (poll.map recorded) (s, [])).2.2

/-- There are no answers without a callback. -/
theorem pollAnswers_none (b : Backtracking k) (s : σ) :
    b.pollAnswers none s = [] := by
  let unanswered : σ × List Bool → Prop := fun q => q.2 = []
  have h₀ : unanswered (s, []) := rfl
  have h : _ ∧ unanswered (b.solve none (s, [])).2 := not_interrupted_of_preserves nofun h₀
  exact h.2

/-- Recording the answers changes neither the outcome nor the state of the callback. -/
theorem solve_recorded {b : Backtracking k} (hf : b.clauses.InRange)
    (poll : Option (StateM σ Bool)) (s : σ) :
    (b.solve (poll.map recorded) (s, [])).1 = (b.solve poll s).1 ∧
      (b.solve (poll.map recorded) (s, [])).2.1 = (b.solve poll s).2 := by
  let R : σ × List Bool → σ → Prop := fun p s => p.1 = s
  have hstep : ∀ (e : Effort (σ × List Bool)) (e' : Effort σ), Effort.Related R e e' →
      (e.step (poll.map recorded)).1 = (e'.step poll).1 ∧
        Effort.Related R (e.step (poll.map recorded)).2 (e'.step poll).2 := by
    rintro e e' ⟨hn, hs⟩
    cases poll with
    | none => exact ⟨rfl, congrArg (· + 1) hn, hs⟩
    | some ask =>
      by_cases hdue : (e'.steps + 1) % stepsPerPoll = 0
      · simp only [Option.map_some, Effort.step, hn, hdue, if_true]
        exact ⟨congrArg (fun x => (ask.run x).1) hs, rfl, congrArg (fun x => (ask.run x).2) hs⟩
      · simp only [Option.map_some, Effort.step, hn, hdue, if_false]
        exact ⟨trivial, rfl, hs⟩
  exact solve_related hf hstep (rfl : R (s, []) s)

/-- **A solve is interrupted exactly when the callback asked to stop.** -/
theorem interrupted_iff {b : Backtracking k} (hf : b.clauses.InRange)
    (poll : Option (StateM σ Bool)) (s : σ) :
    (b.solve poll s).1.1 = some .interrupted ↔ true ∈ b.pollAnswers poll s := by
  have hask : CallbackPreserves (fun p => true ∉ p.2) (fun p => true ∈ p.2)
      (poll.map recorded) := by
    intro ask' ha p hp
    obtain ⟨ask, -, rfl⟩ := Option.map_eq_some_iff.mp ha
    change if (ask.run p.1).1 = true then true ∈ p.2 ++ [(ask.run p.1).1]
      else true ∉ p.2 ++ [(ask.run p.1).1]
    split_ifs with hb
    · simp [hb]
    · simpa [hb] using hp
  have hs := solve_preserves (b := b) (s := (s, [])) hask List.not_mem_nil
  rw [(solve_recorded hf poll s).1] at hs
  rw [pollAnswers]
  split_ifs at hs with hi
  · exact iff_of_true hi hs
  · exact iff_of_false hi hs

end Backtracking

end GovernedSat
