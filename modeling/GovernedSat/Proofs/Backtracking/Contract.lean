import GovernedSat.Proofs.Backtracking.Solve
import GovernedSat.Proofs.Solver.Calls
import Mathlib.Data.List.DropRight

/-!
# The contract of an incremental solver

What an incremental solver is asked is a matter of the calls made to it since it was made: the
clauses closed so far, and the literals assumed since the solve before. This is read off the list of
calls, not off the state of the solver. The backtracking solver answers a solve accordingly after
any history of calls, whatever becomes of the process between them; literals of a clause not yet
closed and earlier assumptions play no part, and neither do interrupted solves.

## Main definitions

* `IncrementalCall` — the calls, with the ones a caller may make.
* `Solver.IsFresh`, `Solver.Leads` — new solvers, and where a list of calls leads from a solver.
* `closedClauses`, `pendingAssumptions` — what a list of calls asks of the next solve.

## Main results

* `Backtracking.tracks_of_leads` — the solver keeps what it has been asked.
* `Backtracking.solve_meets_contract` — the answers of a solve after any history of calls.
-/

namespace GovernedSat

/-! ### Histories of calls -/

/-- A call to an incremental solver. -/
inductive IncrementalCall where
  /-- Adds a literal to the open clause, or closes it if given `0`. -/
  | add (l : Literal)
  /-- Assumes a literal for the next solve. -/
  | assume (l : Literal)
  /-- Solves. -/
  | solve
  /-- Sets the callback, or clears it. -/
  | setTerminate (callback : Option Callback)

namespace IncrementalCall

/-- Makes the call. -/
def perform {E : Type} [Engine E] : IncrementalCall → SolverM E Unit
  | add l => Solver.add l
  | assume l => Solver.assume l
  | solve => discard Solver.solve
  | setTerminate callback => Solver.setTerminate callback

/-- No literal given is the least word, and none assumed is `0`. -/
def IsAllowed : IncrementalCall → Prop
  | add l => l ≠ Literal.least
  | assume l => l.InRange
  | solve => True
  | setTerminate _ => True

/-- Whether the call is a solve. -/
def isSolve : IncrementalCall → Bool
  | solve => true
  | _ => false

/-- The literal added, or `0` where a clause is closed. -/
def added? : IncrementalCall → Option Literal
  | add l => some l
  | _ => none

/-- The literal assumed. -/
def assumed? : IncrementalCall → Option Literal
  | assume l => some l
  | _ => none

end IncrementalCall

/-- The clauses closed by a history of calls: the literals added, split where a clause was closed.
What follows the last of these places is still open. -/
def closedClauses (h : List IncrementalCall) : Formula :=
  ((h.filterMap IncrementalCall.added?).splitOn 0).dropLast

/-- The literals assumed since the last solve. -/
def pendingAssumptions (h : List IncrementalCall) : List Literal :=
  (h.rtakeWhile fun c => !c.isSolve).filterMap IncrementalCall.assumed?

/-- What a history of calls asks of the next solve: the clauses closed and the literals assumed
since the last solve are true. -/
def Assignment.Fulfils (v : Assignment) (h : List IncrementalCall) : Prop :=
  (closedClauses h).IsTrueOn v ∧ ∀ l ∈ pendingAssumptions h, l.IsTrueOn v

namespace Solver

variable {E : Type} [Engine E]

/-- The solver was just made, in whatever process. -/
def IsFresh (s : Solver E) : Prop := ∃ p : Process, ((make (E := E)).run p).1 = .ok s

/-- Where calls lead from a solver, each being made in whatever process. -/
inductive Leads (s : Solver E) : List IncrementalCall → Solver E → Prop
  | refl : Leads s [] s
  | call {h : List IncrementalCall} {s' : Solver E} (c : IncrementalCall) (p : Process)
      (before : Leads s h s') : Leads s (h ++ [c]) ((c.perform.run s').run p).1.2

end Solver

/-! ### Reading a history -/

section History

variable {h : List IncrementalCall} {c : IncrementalCall} {f : Formula} {o : Clause}

/-- Literals added in whole clauses, and then in one which is not closed, are split into these. -/
theorem splitOn_flatMap_append (hf : ∀ c ∈ f, (0 : Literal) ∉ c) (ho : (0 : Literal) ∉ o) :
    ((f.flatMap (· ++ [0])) ++ o).splitOn 0 = f ++ [o] := by
  induction f with
  | nil => exact List.splitOn_eq_singleton ho
  | cons c f ih =>
    rw [List.forall_mem_cons] at hf
    rw [List.flatMap_cons, List.append_assoc, List.append_assoc, List.singleton_append,
      List.splitOn_append_cons_self_of_not_mem hf.1, ih hf.2, List.cons_append]

theorem closedClauses_eq (hf : ∀ c ∈ f, (0 : Literal) ∉ c) (ho : (0 : Literal) ∉ o)
    (h' : h.filterMap IncrementalCall.added? = f.flatMap (· ++ [0]) ++ o) :
    closedClauses h = f := by
  rw [closedClauses, h', splitOn_flatMap_append hf ho, List.dropLast_concat]

/-- A call other than a solve leaves the assumptions pending, and may make a further one. -/
theorem pendingAssumptions_concat (hc : c.isSolve = false) :
    pendingAssumptions (h ++ [c]) = pendingAssumptions h ++ c.assumed?.toList := by
  rw [pendingAssumptions, List.rtakeWhile_concat_pos _ _ _ (by simp [hc]), List.filterMap_append,
    pendingAssumptions]
  cases hl : c.assumed? with
  | none => simp [hl]
  | some l => simp [hl]

/-- A solve leaves no assumption pending. -/
theorem pendingAssumptions_concat_solve : pendingAssumptions (h ++ [.solve]) = [] := by
  rw [pendingAssumptions, List.rtakeWhile_concat_neg _ _ _ (by simp [IncrementalCall.isSolve])]
  rfl

end History

/-! ### The solver keeps what it was asked -/

namespace Backtracking

variable {k : Coverage}

/-- The solver has in its state what a history of calls asks of the next solve. -/
structure Tracks (s : Solver (Backtracking k)) (h : List IncrementalCall) : Prop where
  /-- The literals added are those of the clauses, and then those of the open clause. -/
  added : h.filterMap IncrementalCall.added? =
    s.engine.clauses.flatMap (· ++ [0]) ++ s.openClause
  /-- The clauses are in range. -/
  inRange : s.engine.clauses.InRange
  /-- The open clause is in range. -/
  openInRange : Clause.InRange s.openClause
  /-- The literals assumed are the ones pending. -/
  assumptions : pendingAssumptions h = s.engine.assumptions
  /-- The literals assumed are in range. -/
  assumedInRange : Clause.InRange s.engine.assumptions

variable {s s' : Solver (Backtracking k)} {h : List IncrementalCall} {c : IncrementalCall}

theorem Tracks.closedClauses_eq (ht : Tracks s h) : closedClauses h = s.engine.clauses :=
  GovernedSat.closedClauses_eq (fun c hc h₀ => (ht.inRange c hc 0 h₀).1 rfl)
    (fun h₀ => (ht.openInRange 0 h₀).1 rfl) ht.added

theorem Tracks.fulfils_iff (ht : Tracks s h) {v : Assignment} :
    v.Fulfils h ↔ s.engine.clauses.IsTrueOn v ∧ Trail.IsTrueOn s.engine.assumptions v := by
  rw [Assignment.Fulfils, ht.closedClauses_eq, ht.assumptions]
  rfl

/-- Every call which a caller may make is kept track of. -/
theorem Tracks.perform (ht : Tracks s h) (hc : c.IsAllowed) (p : Process) :
    Tracks ((c.perform.run s).run p).1.2 (h ++ [c]) := by
  have ha := ht.assumptions
  cases c with
  | add l =>
    have hp : pendingAssumptions (h ++ [.add l]) = s.engine.assumptions := by
      rw [pendingAssumptions_concat rfl, ha]
      exact List.append_nil _
    by_cases h₀ : l = 0
    · subst h₀
      refine ⟨?_, ?_, Clause.inRange_nil, hp, ht.assumedInRange⟩
      · simp only [IncrementalCall.perform, Solver.run_add_zero, Engine.insert]
        simp [ht.added, IncrementalCall.added?]
      · exact Formula.inRange_append.mpr ⟨ht.inRange, by simp [ht.openInRange]⟩
    · simp only [IncrementalCall.perform, Solver.run_add s p h₀]
      refine ⟨?_, ht.inRange, ?_, hp, ht.assumedInRange⟩
      · simp [ht.added, IncrementalCall.added?]
      · intro m hm
        rcases List.mem_append.mp hm with hm | hm
        · exact ht.openInRange m hm
        · rw [List.mem_singleton] at hm
          exact hm ▸ ⟨h₀, hc⟩
  | assume l =>
    refine ⟨?_, ht.inRange, ht.openInRange, ?_, ?_⟩
    · rw [List.filterMap_append, ht.added]
      exact List.append_nil _
    · rw [pendingAssumptions_concat rfl, ha]
      rfl
    · intro m hm
      rcases List.mem_append.mp hm with hm | hm
      · exact ht.assumedInRange m hm
      · rw [List.mem_singleton] at hm
        exact hm ▸ hc
  | solve =>
    have hs := solved_solve ht.inRange ht.assumedInRange s.terminate (p.journaled (.solve s.id))
    have hf : ((Solver.solve.run s).run p).1.2.engine.clauses = s.engine.clauses := hs.clauses_eq
    have hn : ((Solver.solve.run s).run p).1.2.engine.assumptions = [] := hs.assumptions_eq
    change Tracks ((Solver.solve.run s).run p).1.2 _
    refine ⟨?_, hf ▸ ht.inRange, ht.openInRange, ?_, hn ▸ Clause.inRange_nil⟩
    · rw [List.filterMap_append, ht.added, hf]
      exact List.append_nil _
    · rw [pendingAssumptions_concat_solve, hn]
  | setTerminate callback =>
    refine ⟨?_, ht.inRange, ht.openInRange, ?_, ht.assumedInRange⟩
    · rw [List.filterMap_append, ht.added]
      exact List.append_nil _
    · rw [pendingAssumptions_concat rfl, ha]
      exact List.append_nil _

theorem tracks_of_isFresh (hs : s.IsFresh) : Tracks s [] := by
  obtain ⟨p, hp⟩ := hs
  cases hp
  exact ⟨rfl, Formula.inRange_nil, Clause.inRange_nil, rfl, Clause.inRange_nil⟩

/-- **The solver keeps what it has been asked**, after any history of calls since it was made. -/
theorem tracks_of_leads {s₀ : Solver (Backtracking k)} (h₀ : s₀.IsFresh) (hl : s₀.Leads h s)
    (ha : ∀ c ∈ h, c.IsAllowed) : Tracks s h := by
  induction hl with
  | refl => exact tracks_of_isFresh h₀
  | call c p _ ih =>
    rw [List.forall_mem_append, List.forall_mem_singleton] at ha
    exact (ih ha.1).perform ha.2 p

/-- No clause contains the word by which clauses are closed, nor does the one which is open. -/
theorem zero_notMem_of_leads {s₀ : Solver (Backtracking k)} (h₀ : s₀.IsFresh)
    (hl : s₀.Leads h s) : (∀ c ∈ s.engine.clauses, 0 ∉ c) ∧ 0 ∉ s.openClause := by
  induction hl with
  | refl =>
    obtain ⟨p, hp⟩ := h₀
    cases hp
    exact ⟨fun c hc => absurd hc List.not_mem_nil, List.not_mem_nil⟩
  | @call h s c p _ ih =>
    obtain ⟨hclauses, hopen⟩ := ih
    cases c with
    | add l =>
      by_cases hz : l = 0
      · subst hz
        refine ⟨List.forall_mem_append.mpr ⟨hclauses, ?_⟩, List.not_mem_nil⟩
        exact List.forall_mem_singleton.mpr hopen
      · simp only [IncrementalCall.perform, Solver.run_add s p hz]
        refine ⟨hclauses, ?_⟩
        simpa using ⟨hopen, Ne.symm hz⟩
    | assume l => exact ⟨hclauses, hopen⟩
    | solve =>
      have hsame : ((Solver.solve.run s).run p).1.2.engine.clauses = s.engine.clauses :=
        s.engine.solve_clauses s.terminate (p.journaled (.solve s.id))
      exact ⟨by rwa [← hsame] at hclauses, hopen⟩
    | setTerminate callback => exact ⟨hclauses, hopen⟩

/-- The last model stays until the next solve. -/
theorem model_of_leads (hl : s.Leads h s') (hn : ∀ c ∈ h, c.isSolve = false) :
    s'.engine.model = s.engine.model := by
  induction hl with
  | refl => rfl
  | @call h s' c p _ ih =>
    rw [List.forall_mem_append, List.forall_mem_singleton] at hn
    rw [← ih hn.1]
    cases c with
    | add l =>
      by_cases hz : l = 0
      · subst hz
        rfl
      · simp only [IncrementalCall.perform, Solver.run_add s' p hz]
    | assume l => rfl
    | solve => cases hn.2
    | setTerminate callback => rfl

theorem value?_of_leads (hl : s.Leads h s') (hn : ∀ c ∈ h, c.isSolve = false) :
    s'.value? = s.value? :=
  congrArg FoundModel.value? (model_of_leads hl hn)

/-! ### The answers of a solve -/

/-- A model found makes what was asked true wherever its answers are true, and leaves no atom open
up to the greatest one if it is a full one. -/
theorem Tracks.of_model (ht : Tracks s h) {m : FoundModel} (hm : m.IsProper)
    (hf : m.filled = s.engine.filled) (hc : m.trail.Satisfies s.engine.clauses)
    (ha : s.engine.assumptions ⊆ m.trail) :
    (∀ a, ∃ v, m.value? a = some v) ∧ (∀ σ : Assignment, σ.AgreesWith m.value? → σ.Fulfils h) ∧
      (k = .full → ∀ a, 0 < a →
        (∃ l ∈ (closedClauses h).flatten ++ pendingAssumptions h, a ≤ l.atom) →
          m.value? a ≠ some 0) := by
  refine ⟨fun a => ?_, fun σ hσ => ?_, fun hk a h₀ ⟨l, hl, hal⟩ => ?_⟩
  · obtain ⟨v, hv, -⟩ := hm.answers a
    exact ⟨v, hv⟩
  · have hσt := hm.isTrueOn_trail hσ
    exact ht.fulfils_iff.mpr ⟨hc.isTrueOn hσt, fun l hl => hσt l (ha hl)⟩
  · subst hk
    rw [ht.closedClauses_eq, ht.assumptions] at hl
    have hmax : l.atom ≤ s.engine.maxAtom := maxAtom_le_iff.mp (UInt32.le_refl _) l hl
    exact hm.value?_ne_zero h₀ (hf ▸ UInt32.le_trans hal hmax)

/-- **A backtracking solver meets the contract of an incremental solver.** After any history of
calls to a new solver, let `answers` be those of the callback during a solve, as shown by a run with
a callback which records them. The solve is interrupted exactly when some answer is yes, and
otherwise tells whether what was asked can be fulfilled. After a satisfiable one, until the next
solve, whatever agrees with the literals answered for the atoms fulfils what was asked. -/
theorem solve_meets_contract {s₀ : Solver (Backtracking k)} (h₀ : s₀.IsFresh) (hl : s₀.Leads h s)
    (ha : ∀ c ∈ h, c.IsAllowed) (p : Process) :
    ∃ report s' p' answers, (Solver.solve.run s).run p = ((some report, s'), p') ∧
      s.engine.solve (s.terminate.map recorded) (p.journaled (.solve s.id), []) =
        ((some report, s'.engine), (p', answers)) ∧
      (report = .interrupted ↔ true ∈ answers) ∧
      (true ∉ answers →
        (report = .satisfiable ↔ ∃ σ : Assignment, σ.Fulfils h) ∧
        (report = .unsatisfiable ↔ ¬ ∃ σ : Assignment, σ.Fulfils h)) ∧
      (report = .satisfiable → ∀ h' s'', s'.Leads h' s'' → (∀ c ∈ h', c.isSolve = false) →
        (∀ a, ∃ v, s''.value? a = some v) ∧
        (∀ σ : Assignment, σ.AgreesWith s''.value? → σ.Fulfils h) ∧
        (k = .full → ∀ a, 0 < a →
          (∃ l ∈ (closedClauses h).flatten ++ pendingAssumptions h, a ≤ l.atom) →
            s''.value? a ≠ some 0)) := by
  have ht := tracks_of_leads h₀ hl ha
  have hrun := Solver.run_solve s p
  have hi := interrupted_iff ht.inRange s.terminate (p.journaled (.solve s.id))
  have hs := solved_solve ht.inRange ht.assumedInRange s.terminate (p.journaled (.solve s.id))
  obtain ⟨hr₁, hr₂⟩ := solve_recorded ht.inRange s.terminate (p.journaled (.solve s.id))
  change (Solver.solve.run s).run p =
    let r := s.engine.solve s.terminate (p.journaled (.solve s.id))
    ((r.1.1, { s with engine := r.1.2 }), r.2) at hrun
  rw [pollAnswers] at hi
  generalize s.engine.solve (s.terminate.map recorded) (p.journaled (.solve s.id), []) = recordedRun
    at hi hr₁ hr₂ ⊢
  generalize s.engine.solve s.terminate (p.journaled (.solve s.id)) = r at hrun hi hs hr₁ hr₂
  obtain ⟨⟨report?, b⟩, p'⟩ := r
  obtain ⟨outcome, p'', answers⟩ := recordedRun
  obtain rfl : outcome = (report?, b) := hr₁
  obtain rfl : p'' = p' := hr₂
  cases hs with
  | @satisfiable m n proper filled clauses assumptions =>
    have hmodel := ht.of_model proper filled clauses assumptions
    have hyes : ∃ σ : Assignment, σ.Fulfils h :=
      ⟨_, hmodel.2.1 _ (proper.answers.agreesWith_reading .strictlyTrue)⟩
    have hne : some Report.satisfiable ≠ some .interrupted := by decide
    have hnever : true ∉ answers := fun h => hne (hi.mpr h)
    refine ⟨_, _, _, _, hrun, rfl, iff_of_false (by decide) hnever, fun _ => ?_,
      fun _ h' s'' hl' hn => ?_⟩
    · exact ⟨iff_of_true rfl hyes, iff_of_false (by decide) (not_not_intro hyes)⟩
    · rw [value?_of_leads hl' hn]
      exact hmodel
  | unsatisfiable refuted =>
    have hno : ¬ ∃ σ : Assignment, σ.Fulfils h := by
      rintro ⟨σ, hσ⟩
      obtain ⟨hf, has⟩ := ht.fulfils_iff.mp hσ
      exact refuted σ has hf
    have hne : some Report.unsatisfiable ≠ some .interrupted := by decide
    have hnever : true ∉ answers := fun h => hne (hi.mpr h)
    refine ⟨_, _, _, _, hrun, rfl, iff_of_false (by decide) hnever, fun _ => ?_,
      fun h => absurd h (by decide)⟩
    exact ⟨iff_of_false (by decide) hno, iff_of_true rfl hno⟩
  | interrupted =>
    have hyes : true ∈ answers := hi.mp rfl
    exact ⟨_, _, _, _, hrun, rfl, iff_of_true rfl hyes, fun h => absurd hyes h,
      fun h => absurd h (by decide)⟩

/-- Neither the assumption `-1` of the solve before nor the literal `-1` of the open clause keeps a
solver from finding a model of the clause `[1]`, in a process of any state. -/
theorem solve_after_refuted_assumption :
    ∃ s₀ s : Solver (Backtracking .full), s₀.IsFresh ∧
      s₀.Leads [.add 1, .add 0, .assume (-1), .solve, .add (-1)] s ∧
      ∀ p, ∃ s' p', (Solver.solve.run s).run p = ((some .satisfiable, s'), p') ∧
        ∀ σ : Assignment, σ.AgreesWith s'.value? →
          σ.Fulfils [.add 1, .add 0, .assume (-1), .solve, .add (-1)] := by
  let s₀ : Solver (Backtracking .full) := { id := 1, engine := {} }
  let p₀ : Process := { host := .steady ⟨0, 0, 0⟩ }
  have h₀ : s₀.IsFresh := ⟨p₀, rfl⟩
  have hl := Solver.Leads.call (.add (-1)) p₀ (.call .solve p₀ (.call (.assume (-1)) p₀
    (.call (.add 0) p₀ (.call (.add 1) p₀ (.refl (s := s₀))))))
  have ha : ∀ c ∈ [IncrementalCall.add 1, .add 0, .assume (-1), .solve, .add (-1)],
      c.IsAllowed := by
    simp only [List.forall_mem_cons, List.not_mem_nil, IncrementalCall.IsAllowed, false_implies,
      implies_true, and_true]
    decide
  refine ⟨_, _, h₀, hl, fun p => ?_⟩
  obtain ⟨report, s', p', answers, hrun, hrec, -, hreport, hmodel⟩ :=
    solve_meets_contract h₀ hl ha p
  -- There is no callback, so there are no answers.
  have hanswers : true ∉ answers := by
    rw [show answers = [] from (congrArg (·.2.2) hrec).symm.trans (pollAnswers_none _ _)]
    exact List.not_mem_nil
  -- The clause is closed, and nothing is assumed since the last solve.
  have hyes : report = .satisfiable := by
    refine (hreport hanswers).1.mpr ⟨fun _ => true, ?_, nofun⟩
    decide
  subst hyes
  exact ⟨s', p', hrun, (hmodel rfl [] s' .refl (by simp)).2.1⟩

end Backtracking

end GovernedSat
