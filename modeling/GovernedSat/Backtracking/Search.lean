import GovernedSat.Backtracking.Propagation

/-!
# Backtracking search

The search for a model propagates the trail, and where that decides nothing makes true the first
open literal's atom of the first clause which is not yet true, or else, when that is refuted, makes
it false. It counts its steps, and asks a callback, if there is one, at every step whose number is a
multiple of `stepsPerPoll`; the search stops when the callback asks it to.

The callback may read and change a state of any type, which is threaded through the search.

## Main definitions

* `Verdict` — the outcome.
* `Effort` — the count of steps, with the state of the callback.
* `search` — the search from a trail.
-/

namespace GovernedSat

/-- The outcome of a search. -/
inductive Verdict where
  /-- Every clause is true on the trail. -/
  | model (t : Trail)
  /-- No clause-satisfying assignment extends the trail. -/
  | refuted
  /-- The callback asked the search to stop. -/
  | stopped
  /-- A literal to be made true is out of range. -/
  | overflow
  deriving DecidableEq, Repr

/-- What a search changes as it goes on. -/
structure Effort (σ : Type) where
  /-- The number of steps made. -/
  steps : Nat
  /-- The state of the callback. -/
  state : σ

/-- The number of steps from one call of the callback to the next. -/
def stepsPerPoll : Nat := 64

variable {σ : Type}

/-- Counts a step, and tells whether the search has to stop. -/
def Effort.step (e : Effort σ) (poll : Option (StateM σ Bool)) : Bool × Effort σ :=
  let steps := e.steps + 1
  match poll with
  | some ask =>
    if steps % stepsPerPoll = 0 then
      let (stop, state) := ask.run e.state
      (stop, { steps, state })
    else (false, { e with steps })
  | none => (false, { e with steps })

/-- The literal to decide: the first open one of the first clause which is not yet true. -/
def decision? (f : Formula) (t : Trail) : Option Literal :=
  (f.find? fun c => !c.any t.isTrue).bind fun c => c.find? t.isOpen

theorem decision?_eq_some {f : Formula} {t : Trail} {l : Literal} (h : decision? f t = some l) :
    l ∈ f.flatten ∧ t.isOpen l = true := by
  obtain ⟨c, hc, hl⟩ := Option.bind_eq_some_iff.mp h
  exact ⟨List.mem_flatten.mpr ⟨c, List.mem_of_find?_eq_some hc, List.mem_of_find?_eq_some hl⟩,
    List.find?_some hl⟩

theorem openCount_lt_of_decision? {f : Formula} {t t' : Trail} {l m : Literal}
    (hp : propagate f t = .undecided t') (hl : decision? f t' = some l) (hm : m = l ∨ m = -l) :
    Trail.openCount (m :: t') f < t.openCount f := by
  obtain ⟨hf, ho⟩ := decision?_eq_some hl
  have h₁ : Trail.openCount (m :: t') f < t'.openCount f :=
    Trail.openCount_lt (List.subset_cons_self m t') hf ho (by rcases hm with rfl | rfl <;> simp)
  exact Nat.lt_of_lt_of_le h₁ (Trail.openCount_le (subset_of_propagate_eq_undecided hp) f)

/-- Searches for a model of the formula which extends the trail. -/
def search (f : Formula) (poll : Option (StateM σ Bool)) (t : Trail) (e : Effort σ) :
    Verdict × Effort σ :=
  let (stop, e) := e.step poll
  if stop then (.stopped, e)
  else
    match _hp : propagate f t with
    | .conflict => (.refuted, e)
    | .satisfied t' => (.model t', e)
    | .undecided t' =>
      match _hl : decision? f t' with
      | none => (.refuted, e)
      | some l =>
        match search f poll (Literal.positive l.atom :: t') e with
        | (.refuted, e) =>
          match _hm : Literal.negate? (Literal.positive l.atom) with
          | none => (.overflow, e)
          | some m => search f poll (m :: t') e
        | r => r
termination_by t.openCount f
decreasing_by
  · exact openCount_lt_of_decision? _hp _hl (Literal.positive_atom l)
  · refine openCount_lt_of_decision? _hp _hl ?_
    rw [Literal.negate?_eq_some _hm]
    rcases Literal.positive_atom l with h | h <;> simp [h]

end GovernedSat
