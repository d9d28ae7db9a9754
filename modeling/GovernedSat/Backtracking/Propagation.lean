import GovernedSat.Backtracking.Trail

/-!
# Unit propagation

A pass goes over the clauses of a formula in order. A clause with a single open literal left makes
that literal true at once, so that later clauses of the pass already see it, and a clause with none
left is a conflict. Passes are repeated until one finds every clause satisfied or makes nothing
true. A clause which the pass itself made true was not satisfied when it was looked at, so one more
pass follows it.

## Main definitions

* `Propagation` — the outcome.
* `propagate` — the propagation of a trail.

## Main results

* `subset_of_pass`, `subset_of_propagate_eq_undecided` — propagation only adds to a trail.
-/

namespace GovernedSat

open Trail

/-- What a pass knows so far. -/
structure Pass where
  /-- The literals made true. -/
  trail : Trail
  /-- Whether the pass made some literal true. -/
  changed : Bool := false
  /-- Whether every clause was satisfied when it was looked at. -/
  settled : Bool := true
  deriving DecidableEq, Repr

/-- One pass over the clauses, which ends without a result at a conflict. -/
def pass : Formula → Pass → Option Pass
  | [], p => some p
  | c :: f, p =>
    match p.trail.status c with
    | .satisfied => pass f p
    | .conflict => none
    | .unit l => pass f { trail := l :: p.trail, changed := true, settled := false }
    | .undecided => pass f { p with settled := false }

/-- The outcome of propagation. -/
inductive Propagation where
  /-- Some clause is false. -/
  | conflict
  /-- Every clause is true. -/
  | satisfied (t : Trail)
  /-- No clause has a single open literal left, and some clause is not true. -/
  | undecided (t : Trail)
  deriving DecidableEq, Repr

/-! ### Passes add to the trail -/

theorem subset_of_pass {f : Formula} {p q : Pass} (h : pass f p = some q) : p.trail ⊆ q.trail := by
  fun_induction pass f p with
  | case1 p => cases h; exact List.Subset.refl _
  | case2 _ _ _ _ ih => exact ih h
  | case3 => cases h
  | case4 _ _ _ l _ ih => exact List.Subset.trans (List.subset_cons_self l _) (ih h)
  | case5 _ _ _ _ ih => exact ih h

/-- A pass which changes the trail makes true a literal of the formula which was open. -/
theorem exists_of_pass_changed {f : Formula} {p q : Pass} (h : pass f p = some q)
    (hq : q.changed = true) :
    p.changed = true ∨ ∃ l ∈ f.flatten, p.trail.isOpen l = true ∧ l ∈ q.trail := by
  fun_induction pass f p with
  | case1 p => cases h; exact .inl hq
  | case2 _ _ _ _ ih =>
    refine (ih h).imp_right fun ⟨l, hl, ho⟩ => ⟨l, ?_, ho⟩
    exact List.mem_append_right _ hl
  | case3 => cases h
  | case4 c f p l hs ih =>
    obtain ⟨hl, ho⟩ := mem_of_status_eq_unit hs
    exact .inr ⟨l, List.mem_append_left _ hl, ho, subset_of_pass h List.mem_cons_self⟩
  | case5 _ _ _ _ ih =>
    refine (ih h).imp_right fun ⟨l, hl, ho⟩ => ⟨l, ?_, ho⟩
    exact List.mem_append_right _ hl

theorem openCount_lt_of_pass {f : Formula} {t : Trail} {q : Pass}
    (h : pass f { trail := t } = some q) (hq : q.changed = true) :
    q.trail.openCount f < t.openCount f := by
  rcases exists_of_pass_changed h hq with h' | ⟨l, hl, ho, hn⟩
  · cases h'
  · exact openCount_lt (subset_of_pass h) hl ho (.inl hn)

/-! ### Propagation -/

/-- Repeats passes until one meets a conflict, finds every clause satisfied, or changes nothing. -/
def propagate (f : Formula) (t : Trail) : Propagation :=
  match _h : pass f { trail := t } with
  | none => .conflict
  | some q =>
    if q.settled then .satisfied q.trail
    else if _hq : q.changed then propagate f q.trail
    else .undecided q.trail
termination_by t.openCount f
decreasing_by exact openCount_lt_of_pass ‹_› ‹_›

theorem subset_of_propagate_eq_undecided {f : Formula} {t t' : Trail}
    (h : propagate f t = .undecided t') : t ⊆ t' := by
  fun_induction propagate f t with
  | case1 => cases h
  | case2 => cases h
  | case3 t q hp _ _ ih => exact List.Subset.trans (subset_of_pass hp) (ih h)
  | case4 t q hp => cases h; exact subset_of_pass hp

end GovernedSat
