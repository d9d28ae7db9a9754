import GovernedSat.Proofs.Backtracking.Table
import Mathlib.Data.List.Dedup

/-!
# How deep a search goes

An atom of the formula is open as long as neither of its literals is on the trail. A pass which
changes the trail closes an open atom, so propagation comes to its end within one more pass than
there are open atoms. A search calls itself only after it has closed an atom by its decision, so
however many calls it makes, they are nested at most one deeper than there are open atoms.

The count of steps in the effort of a search is the number of these calls.

## Main definitions

* `Trail.openAtoms` — the number of open atoms of a formula.
* `propagateWithin` — propagation within a number of passes.
* `SearchCall`, `searchCalls` — the calls of a search.

## Main results

* `propagateWithin_eq_some` — the number of passes of propagation.
* `steps_search` — the number of calls of a search.
* `depth_le_of_mem_searchCalls` — the depth of the calls of a search.
-/

namespace GovernedSat

variable {σ : Type} {f : Formula} {t t' : Trail} {l m : Literal} {poll : Option (StateM σ Bool)}
  {e e₁ e₂ : Effort σ} {d : Nat}

/-! ### Open atoms -/

namespace Trail

/-- The number of atoms of a formula with an open literal, each counted once. -/
def openAtoms (t : Trail) (f : Formula) : Nat :=
  f.atoms.dedup.countP fun a => t.isOpen (Literal.positive a)

theorem openAtoms_le_length (t : Trail) (f : Formula) : t.openAtoms f ≤ f.atoms.dedup.length :=
  List.countP_le_length

theorem openAtoms_le (h : t ⊆ t') (f : Formula) : t'.openAtoms f ≤ t.openAtoms f :=
  List.countP_mono_left fun _ _ => isOpen_of_subset h

/-- The literals of an atom are open together. -/
theorem isOpen_positive_atom : t.isOpen (Literal.positive l.atom) = t.isOpen l := by
  rcases Literal.positive_atom l with h | h
  · rw [h]
  · rw [h, isOpen_neg]

/-- An open atom of the formula is closed by either of its literals. -/
theorem openAtoms_lt (h : t ⊆ t') (hl : l ∈ f.flatten) (ho : t.isOpen l = true)
    (hn : l ∈ t' ∨ -l ∈ t') : t'.openAtoms f < t.openAtoms f := by
  have hatom : l.atom ∈ f.atoms.dedup := List.mem_dedup.mpr (Formula.atom_mem_atoms hl)
  refine countP_lt_countP (fun _ _ => isOpen_of_subset h) hatom (isOpen_positive_atom.trans ho) ?_
  rw [isOpen_positive_atom, ← Bool.not_eq_true, isOpen_iff]
  rcases hn with hn | hn <;> simp [hn]

/-- A decision closes an atom which propagation has left open. -/
theorem openAtoms_lt_of_decision? (hp : propagate f t = .undecided t')
    (hl : decision? f t' = some l) (hm : m = l ∨ m = -l) :
    openAtoms (m :: t') f < t.openAtoms f := by
  obtain ⟨hf, ho⟩ := decision?_eq_some hl
  have h : openAtoms (m :: t') f < t'.openAtoms f :=
    openAtoms_lt (List.subset_cons_self m t') hf ho (by rcases hm with rfl | rfl <;> simp)
  exact Nat.lt_of_lt_of_le h (openAtoms_le (subset_of_propagate_eq_undecided hp) f)

end Trail

/-! ### The passes of propagation -/

/-- The outcome of propagation, if it comes to its end within so many passes. -/
def propagateWithin (f : Formula) : Nat → Trail → Option Propagation
  | 0, _ => none
  | n + 1, t =>
    match pass f { trail := t } with
    | none => some .conflict
    | some q =>
      if q.settled then some (.satisfied q.trail)
      else if q.changed then propagateWithin f n q.trail
      else some (.undecided q.trail)

/-- **Propagation takes at most one more pass than there are open atoms.** -/
theorem propagateWithin_eq_some {n : Nat} (h : t.openAtoms f < n) :
    propagateWithin f n t = some (propagate f t) := by
  induction n generalizing t with
  | zero => cases h
  | succ n ih =>
    cases hp : pass f { trail := t } with
    | none => grind [propagateWithin, propagate]
    | some q =>
      by_cases hq : q.changed = true
      · -- The pass has closed an open atom, so one pass less is enough for the rest.
        obtain hc | ⟨l, hl, ho, hn⟩ := exists_of_pass_changed hp hq
        · cases hc
        have hlt := Trail.openAtoms_lt (subset_of_pass hp) hl ho (.inl hn)
        have hrest := ih (Nat.lt_of_lt_of_le hlt (Nat.le_of_lt_succ h))
        grind [propagateWithin, propagate]
      · grind [propagateWithin, propagate]

/-! ### The calls of a search -/

/-- A call of a search. -/
structure SearchCall where
  /-- The number of calls which have not returned yet, this one included. -/
  depth : Nat
  /-- The trail from which it searches. -/
  trail : Trail
  deriving DecidableEq, Repr

/-- The calls of a search whose own depth is `d`: the search itself, the search after its decision,
and where that is refuted, the search after the opposite decision. -/
def searchCalls (f : Formula) (poll : Option (StateM σ Bool)) (d : Nat) (t : Trail)
    (e : Effort σ) : List SearchCall :=
  let (stop, e) := e.step poll
  if stop then [⟨d, t⟩]
  else
    match _hp : propagate f t with
    | .conflict => [⟨d, t⟩]
    | .satisfied _ => [⟨d, t⟩]
    | .undecided t' =>
      match _hl : decision? f t' with
      | none => [⟨d, t⟩]
      | some l =>
        match search f poll (Literal.positive l.atom :: t') e with
        | (.refuted, e') =>
          match _hm : Literal.negate? (Literal.positive l.atom) with
          | none => ⟨d, t⟩ :: searchCalls f poll (d + 1) (Literal.positive l.atom :: t') e
          | some m =>
            (⟨d, t⟩ :: searchCalls f poll (d + 1) (Literal.positive l.atom :: t') e) ++
              searchCalls f poll (d + 1) (m :: t') e'
        | _ => ⟨d, t⟩ :: searchCalls f poll (d + 1) (Literal.positive l.atom :: t') e
termination_by t.openCount f
decreasing_by
  · exact openCount_lt_of_decision? _hp _hl (Literal.positive_atom l)
  · exact openCount_lt_of_decision? _hp _hl (Literal.positive_atom l)
  · refine openCount_lt_of_decision? _hp _hl ?_
    rw [Literal.negate?_eq_some _hm]
    rcases Literal.positive_atom l with h | h <;> simp [h]
  · exact openCount_lt_of_decision? _hp _hl (Literal.positive_atom l)

section Steps

/-- A search which keeps the outcome of its decision. -/
theorem searchCalls_of_decided (h : e.step poll = (false, e₁)) (hp : propagate f t = .undecided t')
    (hl : decision? f t' = some l)
    (hr : ∀ e₂, search f poll (Literal.positive l.atom :: t') e₁ ≠ (.refuted, e₂)) :
    searchCalls f poll d t e =
      ⟨d, t⟩ :: searchCalls f poll (d + 1) (Literal.positive l.atom :: t') e₁ := by
  rw [searchCalls, h]
  simp only [Bool.false_eq_true, if_false]
  grind

/-- A search whose decision is refuted. -/
theorem searchCalls_of_reverted (h : e.step poll = (false, e₁))
    (hp : propagate f t = .undecided t') (hl : decision? f t' = some l)
    (hr : search f poll (Literal.positive l.atom :: t') e₁ = (.refuted, e₂))
    (hm : Literal.negate? (Literal.positive l.atom) = some m) :
    searchCalls f poll d t e =
      (⟨d, t⟩ :: searchCalls f poll (d + 1) (Literal.positive l.atom :: t') e₁) ++
        searchCalls f poll (d + 1) (m :: t') e₂ := by
  rw [searchCalls, h]
  simp only [Bool.false_eq_true, if_false]
  grind

theorem searchCalls_of_overflow (h : e.step poll = (false, e₁))
    (hp : propagate f t = .undecided t') (hl : decision? f t' = some l)
    (hr : search f poll (Literal.positive l.atom :: t') e₁ = (.refuted, e₂))
    (hm : Literal.negate? (Literal.positive l.atom) = none) :
    searchCalls f poll d t e =
      ⟨d, t⟩ :: searchCalls f poll (d + 1) (Literal.positive l.atom :: t') e₁ := by
  rw [searchCalls, h]
  simp only [Bool.false_eq_true, if_false]
  grind

end Steps

/-- **What every decision preserves holds of every call.** -/
theorem forall_mem_searchCalls {P : Nat → Trail → Prop}
    (hdecision : ∀ {d t t' l m}, P d t → propagate f t = .undecided t' → decision? f t' = some l →
      m = Literal.positive l.atom ∨ m = -Literal.positive l.atom → P (d + 1) (m :: t'))
    (h : P d t) : ∀ x ∈ searchCalls f poll d t e, P x.depth x.trail := by
  induction t, e using search.induct f poll generalizing d with
  | case1 t e e₁ hs
  | case2 t e stop e₁ hs
  | case3 t e stop e₁ hs
  | case4 t e stop e₁ hs =>
    rw [searchCalls, hs]
    grind
  | case5 t e stop e₁ hs hstop t' hp l hl e₂ hr hm ih =>
    rw [eq_false_of_ne_true hstop] at hs
    rw [searchCalls_of_overflow hs hp hl hr hm, List.forall_mem_cons]
    exact ⟨h, ih (hdecision h hp hl (.inl rfl))⟩
  | case6 t e stop e₁ hs hstop t' hp l hl e₂ hr m hm ih₁ ih₂ =>
    rw [eq_false_of_ne_true hstop] at hs
    rw [searchCalls_of_reverted hs hp hl hr hm, List.forall_mem_append, List.forall_mem_cons]
    exact ⟨⟨h, ih₁ (hdecision h hp hl (.inl rfl))⟩,
      ih₂ (hdecision h hp hl (.inr (Literal.negate?_eq_some hm)))⟩
  | case7 t e stop e₁ hs hstop t' hp l hl hr ih =>
    rw [eq_false_of_ne_true hstop] at hs
    rw [searchCalls_of_decided hs hp hl hr, List.forall_mem_cons]
    exact ⟨h, ih (hdecision h hp hl (.inl rfl))⟩

/-- **The calls are nested at most one deeper than there are open atoms.** Each call has closed one
atom more than the call which made it. -/
theorem depth_le_of_mem_searchCalls :
    ∀ x ∈ searchCalls f poll d t e, x.depth + x.trail.openAtoms f ≤ d + t.openAtoms f := by
  refine forall_mem_searchCalls (P := fun n s => n + s.openAtoms f ≤ d + t.openAtoms f) ?_
    (Nat.le_refl _)
  intro n s s' l m h hp hl hm
  have hlt : Trail.openAtoms (m :: s') f < s.openAtoms f := by
    refine Trail.openAtoms_lt_of_decision? hp hl ?_
    rcases Literal.positive_atom l with ha | ha <;> rcases hm with rfl | rfl <;> simp [ha]
  omega

theorem Effort.steps_of_step {stop : Bool} (h : e.step poll = (stop, e₁)) :
    e₁.steps = e.steps + 1 := by
  have hcount : (e.step poll).2.steps = e.steps + 1 := by
    unfold Effort.step
    grind
  rwa [h] at hcount

/-- **The steps of a search are its calls.** -/
theorem steps_search (t : Trail) (e : Effort σ) :
    (search f poll t e).2.steps = e.steps + (searchCalls f poll d t e).length := by
  induction t, e using search.induct f poll generalizing d with
  | case1 t e e₁ hs =>
    rw [search_of_stop hs, searchCalls, hs]
    exact Effort.steps_of_step hs
  | case2 t e stop e₁ hs
  | case3 t e stop e₁ hs
  | case4 t e stop e₁ hs =>
    have hcount := Effort.steps_of_step hs
    rw [search, hs, searchCalls, hs]
    grind
  | case5 t e stop e₁ hs hstop t' hp l hl e₂ hr hm ih =>
    have hcount := Effort.steps_of_step hs
    rw [eq_false_of_ne_true hstop] at hs
    rw [search_of_decision hs hp hl, searchCalls_of_overflow hs hp hl hr hm, hr, hm]
    have hdecided := ih (d := d + 1)
    rw [hr] at hdecided
    rw [List.length_cons]
    dsimp only at hdecided ⊢
    omega
  | case6 t e stop e₁ hs hstop t' hp l hl e₂ hr m hm ih₁ ih₂ =>
    have hcount := Effort.steps_of_step hs
    rw [eq_false_of_ne_true hstop] at hs
    rw [search_of_decision hs hp hl, searchCalls_of_reverted hs hp hl hr hm, hr, hm]
    have hdecided := ih₁ (d := d + 1)
    have hreverted := ih₂ (d := d + 1)
    rw [hr] at hdecided
    rw [List.length_append, List.length_cons]
    dsimp only at hdecided ⊢
    omega
  | case7 t e stop e₁ hs hstop t' hp l hl hr ih =>
    have hcount := Effort.steps_of_step hs
    rw [eq_false_of_ne_true hstop] at hs
    rw [search_of_decision hs hp hl, searchCalls_of_decided hs hp hl hr, List.length_cons]
    have hdecided := ih (d := d + 1)
    split
    · next he => exact absurd he (hr _)
    · omega

end GovernedSat
