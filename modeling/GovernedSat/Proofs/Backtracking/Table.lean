import GovernedSat.Backtracking.Engine
import GovernedSat.Proofs.Backtracking.Solve

/-!
# The literals made true during a solve

A solver may keep the values of the atoms in a table, with an entry for each atom up to the greatest
one of its clauses and assumptions. Then making a literal true writes the entry of its atom. The
literals which are made true in the course of a solve, on branches which are given up too, are
listed here in order; they go to the trail, and all of them have an entry in the table. The clauses
need not be in range for that.

## Main definitions

* `passMade`, `propagateMade`, `searchMade`, `Backtracking.solveMade` — the literals made true.

## Main results

* `trail_of_pass`, `trail_of_propagate` — the trail has just these literals more.
* `Backtracking.trail_subset_solveMade` — a model has no others.
* `Backtracking.atom_le_of_mem_solveMade` — all of them are in the table.
-/

namespace GovernedSat

variable {σ : Type} {f : Formula} {t t' : Trail} {l : Literal}

/-! ### Propagation -/

/-- The literals made true by a pass. -/
def passMade : Formula → Pass → List Literal
  | [], _ => []
  | c :: f, p =>
    match p.trail.status c with
    | .satisfied => passMade f p
    | .conflict => []
    | .unit l => l :: passMade f { trail := l :: p.trail, changed := true, settled := false }
    | .undecided => passMade f { p with settled := false }

/-- The literals made true by propagation, one pass after another. -/
def propagateMade (f : Formula) (t : Trail) : List Literal :=
  match _h : pass f { trail := t } with
  | none => passMade f { trail := t }
  | some q =>
    if q.settled then passMade f { trail := t }
    else if _hq : q.changed then passMade f { trail := t } ++ propagateMade f q.trail
    else passMade f { trail := t }
termination_by t.openCount f
decreasing_by exact openCount_lt_of_pass ‹_› ‹_›

/-- The trail has the literals made true by the pass, the latest first. -/
theorem trail_of_pass {p q : Pass} (h : pass f p = some q) :
    q.trail = (passMade f p).reverse ++ p.trail := by
  fun_induction pass f p with
  | case1 p =>
    cases h
    rfl
  | case2 c f p hs ih =>
    rw [passMade, hs]
    exact ih h
  | case3 => cases h
  | case4 c f p l hs ih =>
    rw [passMade, hs, List.reverse_cons, List.append_assoc]
    exact ih h
  | case5 c f p hs ih =>
    rw [passMade, hs]
    exact ih h

/-- The trail has the literals made true by propagation, the latest first. -/
theorem trail_of_propagate (h : propagate f t = .satisfied t' ∨ propagate f t = .undecided t') :
    t' = (propagateMade f t).reverse ++ t := by
  induction t using propagateMade.induct f with
  | case1 t hp => grind [propagate]
  | case2 t q hp hq => grind [propagate, propagateMade, trail_of_pass]
  | case3 t q hp hn hc ih => grind [propagate, propagateMade, trail_of_pass]
  | case4 t q hp hn hc => grind [propagate, propagateMade, trail_of_pass]

/-- Passes make literals of the formula true. -/
theorem mem_flatten_of_mem_passMade {p : Pass} (h : l ∈ passMade f p) : l ∈ f.flatten := by
  fun_induction passMade f p with
  | case1 => cases h
  | case2 _ _ _ _ ih => exact List.mem_append_right _ (ih h)
  | case3 => cases h
  | case4 c f p m hs ih =>
    rcases List.mem_cons.mp h with rfl | h
    · exact List.mem_append_left _ (Trail.mem_of_status_eq_unit hs).1
    · exact List.mem_append_right _ (ih h)
  | case5 _ _ _ _ ih => exact List.mem_append_right _ (ih h)

theorem mem_flatten_of_mem_propagateMade (h : l ∈ propagateMade f t) : l ∈ f.flatten := by
  fun_induction propagateMade f t with
  | case1 => exact mem_flatten_of_mem_passMade h
  | case2 => exact mem_flatten_of_mem_passMade h
  | case3 t q hp hn hc ih => exact (List.mem_append.mp h).elim mem_flatten_of_mem_passMade ih
  | case4 => exact mem_flatten_of_mem_passMade h

/-! ### Searches -/

/-- The literals made true by a search: by propagation, by the decision, in the search after it,
and where that is refuted, by the opposite decision and in the search after that. -/
def searchMade (f : Formula) (poll : Option (StateM σ Bool)) (t : Trail) (e : Effort σ) :
    List Literal :=
  let (stop, e) := e.step poll
  if stop then []
  else
    match _hp : propagate f t with
    | .conflict => propagateMade f t
    | .satisfied _ => propagateMade f t
    | .undecided t' =>
      match _hl : decision? f t' with
      | none => propagateMade f t
      | some l =>
        match search f poll (Literal.positive l.atom :: t') e with
        | (.refuted, e') =>
          match _hm : Literal.negate? (Literal.positive l.atom) with
          | none =>
            propagateMade f t ++ Literal.positive l.atom ::
              searchMade f poll (Literal.positive l.atom :: t') e
          | some m =>
            (propagateMade f t ++ Literal.positive l.atom ::
              searchMade f poll (Literal.positive l.atom :: t') e) ++
                m :: searchMade f poll (m :: t') e'
        | _ =>
          propagateMade f t ++ Literal.positive l.atom ::
            searchMade f poll (Literal.positive l.atom :: t') e
termination_by t.openCount f
decreasing_by
  · exact openCount_lt_of_decision? _hp _hl (Literal.positive_atom l)
  · exact openCount_lt_of_decision? _hp _hl (Literal.positive_atom l)
  · refine openCount_lt_of_decision? _hp _hl ?_
    rw [Literal.negate?_eq_some _hm]
    rcases Literal.positive_atom l with h | h <;> simp [h]
  · exact openCount_lt_of_decision? _hp _hl (Literal.positive_atom l)

section Steps

variable {poll : Option (StateM σ Bool)} {e e₁ e₂ : Effort σ}

theorem searchMade_of_decided (h : e.step poll = (false, e₁)) (hp : propagate f t = .undecided t')
    (hl : decision? f t' = some l)
    (hr : ∀ e₂, search f poll (Literal.positive l.atom :: t') e₁ ≠ (.refuted, e₂)) :
    searchMade f poll t e = propagateMade f t ++ Literal.positive l.atom ::
      searchMade f poll (Literal.positive l.atom :: t') e₁ := by
  rw [searchMade, h]
  simp only [Bool.false_eq_true, if_false]
  grind

theorem searchMade_of_reverted {m : Literal} (h : e.step poll = (false, e₁))
    (hp : propagate f t = .undecided t') (hl : decision? f t' = some l)
    (hr : search f poll (Literal.positive l.atom :: t') e₁ = (.refuted, e₂))
    (hm : Literal.negate? (Literal.positive l.atom) = some m) :
    searchMade f poll t e = (propagateMade f t ++ Literal.positive l.atom ::
      searchMade f poll (Literal.positive l.atom :: t') e₁) ++
        m :: searchMade f poll (m :: t') e₂ := by
  rw [searchMade, h]
  simp only [Bool.false_eq_true, if_false]
  grind

theorem searchMade_of_overflow (h : e.step poll = (false, e₁))
    (hp : propagate f t = .undecided t') (hl : decision? f t' = some l)
    (hr : search f poll (Literal.positive l.atom :: t') e₁ = (.refuted, e₂))
    (hm : Literal.negate? (Literal.positive l.atom) = none) :
    searchMade f poll t e = propagateMade f t ++ Literal.positive l.atom ::
      searchMade f poll (Literal.positive l.atom :: t') e₁ := by
  rw [searchMade, h]
  simp only [Bool.false_eq_true, if_false]
  grind

end Steps

/-- A model has the literals of the trail, and others which the search made true. -/
theorem subset_of_search {poll : Option (StateM σ Bool)} {e : Effort σ}
    (h : (search f poll t e).1 = .model t') : t' ⊆ searchMade f poll t e ++ t := by
  induction t, e using search.induct f poll with
  | case1 t e e₁ hs =>
    rw [search_of_stop hs] at h
    cases h
  | case2 t e stop e₁ hs
  | case3 t e stop e₁ hs
  | case4 t e stop e₁ hs =>
    rw [search, hs] at h
    rw [searchMade, hs]
    grind [trail_of_propagate]
  | case5 t e stop e₁ hs hstop t₁ hp l hl e₂ hr hm ih =>
    rw [eq_false_of_ne_true hstop] at hs
    rw [search_of_decision hs hp hl, hr, hm] at h
    cases h
  | case6 t e stop e₁ hs hstop t₁ hp l hl e₂ hr m hm ih₁ ih₂ =>
    rw [eq_false_of_ne_true hstop] at hs
    have ht := trail_of_propagate (.inr hp)
    rw [search_of_decision hs hp hl, hr, hm] at h
    rw [searchMade_of_reverted hs hp hl hr hm]
    have hrest := ih₂ h
    grind
  | case7 t e stop e₁ hs hstop t₁ hp l hl hr ih =>
    rw [eq_false_of_ne_true hstop] at hs
    have ht := trail_of_propagate (.inr hp)
    rw [searchMade_of_decided hs hp hl hr]
    grind [search_of_decision]

/-- Taken as a positive literal, the atom of a literal stays the same, whatever the literal. -/
theorem Literal.atom_positive_atom (l : Literal) : atom (positive l.atom) = l.atom := by
  obtain h | h := positive_atom l
  · rw [h]
  · rw [h]
    by_cases hl : l = least
    · rw [hl]
      rfl
    · rw [← UInt32.toNat_inj, toNat_atom, toNat_atom, toInt_neg_of_ne_least hl, Int.natAbs_neg]

theorem Formula.atom_mem_atoms (h : l ∈ f.flatten) : l.atom ∈ f.atoms := by
  obtain ⟨c, hc, hl⟩ := List.mem_flatten.mp h
  exact mem_atoms.mpr ⟨c, hc, l, hl, rfl⟩

/-- A search makes literals of atoms of the formula true. -/
theorem atom_mem_atoms_of_mem_searchMade {poll : Option (StateM σ Bool)} {e : Effort σ}
    (t : Trail) : ∀ l ∈ searchMade f poll t e, l.atom ∈ f.atoms := by
  have hpropagate : ∀ t, ∀ l ∈ propagateMade f t, l.atom ∈ f.atoms :=
    fun t l hl => Formula.atom_mem_atoms (mem_flatten_of_mem_propagateMade hl)
  have hdecision : ∀ {t l}, decision? f t = some l →
      (Literal.positive l.atom).atom ∈ f.atoms := fun hl => by
    rw [Literal.atom_positive_atom]
    exact Formula.atom_mem_atoms (decision?_eq_some hl).1
  induction t, e using search.induct f poll with
  | case1 t e e₁ hs
  | case2 t e stop e₁ hs
  | case3 t e stop e₁ hs
  | case4 t e stop e₁ hs =>
    rw [searchMade, hs]
    grind
  | case5 t e stop e₁ hs hstop t₁ hp l hl e₂ hr hm ih =>
    rw [eq_false_of_ne_true hstop] at hs
    rw [searchMade_of_overflow hs hp hl hr hm, List.forall_mem_append, List.forall_mem_cons]
    exact ⟨hpropagate t, hdecision hl, ih⟩
  | case6 t e stop e₁ hs hstop t₁ hp l hl e₂ hr m hm ih₁ ih₂ =>
    rw [eq_false_of_ne_true hstop] at hs
    rw [searchMade_of_reverted hs hp hl hr hm, List.forall_mem_append, List.forall_mem_append,
      List.forall_mem_cons, List.forall_mem_cons, Literal.atom_of_negate? hm]
    exact ⟨⟨hpropagate t, hdecision hl, ih₁⟩, hdecision hl, ih₂⟩
  | case7 t e stop e₁ hs hstop t₁ hp l hl hr ih =>
    rw [eq_false_of_ne_true hstop] at hs
    rw [searchMade_of_decided hs hp hl hr, List.forall_mem_append, List.forall_mem_cons]
    exact ⟨hpropagate t, hdecision hl, ih⟩

theorem atom_le_of_mem_searchMade {poll : Option (StateM σ Bool)} {e : Effort σ} (t : Trail) :
    ∀ l ∈ searchMade f poll t e, l.atom ≤ f.maxAtom := by
  intro l hl
  obtain ⟨c, hc, m, hm, he⟩ := Formula.mem_atoms.mp (atom_mem_atoms_of_mem_searchMade t l hl)
  rw [← he]
  exact Formula.maxAtom_le_iff.mp UInt32.le_rfl m (List.mem_flatten.mpr ⟨c, hc, hm⟩)

/-! ### Solves -/

namespace Backtracking

variable {k : Coverage}

/-- The literals made true as they are assumed. -/
def assumedMade : List Literal → Trail → List Literal
  | [], _ => []
  | l :: ls, t => if t.isFalse l then [] else l :: assumedMade ls (l :: t)

/-- The literals made true by a solve. -/
def solveMade (b : Backtracking k) (poll : Option (StateM σ Bool)) (s : σ) : List Literal :=
  assumedMade b.assumptions [] ++
    match assumeAll b.assumptions [] with
    | none => []
    | some t => searchMade b.clauses poll t { steps := b.steps, state := s }

/-- The trail has the literals assumed, the latest first. -/
theorem trail_of_assumeAll {ls : List Literal} (h : assumeAll ls t = some t') :
    t' = (assumedMade ls t).reverse ++ t := by
  fun_induction assumeAll ls t with
  | case1 =>
    cases h
    rfl
  | case2 => cases h
  | case3 l ls t hl ih =>
    rw [assumedMade, if_neg hl, List.reverse_cons, List.append_assoc, ih h]
    rfl

theorem assumedMade_subset (ls : List Literal) (t : Trail) : assumedMade ls t ⊆ ls := by
  fun_induction assumedMade ls t with
  | case1 => exact List.Subset.refl _
  | case2 => exact List.nil_subset _
  | case3 l ls t hl ih => exact List.cons_subset_cons l ih

/-- A model found has no other literals. -/
theorem trail_subset_solveMade (b : Backtracking k) (poll : Option (StateM σ Bool)) (s : σ)
    (h : (b.solve poll s).1.1 = some .satisfiable) :
    (b.solve poll s).1.2.model.trail ⊆ b.solveMade poll s := by
  cases ha : assumeAll b.assumptions [] with
  | none =>
    rw [solve_of_none ha] at h
    cases h
  | some t =>
    have ht := trail_of_assumeAll ha
    have hsearch : ∀ t', (search b.clauses poll t { steps := b.steps, state := s }).1 = .model t' →
        t' ⊆ searchMade b.clauses poll t { steps := b.steps, state := s } ++ t :=
      fun t' ht' => subset_of_search ht'
    rw [solve_of_some ha] at h ⊢
    rw [solveMade, ha]
    grind

/-- **Every literal made true by a solve has an entry in the table**, whatever the clauses and the
assumptions are, and whatever the callback answers. -/
theorem atom_le_of_mem_solveMade (b : Backtracking k) (poll : Option (StateM σ Bool)) (s : σ) :
    ∀ l ∈ b.solveMade poll s, l.atom ≤ b.maxAtom := by
  have hmem := (maxAtom_le_iff (b := b)).mp UInt32.le_rfl
  have hassumed : ∀ l ∈ assumedMade b.assumptions [], l.atom ≤ b.maxAtom := fun l hl =>
    hmem l (List.mem_append_right _ (assumedMade_subset _ _ hl))
  have hclauses : b.clauses.maxAtom ≤ b.maxAtom :=
    Formula.maxAtom_le_iff.mpr fun l hl => hmem l (List.mem_append_left _ hl)
  rw [solveMade, List.forall_mem_append]
  refine ⟨hassumed, ?_⟩
  split
  · exact nofun
  · exact fun l hl => UInt32.le_trans (atom_le_of_mem_searchMade _ l hl) hclauses

end Backtracking

end GovernedSat
