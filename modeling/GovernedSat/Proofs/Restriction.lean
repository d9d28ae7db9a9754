import GovernedSat.Proofs.Range
import Mathlib.Data.List.Sublists
import Mathlib.Data.Set.Card

/-!
# Restrictions of assignments

The restriction of an assignment to a list of atoms in range has a literal for each atom, and the
assignments which make all of them true are those which agree with it on the atoms. The negation of
a restriction, as a further clause, therefore excludes exactly these. As far as a list of atoms is
concerned, a formula has only finitely many models, and the number falls with each one excluded.

## Main definitions

* `Assignment.restrict` — the restriction, for atoms in range.
* `Formula.modelCount` — the number of models, as seen on a list of atoms.

## Main results

* `Assignment.isTrueOn_neg_restrict` — what the negation of a restriction excludes.
* `Formula.isTrueOn_block_iff` — the models left when a restriction is blocked.
* `Formula.modelCount_le`, `Formula.modelCount_lt` — the number is bounded, and falls.
-/

namespace GovernedSat

variable {f g : Formula} {atoms : List Atom} {σ τ : Assignment}

/-! ### Restrictions -/

namespace Assignment

/-- The literals of the atoms which are true on the assignment. -/
def restrict (σ : Assignment) (atoms : List Atom) : Clause :=
  atoms.map fun a => Literal.signed a (σ a)

theorem restrict?_eq_some (h : ∀ a ∈ atoms, a.InRange) :
    σ.restrict? atoms = some (σ.restrict atoms) :=
  mapM_eq_some_map fun a ha => (h a ha).ofAtom?_eq_some

theorem inRange_restrict (h : ∀ a ∈ atoms, a.InRange) : Clause.InRange (σ.restrict atoms) := by
  intro l hl
  obtain ⟨a, ha, rfl⟩ := List.mem_map.mp hl
  exact (h a ha).inRange_signed

theorem forall_isTrueOn_restrict (h : ∀ a ∈ atoms, a.InRange) :
    (∀ l ∈ σ.restrict atoms, l.IsTrueOn τ) ↔ ∀ a ∈ atoms, τ a = σ a := by
  rw [restrict, List.forall_mem_map]
  exact forall₂_congr fun a ha => (h a ha).isTrueOn_signed

theorem restrict_eq_iff (h : ∀ a ∈ atoms, a.InRange) :
    τ.restrict atoms = σ.restrict atoms ↔ ∀ a ∈ atoms, τ a = σ a := by
  constructor
  · intro he
    rw [← forall_isTrueOn_restrict h, ← he, forall_isTrueOn_restrict h]
    exact fun a _ => rfl
  · intro he
    exact List.map_congr_left fun a ha => by rw [he a ha]

theorem map_atom_restrict (h : ∀ a ∈ atoms, a.InRange) :
    (σ.restrict atoms).map Literal.atom = atoms := by
  rw [restrict, List.map_map]
  exact (List.map_congr_left fun a ha => (h a ha).atom_signed).trans (List.map_id _)

/-- The negation of a restriction excludes the assignments which agree on the atoms. -/
theorem isTrueOn_neg_restrict (h : ∀ a ∈ atoms, a.InRange) :
    Clause.IsTrueOn ((σ.restrict atoms).map (-·)) τ ↔ ¬ ∀ a ∈ atoms, τ a = σ a := by
  rw [Clause.isTrueOn_map_neg (inRange_restrict h), forall_isTrueOn_restrict h]

end Assignment

/-! ### Counting models -/

namespace Formula

/-- The sets of atoms in the list which are true on some model. -/
def patterns (f : Formula) (atoms : List Atom) : Set (List Atom) :=
  {ts | ∃ σ : Assignment, f.IsTrueOn σ ∧ atoms.filter σ = ts}

/-- The number of models of the formula which differ on the atoms. -/
noncomputable def modelCount (f : Formula) (atoms : List Atom) : Nat := (f.patterns atoms).ncard

theorem patterns_subset : f.patterns atoms ⊆ (atoms.sublists.toFinset : Set (List Atom)) := by
  rintro _ ⟨σ, -, rfl⟩
  simp

theorem modelCount_le (f : Formula) (atoms : List Atom) : f.modelCount atoms ≤ 2 ^ atoms.length :=
  calc (f.patterns atoms).ncard
    _ ≤ (atoms.sublists.toFinset : Set (List Atom)).ncard :=
        Set.ncard_le_ncard patterns_subset (Finset.finite_toSet _)
    _ = atoms.sublists.toFinset.card := Set.ncard_coe_finset _
    _ ≤ atoms.sublists.length := List.toFinset_card_le _
    _ = 2 ^ atoms.length := List.length_sublists atoms

/-- Excluding a model, together with those which agree with it on the atoms, leaves fewer. -/
theorem modelCount_lt (hg : ∀ τ, g.IsTrueOn τ → f.IsTrueOn τ) (hσ : f.IsTrueOn σ)
    (hno : ∀ τ, g.IsTrueOn τ → ¬ ∀ a ∈ atoms, τ a = σ a) :
    g.modelCount atoms < f.modelCount atoms := by
  refine Set.ncard_lt_ncard ?_ ((Finset.finite_toSet _).subset patterns_subset)
  rw [Set.ssubset_iff_of_subset]
  · refine ⟨atoms.filter σ, ⟨σ, hσ, rfl⟩, ?_⟩
    rintro ⟨τ, hτ, he⟩
    refine hno τ hτ fun a ha => ?_
    have hmem : a ∈ atoms.filter τ ↔ a ∈ atoms.filter σ := by rw [he]
    rwa [List.mem_filter, List.mem_filter, and_iff_right ha, and_iff_right ha,
      ← Bool.eq_iff_iff] at hmem
  · rintro _ ⟨τ, hτ, rfl⟩
    exact ⟨τ, hg τ hτ, rfl⟩

/-- Blocking a restriction excludes the models which agree on the atoms. -/
theorem isTrueOn_block_iff (h : ∀ a ∈ atoms, a.InRange) :
    IsTrueOn (f ++ [(σ.restrict atoms).map (-·)]) τ ↔
      f.IsTrueOn τ ∧ ¬ ∀ a ∈ atoms, τ a = σ a := by
  rw [isTrueOn_append, isTrueOn_cons, Assignment.isTrueOn_neg_restrict h,
    and_iff_left isTrueOn_nil]

/-- Blocking the restriction of a model to some of the atoms leaves fewer. -/
theorem modelCount_block_lt {T : List Atom} (hT : T ⊆ atoms) (h : ∀ a ∈ T, a.InRange)
    (hσ : f.IsTrueOn σ) :
    modelCount (f ++ [(σ.restrict T).map (-·)]) atoms < f.modelCount atoms := by
  refine modelCount_lt (fun τ hτ => ((isTrueOn_block_iff h).mp hτ).1) hσ fun τ hτ he => ?_
  exact ((isTrueOn_block_iff h).mp hτ).2 fun a ha => he a (hT ha)

end Formula

end GovernedSat
