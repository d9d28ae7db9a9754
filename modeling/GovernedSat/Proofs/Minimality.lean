import GovernedSat.Backtracking.Trail
import GovernedSat.Proofs.Range
import Mathlib.Data.Set.Basic
import Mathlib.Order.Minimal

/-!
# Minimal models

Models are compared by the inputs which are true on them: one is below another when every input true
on the first is true on the second. A model is minimal when every model below it has the same inputs
true. The clause which forbids that all inputs true on a model are true again excludes exactly the
assignments above it, and the minimal models other than those with these inputs stay minimal.

## Main definitions

* `Assignment.Below` — the comparison by true inputs.
* `Formula.IsMinimalOn` — the minimal models.
* `Assignment.minimBlock`, `Assignment.factLiterals` — what forbids the true inputs, and what keeps
  the other inputs false.
* `Assignment.trueInputs` — the true inputs, as a set of positive literals.

## Main results

* `Formula.isMinimalOn_of_block` — the minimal models which stay when one is blocked.
* `minimal_trueInputs_iff` — the minimal sets of true inputs are those of the minimal models.
-/

namespace GovernedSat

open Literal

variable {f g : Formula} {inputs : List Atom} {σ τ υ : Assignment}

namespace Assignment

/-! ### The order by true inputs -/

/-- Every input true on the first assignment is true on the second. -/
def Below (inputs : List Atom) (τ σ : Assignment) : Prop :=
  ∀ a ∈ inputs, τ a = true → σ a = true

theorem below_refl (inputs : List Atom) (σ : Assignment) : Below inputs σ σ := fun _ _ h => h

theorem Below.trans (h : Below inputs υ τ) (h' : Below inputs τ σ) : Below inputs υ σ :=
  fun a ha hυ => h' a ha (h a ha hυ)

/-- Strictly below there are fewer true inputs. -/
theorem Below.length_filter_lt (h : Below inputs τ σ) (hn : ¬ Below inputs σ τ) :
    (inputs.filter τ).length < (inputs.filter σ).length := by
  unfold Below at hn
  push Not at hn
  obtain ⟨a, ha, hσ, hτ⟩ := hn
  rw [← List.countP_eq_length_filter, ← List.countP_eq_length_filter]
  exact Trail.countP_lt_countP h ha hσ (eq_false_of_ne_true hτ)

/-! ### Blocking the true inputs -/

/-- The negative literals of the inputs which are true. -/
def minimBlock (σ : Assignment) (inputs : List Atom) : Clause :=
  (inputs.filter σ).map fun a => signed a false

/-- The negative literals of the inputs which are false. -/
def factLiterals (σ : Assignment) (inputs : List Atom) : Clause :=
  (inputs.filter fun a => !σ a).map fun a => signed a false

section Blocking

variable (h : ∀ a ∈ inputs, a.InRange)

include h

theorem inRange_minimBlock : Clause.InRange (σ.minimBlock inputs) := by
  intro l hl
  obtain ⟨a, ha, rfl⟩ := List.mem_map.mp hl
  exact (h a (List.mem_filter.mp ha).1).inRange_signed

theorem inRange_factLiterals : Clause.InRange (σ.factLiterals inputs) := by
  intro l hl
  obtain ⟨a, ha, rfl⟩ := List.mem_map.mp hl
  exact (h a (List.mem_filter.mp ha).1).inRange_signed

/-- Blocking excludes the assignments above. -/
theorem isTrueOn_minimBlock : Clause.IsTrueOn (σ.minimBlock inputs) τ ↔ ¬ Below inputs σ τ := by
  unfold Below
  push Not
  constructor
  · rintro ⟨l, hl, ht⟩
    obtain ⟨a, ha, rfl⟩ := List.mem_map.mp hl
    obtain ⟨ha, hσ⟩ := List.mem_filter.mp ha
    exact ⟨a, ha, hσ, ne_true_of_eq_false ((h a ha).isTrueOn_signed.mp ht)⟩
  · rintro ⟨a, ha, hσ, hτ⟩
    exact ⟨_, List.mem_map_of_mem (List.mem_filter.mpr ⟨ha, hσ⟩),
      (h a ha).isTrueOn_signed.mpr (eq_false_of_ne_true hτ)⟩

/-- The facts are kept on the assignments below. -/
theorem forall_isTrueOn_factLiterals :
    (∀ l ∈ σ.factLiterals inputs, l.IsTrueOn τ) ↔ Below inputs τ σ := by
  rw [factLiterals, List.forall_mem_map]
  constructor
  · intro ht a ha hτ
    by_contra hσ
    have hf := ht a (List.mem_filter.mpr ⟨ha, by simp [eq_false_of_ne_true hσ]⟩)
    rw [(h a ha).isTrueOn_signed, hτ] at hf
    cases hf
  · intro hb a ha
    obtain ⟨ha, hσ⟩ := List.mem_filter.mp ha
    rw [(h a ha).isTrueOn_signed]
    exact eq_false_of_ne_true fun hτ => by simp [hb a ha hτ] at hσ

end Blocking

end Assignment

open Assignment

/-! ### Minimal models -/

/-- A model such that every model below it has the same inputs true. -/
def Formula.IsMinimalOn (f : Formula) (inputs : List Atom) (τ : Assignment) : Prop :=
  f.IsTrueOn τ ∧ ∀ υ, f.IsTrueOn υ → Below inputs υ τ → Below inputs τ υ

/-- When the assignments above a given one are excluded, the other minimal models stay minimal, and
no further ones become minimal. -/
theorem Formula.isMinimalOn_of_block
    (hg : ∀ υ, g.IsTrueOn υ ↔ f.IsTrueOn υ ∧ ¬ Below inputs τ υ) :
    g.IsMinimalOn inputs υ ↔ f.IsMinimalOn inputs υ ∧ ¬ Below inputs τ υ := by
  constructor
  · rintro ⟨hυ, hmin⟩
    obtain ⟨hυ, hn⟩ := (hg υ).mp hυ
    refine ⟨⟨hυ, fun ω hω hb => hmin ω ((hg ω).mpr ⟨hω, fun h => hn (h.trans hb)⟩) hb⟩, hn⟩
  · rintro ⟨⟨hυ, hmin⟩, hn⟩
    exact ⟨(hg υ).mpr ⟨hυ, hn⟩, fun ω hω => hmin ω ((hg ω).mp hω).1⟩

/-! ### Sets of true inputs -/

/-- The inputs which are true, as a set of positive literals. -/
def Assignment.trueInputs (σ : Assignment) (inputs : List Atom) : Set Literal :=
  {l | ∃ a ∈ inputs, σ a = true ∧ l = positive a}

section TrueInputs

variable (h : ∀ a ∈ inputs, a.InRange)

theorem Assignment.setOf_mem_positive (σ : Assignment) (inputs : List Atom) :
    {l | l ∈ (inputs.filter σ).map positive} = σ.trueInputs inputs := by
  ext l
  constructor
  · intro hl
    obtain ⟨a, ha, rfl⟩ := List.mem_map.mp hl
    obtain ⟨ha, hσ⟩ := List.mem_filter.mp ha
    exact ⟨a, ha, hσ, rfl⟩
  · rintro ⟨a, ha, hσ, rfl⟩
    exact List.mem_map_of_mem (List.mem_filter.mpr ⟨ha, hσ⟩)

include h

theorem Assignment.trueInputs_subset_iff :
    τ.trueInputs inputs ⊆ σ.trueInputs inputs ↔ Below inputs τ σ := by
  constructor
  · intro hs a ha hτ
    obtain ⟨b, hb, hσ, he⟩ := hs ⟨a, ha, hτ, rfl⟩
    rwa [← (h a ha).atom_positive, he, (h b hb).atom_positive]
  · rintro hb _ ⟨a, ha, hτ, rfl⟩
    exact ⟨a, ha, hb a ha hτ, rfl⟩

/-- The minimal sets of true inputs are those of the minimal models. -/
theorem minimal_trueInputs_iff {S : Set Literal} :
    Minimal (fun S => ∃ σ : Assignment, f.IsTrueOn σ ∧ S = σ.trueInputs inputs) S ↔
      ∃ τ, f.IsMinimalOn inputs τ ∧ S = τ.trueInputs inputs := by
  constructor
  · rintro ⟨⟨τ, hτ, rfl⟩, hmin⟩
    refine ⟨τ, ⟨hτ, fun υ hυ hb => ?_⟩, rfl⟩
    exact (trueInputs_subset_iff h).mp (hmin ⟨υ, hυ, rfl⟩ ((trueInputs_subset_iff h).mpr hb))
  · rintro ⟨τ, ⟨hτ, hmin⟩, rfl⟩
    refine ⟨⟨τ, hτ, rfl⟩, ?_⟩
    rintro _ ⟨υ, hυ, rfl⟩ hs
    exact (trueInputs_subset_iff h).mpr (hmin υ hυ ((trueInputs_subset_iff h).mp hs))

end TrueInputs

end GovernedSat
