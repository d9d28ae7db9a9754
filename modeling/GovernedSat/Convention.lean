import GovernedSat.Literal

/-!
# Value conventions

A solver answers for an atom the literal which is true on its model, or `0` when the model leaves
the atom open. A *value convention* decides how an open atom is read.

## Main definitions

* `ValueConvention` — open atoms count as true, or only strictly true atoms do.
* `ValueConvention.holds` — the reading of a solver's answer.
-/

namespace GovernedSat

/-- The reading of an atom which a model leaves open. -/
inductive ValueConvention where
  /-- An open atom counts as true. -/
  | dontCareAsTrue
  /-- Only an atom whose positive literal is true counts as true. -/
  | strictlyTrue
  deriving DecidableEq, Repr

namespace ValueConvention

/-- The name of a convention. -/
def name : ValueConvention → String
  | dontCareAsTrue => "DontCareAsTrue"
  | strictlyTrue => "StrictlyTrue"

/-- The convention with the given name, if any. -/
def ofName? (s : String) : Option ValueConvention :=
  if s = name dontCareAsTrue then some dontCareAsTrue
  else if s = name strictlyTrue then some strictlyTrue
  else none

/-- Whether an atom for which a solver answers `v` counts as true. -/
def holds : ValueConvention → Literal → Bool
  | dontCareAsTrue, v => 0 ≤ v
  | strictlyTrue, v => 0 < v

/-! ### Order -/

/-- The place of a convention in the order, the laxer one first. -/
def rank : ValueConvention → Nat
  | dontCareAsTrue => 0
  | strictlyTrue => 1

instance : LT ValueConvention := ⟨fun c d => c.rank < d.rank⟩

instance : DecidableLT ValueConvention := fun c d => inferInstanceAs (Decidable (c.rank < d.rank))

/-- The least convention. -/
def least : ValueConvention := dontCareAsTrue

/-- The greatest convention. -/
def greatest : ValueConvention := strictlyTrue

/-! ### Basic facts -/

theorem ofName?_name (c : ValueConvention) : ofName? c.name = some c := by
  cases c <;> decide

theorem holds_zero (c : ValueConvention) : c.holds 0 = true ↔ c = dontCareAsTrue := by
  cases c <;> decide

end ValueConvention

end GovernedSat
