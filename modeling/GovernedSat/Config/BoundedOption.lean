import GovernedSat.Error

/-!
# Bounded options

An option of a configuration has a name, a value, and bounds for the values which may be set. The
bounds are themselves open to change, and a value may also be assigned without regard to them; so
nothing relates the bounds to each other or to the value, and only `BoundedOption.set` compares.

The comparison refuses a value which is below the minimum or above the maximum. On a type with
incomparable values, such as numbers with one that is no number, a value incomparable to both
bounds is accepted.

## Main definitions

* `BoundedOption` — the option.
* `BoundedOption.set` — a checked change of the value.
* `Adjustment`, `BoundedOption.adjust` — all changes of an option, as data.
-/

namespace GovernedSat

/-- A named option, with bounds for the values which may be set. -/
structure BoundedOption (α : Type) where
  /-- The name used in errors. -/
  name : String
  /-- The least value which may be set. -/
  min : α
  /-- The greatest value which may be set. -/
  max : α
  /-- The value of the option. -/
  value : α
  deriving Repr

namespace BoundedOption

variable {α : Type}

/-- Sets the value, unless it is below the minimum or above the maximum. -/
def set [LT α] [DecidableLT α] (o : BoundedOption α) (v : α) :
    Except ConfigError (BoundedOption α) :=
  if v < o.min ∨ o.max < v then .error (.outOfBounds o.name) else .ok { o with value := v }

theorem set_eq_ok_iff [LT α] [DecidableLT α] {o o' : BoundedOption α} {v : α} :
    o.set v = .ok o' ↔ (¬ v < o.min ∧ ¬ o.max < v) ∧ o' = { o with value := v } := by
  unfold set
  split
  · next h => simp; intro h₁ h₂; exact absurd h (by simp [h₁, h₂])
  · next h => simp at h; simp [h, eq_comm]

end BoundedOption

/-- A change of an option. -/
inductive Adjustment (α : Type) where
  /-- A checked change of the value. -/
  | set (v : α)
  /-- A change of the minimum. -/
  | setMin (v : α)
  /-- A change of the maximum. -/
  | setMax (v : α)
  /-- An unchecked change of the value. -/
  | assign (v : α)
  deriving Repr

/-- Makes a change of an option. Only a checked change of the value may be refused. -/
def BoundedOption.adjust {α : Type} [LT α] [DecidableLT α] (o : BoundedOption α) :
    Adjustment α → Except ConfigError (BoundedOption α)
  | .set v => o.set v
  | .setMin v => .ok { o with min := v }
  | .setMax v => .ok { o with max := v }
  | .assign v => .ok { o with value := v }

end GovernedSat
