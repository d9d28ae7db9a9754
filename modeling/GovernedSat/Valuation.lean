import GovernedSat.Literal

/-!
# Valuations

A valuation is a partial function from atoms to truth values. An atom may be absent from a
valuation, and an atom which is present may still have no value. Two representations are given: a
`DenseValuation` is a list indexed by the atoms, and a `SparseValuation` stores only the atoms with
a value.

## Main definitions

* `Valuation` — the class of representations, by the look-up `Valuation.value?`.
* `Valuation.satisfies` — whether a literal is true on a valuation.
* `DenseValuation`, `SparseValuation` — the two representations.

## Main results

* `SparseValuation.value?_insert` — a later value of an atom replaces an earlier one.
-/

namespace GovernedSat

/-- A representation of valuations. The look-up is `none` for an absent atom, and `some none` for
an atom which is present without a value. -/
class Valuation (V : Type) where
  /-- What the valuation says of an atom. -/
  value? : V → Atom → Option (Option Bool)

/-- A literal is satisfied when its atom has the polarity of the literal as its value. -/
def Valuation.satisfies {V : Type} [Valuation V] (v : V) (l : Literal) : Bool :=
  value? v l.atom == some (some l.polarity)

/-! ### Dense valuations -/

/-- A valuation as a list of values, indexed by the atoms. -/
abbrev DenseValuation := List (Option Bool)

instance : Valuation DenseValuation where
  value? v a := v[a.toNat]?

/-! ### Sparse valuations -/

/-- A valuation as a list of the atoms with a value, each atom at most once. -/
structure SparseValuation where
  /-- The atoms with a value, the latest first. -/
  entries : List (Atom × Bool) := []
  deriving DecidableEq, Repr

namespace SparseValuation

instance : Valuation SparseValuation where
  value? v a := (v.entries.lookup a).map some

/-- Gives a value to an atom, in place of any earlier value. -/
def insert (v : SparseValuation) (a : Atom) (b : Bool) : SparseValuation :=
  ⟨(a, b) :: v.entries.filter (·.1 != a)⟩

/-- The valuation of a list of pairs, of which a later one replaces an earlier one. -/
def ofList (pairs : List (Atom × Bool)) : SparseValuation :=
  pairs.foldl (fun v p => v.insert p.1 p.2) {}

/-- Whether no atom has a value. -/
def isEmpty (v : SparseValuation) : Bool := v.entries.isEmpty

theorem lookup_filter_ne (entries : List (Atom × Bool)) {a a' : Atom} (h : a' ≠ a) :
    (entries.filter (·.1 != a)).lookup a' = entries.lookup a' := by
  induction entries with
  | nil => rfl
  | cons p entries ih =>
    obtain ⟨x, b⟩ := p
    by_cases hx : x = a
    · subst hx
      have : (a' == x) = false := by simpa using h
      simp [List.lookup_cons, this, ih]
    · simp [List.lookup_cons, hx, ih]

theorem value?_insert (v : SparseValuation) (a a' : Atom) (b : Bool) :
    Valuation.value? (v.insert a b) a' =
      if a' = a then some (some b) else Valuation.value? v a' := by
  by_cases h : a' = a
  · subst h
    simp [Valuation.value?, insert]
  · have : (a' == a) = false := by simpa using h
    simp [Valuation.value?, insert, List.lookup_cons, this, h, lookup_filter_ne _ h]

end SparseValuation

end GovernedSat
