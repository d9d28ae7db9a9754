import GovernedSat.Literal

/-!
# Clauses

A clause is a list of literals, read as their disjunction. Its DIMACS text is the literals in
decimal, separated by single spaces, and in the terminated form closed by a `0`.

## Main definitions

* `Clause.atoms` — the atoms of the literals, with repetitions.
* `Clause.negation?` — the opposite literals, in order.
* `Clause.dimacs` — the DIMACS text.
-/

namespace GovernedSat

/-- A clause: the disjunction of its literals, in the order given. -/
abbrev Clause := List Literal

namespace Clause

/-- The atom of each literal, in order. -/
def atoms (c : Clause) : List Atom := c.map Literal.atom

/-- The opposite of each literal, in order, if every one is in range. -/
def negation? (c : Clause) : Option Clause := c.mapM Literal.negate?

/-- The literals in decimal, separated by single spaces. In the terminated form a `0` follows the
last literal. -/
def dimacs (c : Clause) (terminated : Bool) : String :=
  " ".intercalate ((if terminated then c ++ [0] else c).map Literal.text)

/-- The literals in decimal between brackets, separated by commas. -/
def bracketed (c : Clause) : String :=
  "[" ++ ", ".intercalate (c.map Literal.text) ++ "]"

/-! ### Basic facts -/

@[simp] theorem atoms_nil : atoms [] = [] := rfl

@[simp] theorem atoms_cons (l : Literal) (c : Clause) : atoms (l :: c) = l.atom :: atoms c := rfl

@[simp] theorem mem_atoms {c : Clause} {a : Atom} : a ∈ atoms c ↔ ∃ l ∈ c, Literal.atom l = a := by
  simp [atoms]

@[simp] theorem negation?_nil : negation? [] = some [] := rfl

theorem negation?_cons (l : Literal) (c : Clause) :
    negation? (l :: c) =
      l.negate?.bind fun l' => (negation? c).bind fun c' => some (l' :: c') := by
  rw [negation?, List.mapM_cons]
  rfl

end Clause

end GovernedSat
