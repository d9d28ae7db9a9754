import GovernedSat.Clause
import GovernedSat.Error

/-!
# Formulas

A formula is a list of clauses, read as their conjunction. Before any solver is made, a formula is
checked against the atoms of interest of the call by `Formula.validate`. The clauses are looked at
first and in order, then the atoms in order, and the first violation is reported:

* a clause which contains `0`, or else the least word;
* an atom which is `0` or too great, or else does not occur in the formula, or else repeats an
  earlier atom of the list.

## Main definitions

* `Formula.maxAtom` — the greatest atom of the formula.
* `Formula.validate` — the check against the atoms of interest.
-/

namespace GovernedSat

/-- A formula: the conjunction of its clauses, in the order given. -/
abbrev Formula := List Clause

namespace Formula

variable (f : Formula)

/-- The atoms of the formula, with repetitions. -/
def atoms : List Atom := f.flatMap Clause.atoms

/-- The greatest atom which occurs in the formula, and `0` when none occurs. -/
def maxAtom : Atom := f.atoms.foldl max 0

/-! ### The contract of a call -/

/-- The violation of the contract by the literals of a clause with the given index, if any. -/
def literalFault? (index : Nat) (c : Clause) : Option FormulaError :=
  if 0 ∈ c then some (.zeroLiteral index)
  else if Literal.least ∈ c then some (.literalOutOfRange index)
  else none

/-- The first violation by the literals of the clauses, the first clause having the index `n`. -/
def clauseFault? (n : Nat) : Formula → Option FormulaError
  | [] => none
  | c :: f => (literalFault? n c).or (clauseFault? (n + 1) f)

/-- The first violation by a list of atoms, given the atoms which were seen before it. -/
def atomFault? (f : Formula) (seen : List Atom) : List Atom → Option FormulaError
  | [] => none
  | a :: as =>
    if a = 0 ∨ Atom.greatest < a then some .zeroAtom
    else if a ∉ f.atoms then some (.unknownAtom a)
    else if a ∈ seen then some (.duplicateAtom a)
    else atomFault? f (a :: seen) as

/-- Checks the formula and the atoms of interest against the contract of a call, reporting the
first violation: the literals of the clauses first, then the atoms. -/
def validate (f : Formula) (atoms : List Atom) : Except FormulaError Unit :=
  match (clauseFault? 0 f).or (atomFault? f [] atoms) with
  | some e => .error e
  | none => .ok ()

/-! ### Basic facts -/

@[simp] theorem mem_atoms {f : Formula} {a : Atom} :
    a ∈ f.atoms ↔ ∃ c ∈ f, ∃ l ∈ c, Literal.atom l = a := by
  simp [atoms]

@[simp] theorem atoms_nil : atoms [] = [] := rfl

@[simp] theorem atoms_cons (c : Clause) (f : Formula) :
    atoms (c :: f) = c.atoms ++ atoms f := rfl

@[simp] theorem maxAtom_nil : maxAtom [] = 0 := rfl

end Formula

end GovernedSat
