import GovernedSat.Backtracking.Search
import GovernedSat.Solver.Basic

/-!
# The backtracking solver

The backtracking solver keeps its clauses and assumptions, and solves by a search which starts from
the assumptions made true in turn. It comes in two kinds: one whose models value every atom up to
the greatest of the solve, open atoms being read as true, and one whose models leave open what the
search did.

## Main definitions

* `Coverage`, `Backtracking` — the two kinds, and the solver.
* `Backtracking.solve`, `Backtracking.value?`.
-/

namespace GovernedSat

/-- How far the models of a solver reach. -/
inductive Coverage where
  /-- Every atom up to the greatest one has a value. -/
  | full
  /-- Only the atoms which the search made true or false have a value. -/
  | needed
  deriving DecidableEq, Repr

/-- The model found by a solve. -/
structure FoundModel where
  /-- The literals made true. -/
  trail : Trail := []
  /-- The greatest atom which counts as true when it is open, or `0`. -/
  filled : Atom := 0
  deriving DecidableEq, Repr

/-- The literal of an atom which is true on a model, and `0` when there is none. It may be out of
range only for an atom beyond the greatest one. -/
def FoundModel.value? (m : FoundModel) (a : Atom) : Option Literal :=
  match m.trail.find? fun l => l.atom = a with
  | some l => Literal.ofAtom? a l.polarity
  | none => if 0 < a ∧ a ≤ m.filled then Literal.ofAtom? a true else some 0

/-- A backtracking solver. -/
structure Backtracking (k : Coverage) where
  /-- The clauses, in the order in which they were closed. -/
  clauses : Formula := []
  /-- The literals assumed for the next solve, in order. -/
  assumptions : List Literal := []
  /-- The model which the last satisfiable solve found. -/
  model : FoundModel := {}
  /-- The number of steps of all searches. -/
  steps : Nat := 0
  deriving Repr

namespace Backtracking

variable {k : Coverage} {σ : Type}

/-- Makes the literals true in turn, unless one is false by then. -/
def assumeAll : List Literal → Trail → Option Trail
  | [], t => some t
  | l :: ls, t => if t.isFalse l then none else assumeAll ls (l :: t)

/-- The greatest atom of the clauses and the assumptions. -/
def maxAtom (b : Backtracking k) : Atom :=
  max b.clauses.maxAtom (Formula.maxAtom [b.assumptions])

/-- The greatest atom which a model counts as true when it is open. -/
def filled (b : Backtracking k) : Atom :=
  match k with
  | .full => b.maxAtom
  | .needed => 0

/-- Solves the clauses under the assumptions, which are then forgotten. A model found replaces the
one before, which otherwise stays. -/
def solve (b : Backtracking k) (poll : Option (StateM σ Bool)) :
    StateM σ (Option Report × Backtracking k) := fun state =>
  let b' := { b with assumptions := [] }
  match assumeAll b.assumptions [] with
  | none => ((some .unsatisfiable, b'), state)
  | some t =>
    let (verdict, effort) := search b.clauses poll t { steps := b.steps, state }
    let b' := { b' with steps := effort.steps }
    match verdict with
    | .model t' =>
      ((some .satisfiable, { b' with model := { trail := t', filled := b.filled } }), effort.state)
    | .refuted => ((some .unsatisfiable, b'), effort.state)
    | .stopped => ((some .interrupted, b'), effort.state)
    | .overflow => ((none, b'), effort.state)

/-- Each satisfiable solve excludes a valuation of the atoms of interest for good, or else drops one
of them from the set which is being shrunk. -/
instance : Engine (Backtracking k) where
  signature? := none
  create := return .ok {}
  insert b c := { b with clauses := b.clauses ++ [c] }
  assume b l := { b with assumptions := b.assumptions ++ [l] }
  solve b callback := b.solve callback
  value? b a := b.model.value? a
  allowance _ atoms := Nat.pow 2 atoms * (atoms + 3) + 2

end Backtracking

end GovernedSat
