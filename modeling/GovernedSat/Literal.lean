/-!
# Atoms and literals

An *atom* is a 32-bit unsigned word, and a *literal* a 32-bit signed word: the absolute value of
a literal is its atom, and its sign is its polarity. The word `0` closes a clause and is no
literal of a formula, and the least signed word has no opposite, so the atoms of interest are
those from `1` to `Atom.greatest`. The operations below are nevertheless defined on all words: the
two which may leave the range, `Literal.negate?` and `Literal.ofAtom?`, have no result where they
do.

## Main definitions

* `Literal.atom`, `Literal.polarity` — the two parts of a literal.
* `Literal.ofAtom?` — a literal from its two parts.
* `Literal.negate?` — the literal with the same atom and the other polarity.

## Main results

* `Literal.toNat_atom` — the atom is the absolute value.
* `Literal.negate?_eq_none_iff` — only the least word has no negation.
* `Literal.positive_atom` — a literal is the positive literal of its atom, or the opposite of it.
-/

namespace GovernedSat

/-- An atom: a propositional variable, named by a word. -/
abbrev Atom := UInt32

/-- A literal: an atom together with a polarity, as one signed word. -/
abbrev Literal := Int32

/-- The greatest atom: the greatest word which is the atom of a positive literal. -/
def Atom.greatest : Atom := 2147483647

namespace Literal

/-- The least signed word, the only one whose opposite is out of range. -/
def least : Literal := Int32.minValue

/-- The atom of a literal is its absolute value. -/
def atom (l : Literal) : Atom := UInt32.ofNat l.toInt.natAbs

/-- The polarity of a literal: `true` exactly when the literal is positive. -/
def polarity (l : Literal) : Bool := 0 < l

/-- The opposite literal, if it is in range. -/
def negate? (l : Literal) : Option Literal :=
  if l = least then none else some (-l)

/-- The word of an atom read as a signed word. For the atoms up to `Atom.greatest` this is the
positive literal of the atom. -/
def positive (a : Atom) : Literal := a.toInt32

/-- The literal of an atom and a polarity, if it is in range. -/
def ofAtom? (a : Atom) (polarity : Bool) : Option Literal :=
  if polarity then some (positive a) else negate? (positive a)

/-- The decimal text of a literal. -/
def text (l : Literal) : String := toString l.toInt

/-! ### The parts of a literal -/

theorem natAbs_toInt_le (l : Literal) : l.toInt.natAbs ≤ 0x80000000 := by
  have h₁ := Int32.le_toInt l
  have h₂ := Int32.toInt_lt l
  omega

theorem toNat_atom (l : Literal) : (atom l).toNat = l.toInt.natAbs := by
  have h := natAbs_toInt_le l
  rw [atom, UInt32.toNat_ofNat', Nat.mod_eq_of_lt (by omega)]

theorem polarity_eq_true_iff {l : Literal} : polarity l = true ↔ 0 < l.toInt := by
  simp [polarity, Int32.lt_iff_toInt_lt]

theorem negate?_eq_none_iff {l : Literal} : negate? l = none ↔ l = least := by
  simp [negate?]

theorem negate?_eq_some {l m : Literal} (h : negate? l = some m) : m = -l := by
  unfold negate? at h
  split at h
  · cases h
  · exact (Option.some.inj h).symm

theorem toInt_positive (a : Atom) : (positive a).toInt = (a.toNat : Int).bmod 0x100000000 := by
  rw [positive, ← Int32.toInt_toBitVec]
  exact BitVec.toInt_eq_toNat_bmod _

/-- The positive literal of the atom of a literal is that literal or its opposite. -/
theorem positive_atom (l : Literal) : positive (atom l) = l ∨ positive (atom l) = -l := by
  have h₁ := Int32.le_toInt l
  have h₂ := Int32.toInt_lt l
  have h : (positive (atom l)).toInt = (l.toInt.natAbs : Int).bmod 0x100000000 := by
    rw [toInt_positive, toNat_atom]
  rw [← Int32.toInt_inj, ← Int32.toInt_inj, Int32.toInt_neg, h]
  simp only [Int.bmod_def]
  omega

@[simp] theorem ofAtom?_true (a : Atom) : ofAtom? a true = some (positive a) := rfl

@[simp] theorem ofAtom?_false (a : Atom) : ofAtom? a false = negate? (positive a) := rfl

end Literal

end GovernedSat
