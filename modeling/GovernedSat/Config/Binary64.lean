/-!
# The order of 64-bit binary floating-point words

A word of the 64-bit binary format is a sign bit, eleven bits of exponent and fifty-two bits of
fraction. The words with the greatest exponent and a fraction other than `0` are no numbers; of the
others, two words of one sign are ordered as their remaining bits, reversed for the negative sign,
and the two zeros are equal. Comparing leaves the words as they are, so that an option with such
values keeps every bit of a value.

## Main definitions

* `Binary64` — a word of the format.
* `Binary64.key?` — an integer with the order of the numbers, for the words which are numbers.
-/

namespace GovernedSat

/-- A word of the 64-bit binary floating-point format. -/
structure Binary64 where
  /-- Sign, exponent and fraction, from the highest bit down. -/
  bits : UInt64
  deriving DecidableEq, Repr

namespace Binary64

/-- The bits of the infinity: the greatest exponent, and the fraction `0`. -/
def infinity : Nat := 0x7ff0000000000000

/-- The bits without the sign. -/
def magnitude (x : Binary64) : Nat := x.bits.toNat % 0x8000000000000000

/-- Whether the sign bit is set. -/
def isNegative (x : Binary64) : Bool := 0x8000000000000000 ≤ x.bits.toNat

/-- The magnitude with the sign, in the order of the numbers; none for a word which is no
number. -/
def key? (x : Binary64) : Option Int :=
  if infinity < x.magnitude then none
  else some (if x.isNegative then -x.magnitude else x.magnitude)

/-- Two numbers are compared by their keys, and a word which is no number is below nothing and
above nothing. -/
def below (x y : Binary64) : Bool :=
  match x.key?, y.key? with
  | some i, some j => i < j
  | _, _ => false

instance : LT Binary64 := ⟨fun x y => x.below y = true⟩

instance : DecidableLT Binary64 := fun x y => inferInstanceAs (Decidable (x.below y = true))

theorem not_lt_of_key?_eq_none {x : Binary64} (h : x.key? = none) (y : Binary64) :
    ¬ x < y ∧ ¬ y < x := by
  constructor
  · change ¬ x.below y = true
    simp [below, h]
  · change ¬ y.below x = true
    cases hy : y.key? <;> simp [below, h, hy]

end Binary64

end GovernedSat
