/-!
# Fixed-point text of rationals

A rational is written with a fixed number of decimal places, rounded to the nearest such decimal,
a half to the even neighbour.

## Main definitions

* `FixedPoint.round` — the nearest integer.
* `FixedPoint.text` — the text with a number of places.
-/

namespace GovernedSat.FixedPoint

/-- The nearest integer, a half to the even neighbour. -/
def round (q : Rat) : Int :=
  let n := q.floor
  let rest := q - n
  if rest < 1 / 2 then n
  else if 1 / 2 < rest then n + 1
  else if n % 2 = 0 then n
  else n + 1

/-- The absolute value of a number of units of the last place, with the point before the given
number of places. -/
def digits (places units : Nat) : String :=
  let fraction := toString (units % Nat.pow 10 places)
  toString (units / Nat.pow 10 places) ++ "." ++
    String.ofList (List.replicate (places - fraction.length) '0') ++ fraction

/-- The text of a rational with the given number of decimal places. -/
def text (places : Nat) (q : Rat) : String :=
  (if q < 0 then "-" else "") ++ digits places (round (q * 10 ^ places)).natAbs

end GovernedSat.FixedPoint
