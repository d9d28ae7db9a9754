/-!
# Reading UTF-8 with replacement

Bytes are read as UTF-8, and what is malformed is replaced: the longest start of a well-formed
sequence, or else the single byte, becomes one replacement character, and reading goes on with the
byte after it.

## Main definitions

* `Utf8.lead?` — the lead bytes, each with the ranges of the bytes which may follow.
* `Utf8.decode` — the characters of a list of bytes.
-/

namespace GovernedSat.Utf8

/-- The character which stands for malformed bytes. -/
def replacement : Char := '\uFFFD'

/-- The range of the bytes which continue a sequence without further restriction. -/
def continuation : UInt8 × UInt8 := (0x80, 0xBF)

/-- The bits of the character which a lead byte holds, and the range of each byte to follow.
The narrowed ranges exclude the sequences longer than need be, the surrogates, and what lies
beyond the last character. -/
def lead? (b : UInt8) : Option (Nat × List (UInt8 × UInt8)) :=
  if b < 0x80 then some (b.toNat, [])
  else if b < 0xC2 then none
  else if b < 0xE0 then some (b.toNat - 0xC0, [continuation])
  else if b = 0xE0 then some (0, [(0xA0, 0xBF), continuation])
  else if b = 0xED then some (0xD, [(0x80, 0x9F), continuation])
  else if b < 0xF0 then some (b.toNat - 0xE0, [continuation, continuation])
  else if b = 0xF0 then some (0, [(0x90, 0xBF), continuation, continuation])
  else if b < 0xF4 then some (b.toNat - 0xF0, [continuation, continuation, continuation])
  else if b = 0xF4 then some (4, [(0x80, 0x8F), continuation, continuation])
  else none

/-- Reads a byte of each range in turn, six bits of the character from each, and gives the number
of the character with the bytes left. There is none if some byte is missing or out of its range,
and the bytes left then start with that byte. -/
def follow : List (UInt8 × UInt8) → Nat → List UInt8 → Option Nat × List UInt8
  | [], n, rest => (some n, rest)
  | _ :: _, _, [] => (none, [])
  | range :: ranges, n, b :: rest =>
    if range.1 ≤ b ∧ b ≤ range.2 then follow ranges (n * 64 + (b.toNat - 0x80)) rest
    else (none, b :: rest)

theorem length_follow_le (ranges : List (UInt8 × UInt8)) (n : Nat) (bytes : List UInt8) :
    (follow ranges n bytes).2.length ≤ bytes.length := by
  fun_induction follow ranges n bytes with
  | case1 => exact Nat.le_refl _
  | case2 => exact Nat.le_refl _
  | case3 _ _ _ _ _ _ ih => exact Nat.le_succ_of_le ih
  | case4 => exact Nat.le_refl _

/-- The characters of a list of bytes. -/
def decode : List UInt8 → List Char
  | [] => []
  | b :: rest =>
    match lead? b with
    | none => replacement :: decode rest
    | some (n, ranges) =>
      ((follow ranges n rest).1.map Char.ofNat).getD replacement :: decode (follow ranges n rest).2
termination_by bytes => bytes.length
decreasing_by
  · exact Nat.lt_succ_self _
  · exact Nat.lt_succ_of_le (length_follow_le ..)

end GovernedSat.Utf8
