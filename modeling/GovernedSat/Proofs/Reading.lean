import GovernedSat.Convention
import GovernedSat.Proofs.Range

/-!
# Reading the answers of a solver

For each atom a solver answers a literal of that atom, or `0` when its model leaves the atom open.
An assignment agrees with the answers when every literal answered is true on it. Under either
convention the answers are read as an assignment, and as only the reading of open atoms depends on
the convention, this assignment agrees with them.

## Main definitions

* `Answers.IsProper` — an answer for every atom is a literal of the atom, or `0`.
* `Assignment.AgreesWith`, `ValueConvention.reading`.

## Main results

* `Answers.IsProper.agreesWith_reading` — what is read agrees with the answers.
-/

namespace GovernedSat

/-- What a solver answers for each atom. -/
abbrev Answers := Atom → Option Literal

/-- For every atom there is an answer, which is `0` or a literal of the atom. -/
def Answers.IsProper (answers : Answers) : Prop :=
  ∀ a, ∃ v, answers a = some v ∧ (v ≠ 0 → Literal.atom v = a)

/-- Every literal answered is true. -/
def Assignment.AgreesWith (σ : Assignment) (answers : Answers) : Prop :=
  ∀ a v, answers a = some v → v ≠ 0 → v.IsTrueOn σ

/-- The assignment which a convention reads in the answers. -/
def ValueConvention.reading (convention : ValueConvention) (answers : Answers) : Assignment :=
  fun a => (answers a).any convention.holds

/-- Both conventions read a literal as its polarity. -/
theorem ValueConvention.holds_eq_polarity (convention : ValueConvention) {v : Literal}
    (h : v ≠ 0) : convention.holds v = v.polarity := by
  cases convention with
  | strictlyTrue => rfl
  | dontCareAsTrue =>
    rw [holds, Literal.polarity, Bool.eq_iff_iff, decide_eq_true_eq, decide_eq_true_eq]
    exact ⟨fun hle => Int32.lt_of_le_of_ne hle h.symm, Int32.le_of_lt⟩

theorem Answers.IsProper.agreesWith_reading {answers : Answers} (h : answers.IsProper)
    (convention : ValueConvention) : (convention.reading answers).AgreesWith answers := by
  intro a v hv h₀
  obtain ⟨w, hw, hwa⟩ := h a
  obtain rfl : v = w := Option.some.inj (hv.symm.trans hw)
  rw [Literal.IsTrueOn, ValueConvention.reading, hwa h₀, hv, Option.any_some,
    convention.holds_eq_polarity h₀]

theorem Answers.IsProper.isSome {answers : Answers} (h : answers.IsProper) (a : Atom) :
    (answers a).isSome := by
  obtain ⟨v, hv, -⟩ := h a
  rw [hv]
  rfl

end GovernedSat
