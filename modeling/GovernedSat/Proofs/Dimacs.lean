import GovernedSat.Proofs.Backtracking.Contract
import Mathlib.Data.List.Basic
import Mathlib.Data.Set.Basic
import Mathlib.Tactic.ByContra
import Mathlib.Tactic.SplitIfs

/-!
# DIMACS texts are uniquely readable

The decimal text of a literal has a sign and digits only, which give the literal back. As it is not
empty and has no space in it, the texts of literals can be told apart where they are separated by
single spaces, and the number of literals can be told as well. The terminated texts of the clauses
of a formula, one after another, are the text of all of its literals with a `0` after those of each
clause, and where no clause contains `0` itself these tell where the clauses end.

## Main definitions

* `Formula.dimacs` — the terminated texts of the clauses, in order.

## Main results

* `Literal.text_injective` — the texts of literals.
* `Literal.spacedText_injective` — literals separated by spaces can be told apart.
* `Formula.dimacs_eq` — the text of a formula as a text of literals.
* `Formula.dimacs_uniquely_readable` — the texts of clauses, and of formulas.
-/

namespace GovernedSat

/-! ### Literals -/

namespace Literal

/-- The digits of a number give it back. -/
theorem repr_injective : Function.Injective Nat.repr := by
  intro m n h
  have hdigits := congrArg (fun s => Nat.ofDigitChars 10 s.toList 0) h
  simpa only [Nat.toList_repr, Nat.ofDigitChars_ten_toDigits] using hdigits

/-- Only digits are in the text of a number. -/
theorem notMem_repr {c : Char} (hc : c.isDigit = false) (n : Nat) : c ∉ n.repr.toList := by
  rw [Nat.toList_repr]
  intro h
  cases hc.symm.trans (Nat.isDigit_of_mem_toDigits (by decide) (by decide) h)

/-- The text of a literal has the digits of its atom, after the sign if it is negative. -/
theorem toList_text (l : Literal) : (text l).toList =
    if 0 ≤ l.toInt then l.toInt.natAbs.repr.toList else '-' :: l.toInt.natAbs.repr.toList := by
  rw [text, Int.toString_eq_repr, Int.repr_eq_if]
  split_ifs with h
  · rw [show l.toInt.toNat = l.toInt.natAbs by omega]
  · rw [String.toList_append, show (-l.toInt).toNat = l.toInt.natAbs by omega]
    rfl

theorem text_injective : Function.Injective text := by
  intro l m h
  have hlists := congrArg String.toList h
  rw [toList_text, toList_text] at hlists
  split_ifs at hlists with hl hm hm
  · have habs := repr_injective (String.toList_inj.mp hlists)
    exact Int32.toInt_inj.mp (by omega)
  · exact absurd (hlists ▸ List.mem_cons_self) (notMem_repr (c := '-') rfl _)
  · exact absurd (hlists ▸ List.mem_cons_self) (notMem_repr (c := '-') rfl _)
  · have habs := repr_injective (String.toList_inj.mp (List.tail_eq_of_cons_eq hlists))
    exact Int32.toInt_inj.mp (by omega)

theorem space_notMem_text (l : Literal) : ' ' ∉ (text l).toList := by
  rw [toList_text]
  split_ifs
  · exact notMem_repr rfl _
  · rw [List.mem_cons, not_or]
    exact ⟨by decide, notMem_repr rfl _⟩

theorem text_ne_empty (l : Literal) : text l ≠ "" := by
  rw [text, Int.toString_eq_repr, Int.repr_eq_if]
  split_ifs with h
  · exact Nat.repr_ne_empty
  · exact fun he => Nat.repr_ne_empty (String.append_eq_empty_iff.mp he).2

/-- The texts of literals, separated by single spaces. -/
def spacedText (ls : List Literal) : String := " ".intercalate (ls.map text)

theorem spacedText_ne_empty {ls : List Literal} (h : ls ≠ []) : spacedText ls ≠ "" := by
  obtain ⟨l, ls, rfl⟩ := List.exists_cons_of_ne_nil h
  intro he
  cases ls with
  | nil => exact text_ne_empty l (String.intercalate_singleton.symm.trans he)
  | cons m ls =>
    rw [spacedText, List.map_cons, List.map_cons, String.intercalate_cons_cons] at he
    exact text_ne_empty l (String.append_eq_empty_iff.mp (String.append_eq_empty_iff.mp he).1).1

theorem spacedText_append {ls ms : List Literal} (hl : ls ≠ []) (hm : ms ≠ []) :
    spacedText (ls ++ ms) = spacedText ls ++ " " ++ spacedText ms := by
  rw [spacedText, List.map_append, String.intercalate_append_of_ne_nil (by simpa using hl)
    (by simpa using hm)]
  rfl

/-- The text is split at the spaces, which only stand between literals. -/
theorem splitOn_spacedText {ls : List Literal} (h : ls ≠ []) :
    (spacedText ls).toList.splitOn ' ' = ls.map fun l => (text l).toList := by
  rw [spacedText, String.toList_intercalate, List.map_map]
  refine List.splitOn_intercalate ' ' ?_ (by simpa using h)
  exact List.forall_mem_map.mpr fun l _ => space_notMem_text l

/-- **Literals separated by single spaces can be told apart.** -/
theorem spacedText_injective : Function.Injective spacedText := by
  intro ls ms h
  by_cases hl : ls = []
  · subst hl
    by_contra hm
    exact spacedText_ne_empty (Ne.symm hm) h.symm
  · by_cases hm : ms = []
    · subst hm
      exact absurd h (spacedText_ne_empty hl)
    · have hsplit := splitOn_spacedText hl
      rw [h, splitOn_spacedText hm] at hsplit
      have hinj : Function.Injective fun l => (text l).toList :=
        fun _ _ he => text_injective (String.toList_inj.mp he)
      exact (List.map_injective_iff.mpr hinj hsplit).symm

end Literal

/-! ### Clauses and formulas -/

theorem Clause.dimacs_true (c : Clause) : c.dimacs true = Literal.spacedText (c ++ [0]) := rfl

theorem Clause.dimacs_injective (terminated : Bool) :
    Function.Injective fun c : Clause => c.dimacs terminated := by
  intro c d h
  cases terminated with
  | false => exact Literal.spacedText_injective h
  | true => exact List.append_cancel_right (Literal.spacedText_injective h)

namespace Formula

/-- The terminated texts of the clauses, in order, separated by single spaces. -/
def dimacs (f : Formula) : String := " ".intercalate (f.map fun c => c.dimacs true)

/-- The literals of each clause, each clause being closed by a `0`. -/
def closedLiterals (f : Formula) : List Literal := f.flatMap (· ++ [0])

theorem closedLiterals_ne_nil {f : Formula} (h : f ≠ []) : closedLiterals f ≠ [] := by
  obtain ⟨c, f, rfl⟩ := List.exists_cons_of_ne_nil h
  simp [closedLiterals]

/-- **The text of a formula is that of its literals, with a `0` after each clause.** -/
theorem dimacs_eq (f : Formula) : f.dimacs = Literal.spacedText f.closedLiterals := by
  induction f with
  | nil => rfl
  | cons c f ih =>
    by_cases h : f = []
    · subst h
      rw [dimacs, List.map_singleton, String.intercalate_singleton, closedLiterals,
        List.flatMap_singleton, Clause.dimacs_true]
    · have hc : c ++ [0] ≠ [] := by simp
      have hcons : closedLiterals (c :: f) = (c ++ [0]) ++ closedLiterals f := List.flatMap_cons
      rw [hcons, Literal.spacedText_append hc (closedLiterals_ne_nil h), ← ih, dimacs,
        List.map_cons, String.intercalate_cons_of_ne_nil (by simpa using h), Clause.dimacs_true,
        dimacs]

/-- Where no clause contains `0`, the clauses end where there is one. -/
theorem closedLiterals_injOn : Set.InjOn closedLiterals {f | ∀ c ∈ f, 0 ∉ c} := by
  intro f hf g hg h
  have hsplit {f : Formula} (hf : ∀ c ∈ f, (0 : Literal) ∉ c) :
      f.closedLiterals.splitOn 0 = f ++ [[]] := by
    rw [← splitOn_flatMap_append hf List.not_mem_nil, List.append_nil]
    rfl
  have happend : f ++ [[]] = g ++ [[]] := by rw [← hsplit hf, ← hsplit hg, h]
  exact List.append_cancel_right happend

/-- **DIMACS texts are uniquely readable**: those of clauses, whether terminated or not, and those
of formulas none of whose clauses contains `0`. -/
theorem dimacs_uniquely_readable :
    (∀ terminated, Function.Injective fun c : Clause => c.dimacs terminated) ∧
      Set.InjOn dimacs {f | ∀ c ∈ f, 0 ∉ c} := by
  refine ⟨Clause.dimacs_injective, fun f hf g hg h => closedLiterals_injOn hf hg ?_⟩
  rw [dimacs_eq, dimacs_eq] at h
  exact Literal.spacedText_injective h

/-- An empty clause between two others can be told from one after them. -/
theorem dimacs_empty_clause : dimacs [[1], [], [-2]] ≠ dimacs [[1], [-2], []] := by
  intro h
  have he := dimacs_uniquely_readable.2 (by decide) (by decide) h
  cases he

end Formula

end GovernedSat
