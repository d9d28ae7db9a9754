import GovernedSat.Proofs.Range
import GovernedSat.Valuation

/-!
# Valuations made of pairs

A list of atoms with values makes a sparse valuation, and it may also be written into a dense one
which has a place for each of the atoms, a later value of an atom over an earlier one. An atom to
which nothing was given is absent from the sparse valuation and present without a value in the dense
one, or absent from it too. That is all in which the two differ, so the same literals are true on
them.

Where the atoms of a clause in range have values, a literal of the clause is true exactly when the
opposite literal is not. So the negation of the clause is what excludes that all of its literals are
true.

## Main definitions

* `DenseValuation.write`, `DenseValuation.ofList` — dense valuations made of pairs.
* `Valuation.Agree` — valuations which give the same values.

## Main results

* `agree_ofList` — the valuations made of the same pairs agree.
* `Valuation.satisfies_neg` — the opposite of a literal whose atom has a value.
* `valuations_agree_and_block` — the same literals are true, and the negation of a clause blocks it.
-/

namespace GovernedSat

open GovernedSat.Valuation

/-! ### Dense valuations made of pairs -/

namespace DenseValuation

/-- Gives a value to an atom which has a place, in place of any earlier value. -/
def write (v : DenseValuation) (a : Atom) (b : Bool) : DenseValuation := v.set a.toNat (some b)

/-- The valuation of a list of pairs, written in order where nothing has a value. It has `n`
places. -/
def ofList (n : Nat) (pairs : List (Atom × Bool)) : DenseValuation :=
  pairs.foldl (fun v p => write v p.1 p.2) (List.replicate n none)

@[simp] theorem length_write (v : DenseValuation) (a : Atom) (b : Bool) :
    (write v a b).length = v.length := List.length_set

theorem value?_write {v : DenseValuation} {a : Atom} (h : a.toNat < v.length) (a' : Atom)
    (b : Bool) :
    value? (write v a b) a' = if a' = a then some (some b) else value? v a' := by
  change (v.set a.toNat (some b))[a'.toNat]? = _
  rw [List.getElem?_set]
  by_cases ha : a' = a
  · rw [if_pos ha, ha, if_pos rfl, if_pos h]
  · rw [if_neg ha, if_neg fun he => ha (UInt32.toNat_inj.mp he.symm)]
    rfl

end DenseValuation

/-! ### Agreement -/

namespace Valuation

variable {V W : Type} [Valuation V] [Valuation W] {v : V} {w : W} {l : Literal}

/-- The valuations give the same values. Atoms without a value may be absent from one of them and
present in the other. -/
def Agree (v : V) (w : W) : Prop := ∀ a, (value? v a).join = (value? w a).join

/-- Only the value matters to a literal, and not whether the atom is present. -/
theorem satisfies_eq_join (v : V) (l : Literal) :
    satisfies v l = ((value? v l.atom).join == some l.polarity) := by
  rw [satisfies]
  rcases value? v l.atom with _ | _ | b <;> rfl

theorem Agree.satisfies_eq (h : Agree v w) (l : Literal) : satisfies v l = satisfies w l := by
  rw [satisfies_eq_join, satisfies_eq_join, h]

end Valuation

section Pairs

variable {v : SparseValuation} {w : DenseValuation}

theorem agree_insert_write (h : Agree v w) {a : Atom} (ha : a.toNat < w.length) (b : Bool) :
    Agree (v.insert a b) (w.write a b) := by
  intro a'
  rw [SparseValuation.value?_insert, DenseValuation.value?_write ha]
  split
  · rfl
  · exact h a'

/-- Further pairs keep the agreement. -/
theorem agree_foldl {pairs : List (Atom × Bool)} (h : Agree v w)
    (hp : ∀ p ∈ pairs, p.1.toNat < w.length) :
    Agree (pairs.foldl (fun v p => v.insert p.1 p.2) v)
      (pairs.foldl (fun w p => w.write p.1 p.2) w) := by
  induction pairs generalizing v w with
  | nil => exact h
  | cons p pairs ih =>
    rw [List.forall_mem_cons] at hp
    refine ih (agree_insert_write h hp.1 p.2) fun q hq => ?_
    rw [DenseValuation.length_write]
    exact hp.2 q hq

/-- Where nothing was given, no atom has a value. -/
theorem agree_empty_replicate (n : Nat) :
    Agree ({} : SparseValuation) (List.replicate n none : DenseValuation) := by
  intro a
  change none = ((List.replicate n none)[a.toNat]?).join
  rw [List.getElem?_replicate]
  split <;> rfl

/-- **The valuations made of the same pairs agree**, where there is a place for each atom. -/
theorem agree_ofList {n : Nat} {pairs : List (Atom × Bool)} (h : ∀ p ∈ pairs, p.1.toNat < n) :
    Agree (SparseValuation.ofList pairs) (DenseValuation.ofList n pairs) := by
  refine agree_foldl (agree_empty_replicate n) fun p hp => ?_
  rw [List.length_replicate]
  exact h p hp

end Pairs

/-! ### Blocking -/

namespace Valuation

variable {V : Type} [Valuation V] {v : V} {l : Literal} {c : Clause}

/-- Whether a literal is true, where its atom has a value. -/
theorem satisfies_eq_true_iff {b : Bool} (h : value? v l.atom = some (some b)) :
    satisfies v l = true ↔ b = l.polarity := by
  rw [satisfies, h, beq_iff_eq, Option.some.injEq, Option.some.injEq]

/-- The opposite literal is true exactly when the literal is not. -/
theorem satisfies_neg (hl : l.InRange) {b : Bool} (h : value? v l.atom = some (some b)) :
    satisfies v (-l) = true ↔ ¬ satisfies v l = true := by
  have hn : value? v (-l).atom = some (some b) := by rw [Literal.atom_neg hl, h]
  rw [satisfies_eq_true_iff hn, satisfies_eq_true_iff h,
    Literal.polarity_of_negate? (Literal.negate?_eq_some_neg hl) hl.1, Bool.eq_not]

/-- The negation of a clause is true exactly where some literal of the clause is not. -/
theorem exists_satisfies_map_neg (hc : c.InRange)
    (hv : ∀ a ∈ c.atoms, ∃ b, value? v a = some (some b)) :
    (∃ l ∈ c.map (-·), satisfies v l = true) ↔ ¬ ∀ l ∈ c, satisfies v l = true := by
  have hneg : ∀ l ∈ c, (satisfies v (-l) = true ↔ ¬ satisfies v l = true) := by
    intro l hl
    obtain ⟨b, hb⟩ := hv l.atom (Clause.mem_atoms.mpr ⟨l, hl, rfl⟩)
    exact satisfies_neg (hc l hl) hb
  push Not
  constructor
  · rintro ⟨m, hm, hs⟩
    obtain ⟨l, hl, rfl⟩ := List.mem_map.mp hm
    exact ⟨l, hl, (hneg l hl).mp hs⟩
  · rintro ⟨l, hl, hs⟩
    exact ⟨-l, List.mem_map_of_mem hl, (hneg l hl).mpr hs⟩

end Valuation

/-- **Valuations made of the same pairs make the same literals true**, whatever literals, atoms
repeated in the pairs included. **The negation of a clause blocks it**: on any valuation which gives
values to all its atoms, some literal of the negation is true exactly when not every literal of the
clause is. -/
theorem valuations_agree_and_block :
    (∀ (n : Nat) (pairs : List (Atom × Bool)), (∀ p ∈ pairs, p.1.toNat < n) → ∀ l : Literal,
      satisfies (SparseValuation.ofList pairs) l = satisfies (DenseValuation.ofList n pairs) l) ∧
    ∀ (V : Type) [Valuation V] (v : V) (c : Clause), c.InRange →
      (∀ a ∈ c.atoms, ∃ b, value? v a = some (some b)) →
      ∃ d, c.negation? = some d ∧
        ((∃ l ∈ d, satisfies v l = true) ↔ ¬ ∀ l ∈ c, satisfies v l = true) :=
  ⟨fun _ _ h l => (agree_ofList h).satisfies_eq l, fun _ _ _ _ hc hv =>
    ⟨_, Clause.negation?_eq_some hc, exists_satisfies_map_neg hc hv⟩⟩

/-- The second value of an atom counts, and a clause with complementary and repeated literals is
blocked by its negation on either valuation. -/
theorem valuations_agree_and_block_overwritten :
    let pairs : List (Atom × Bool) := [(2, true), (3, false), (2, false)]
    let c : Clause := [-2, 3, 2, -2]
    (∀ p ∈ pairs, p.1.toNat < 4) ∧
      satisfies (SparseValuation.ofList pairs) (-2) =
        satisfies (DenseValuation.ofList 4 pairs) (-2) ∧
      satisfies (SparseValuation.ofList pairs) (-2) = true ∧
      c.InRange ∧ (∀ a ∈ c.atoms, ∃ b, value? (SparseValuation.ofList pairs) a = some (some b)) ∧
      ∃ d, c.negation? = some d ∧ ((∃ l ∈ d, satisfies (SparseValuation.ofList pairs) l = true) ↔
        ¬ ∀ l ∈ c, satisfies (SparseValuation.ofList pairs) l = true) := by
  intro pairs c
  have hp : ∀ p ∈ pairs, p.1.toNat < 4 := by
    simp only [pairs, List.forall_mem_cons]
    exact ⟨by decide, by decide, by decide, nofun⟩
  have hc : c.InRange := by decide
  have hv : ∀ a ∈ c.atoms, ∃ b, value? (SparseValuation.ofList pairs) a = some (some b) := by
    have hatoms : c.atoms = [2, 3, 2, 2] := by decide
    simp only [hatoms, List.forall_mem_cons]
    exact ⟨⟨false, by decide⟩, ⟨false, by decide⟩, ⟨false, by decide⟩, ⟨false, by decide⟩, nofun⟩
  exact ⟨hp, valuations_agree_and_block.1 4 pairs hp (-2), by decide, hc, hv,
    valuations_agree_and_block.2 SparseValuation _ c hc hv⟩

end GovernedSat
