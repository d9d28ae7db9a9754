import GovernedSat.Formula

/-!
# Assignments

An assignment gives every atom a truth value. A literal is true on it when the atom of the literal
has the polarity of the literal as its value, a clause when some literal of it is, and a formula
when every clause of it is; an assignment on which a formula is true is a model of the formula. What
an assignment says of a list of atoms is its restriction to them, one literal for each atom.

## Main definitions

* `Assignment`, `Assignment.restrict?`.
* `Literal.IsTrueOn`, `Clause.IsTrueOn`, `Formula.IsTrueOn`.

## Main results

* `Literal.isTrueOn_negate?`, `Clause.isTrueOn_negation?` — opposite literals are true where the
  literals are not, so the negation of a clause is true where some literal of the clause is not.
* `Literal.isTrueOn_ofAtom?` — a literal made of an atom and a polarity is true where the atom has
  the polarity as its value.
-/

namespace GovernedSat

/-- An assignment: a truth value for every atom. -/
abbrev Assignment := Atom → Bool

/-- The literals of the atoms which are true on the assignment, if they are in range. -/
def Assignment.restrict? (σ : Assignment) (atoms : List Atom) : Option Clause :=
  atoms.mapM fun a => Literal.ofAtom? a (σ a)

/-! ### Truth -/

/-- A literal is true when its atom has its polarity as value. -/
def Literal.IsTrueOn (l : Literal) (σ : Assignment) : Prop :=
  σ (Literal.atom l) = Literal.polarity l

/-- A clause is true when some literal of it is. -/
def Clause.IsTrueOn (c : Clause) (σ : Assignment) : Prop := ∃ l ∈ c, Literal.IsTrueOn l σ

/-- A formula is true when every clause of it is. -/
def Formula.IsTrueOn (f : Formula) (σ : Assignment) : Prop := ∀ c ∈ f, Clause.IsTrueOn c σ

instance (l : Literal) (σ : Assignment) : Decidable (Literal.IsTrueOn l σ) :=
  inferInstanceAs (Decidable (_ = _))

instance (c : Clause) (σ : Assignment) : Decidable (Clause.IsTrueOn c σ) :=
  List.decidableBEx (Literal.IsTrueOn · σ) c

instance (f : Formula) (σ : Assignment) : Decidable (Formula.IsTrueOn f σ) :=
  List.decidableBAll (Clause.IsTrueOn · σ) f

/-! ### Literals -/

namespace Literal

variable {l m : Literal} {σ : Assignment}

theorem toInt_neg_of_ne_least (h : l ≠ least) : (-l).toInt = -l.toInt := by
  have h' : l.toInt ≠ least.toInt := fun he => h (Int32.toInt_inj.mp he)
  have h₁ := Int32.le_toInt l
  have h₂ := Int32.toInt_lt l
  have h₃ : least.toInt = -2 ^ 31 := by decide
  rw [Int32.toInt_neg, Int.bmod_def]
  omega

theorem toInt_of_negate? (h : negate? l = some m) : m.toInt = -l.toInt := by
  have hl : l ≠ least := fun he => by simp [negate?_eq_none_iff.mpr he] at h
  rw [negate?_eq_some h, toInt_neg_of_ne_least hl]

/-- The opposite literal has the same atom. -/
theorem atom_of_negate? (h : negate? l = some m) : atom m = atom l := by
  rw [← UInt32.toNat_inj, toNat_atom, toNat_atom, toInt_of_negate? h, Int.natAbs_neg]

/-- The opposite of a literal other than `0` has the other polarity. -/
theorem polarity_of_negate? (h : negate? l = some m) (h₀ : l ≠ 0) : polarity m = !polarity l := by
  have h' : l.toInt ≠ 0 := fun he => h₀ (Int32.toInt_inj.mp he)
  have hm := toInt_of_negate? h
  rw [Bool.eq_iff_iff, Bool.not_eq_true', ← Bool.not_eq_true, polarity_eq_true_iff,
    polarity_eq_true_iff]
  omega

theorem isTrueOn_negate? (h : negate? l = some m) (h₀ : l ≠ 0) :
    IsTrueOn m σ ↔ ¬ IsTrueOn l σ := by
  rw [IsTrueOn, IsTrueOn, atom_of_negate? h, polarity_of_negate? h h₀, Bool.eq_not]

theorem toInt_positive_of_le {a : Atom} (h : a ≤ Atom.greatest) : (positive a).toInt = a.toNat := by
  have h' : a.toNat ≤ 2147483647 := UInt32.le_iff_toNat_le.mp h
  rw [toInt_positive, Int.bmod_def]
  omega

theorem isTrueOn_positive {a : Atom} (h₀ : 0 < a) (h : a ≤ Atom.greatest) :
    IsTrueOn (positive a) σ ↔ σ a = true := by
  have h₁ : 0 < a.toNat := UInt32.lt_iff_toNat_lt.mp h₀
  have hp := toInt_positive_of_le h
  have ha : atom (positive a) = a := by rw [← UInt32.toNat_inj, toNat_atom, hp, Int.natAbs_natCast]
  have hb : polarity (positive a) = true := by rw [polarity_eq_true_iff, hp]; omega
  rw [IsTrueOn, ha, hb]

theorem isTrueOn_ofAtom? {a : Atom} {b : Bool} (h₀ : 0 < a) (h : a ≤ Atom.greatest)
    (hl : ofAtom? a b = some l) : IsTrueOn l σ ↔ σ a = b := by
  cases b with
  | true =>
    rw [ofAtom?_true, Option.some.injEq] at hl
    rw [← hl, isTrueOn_positive h₀ h]
  | false =>
    rw [ofAtom?_false] at hl
    have hne : positive a ≠ 0 := fun he => by
      have hp := toInt_positive_of_le h
      have h₁ : 0 < a.toNat := UInt32.lt_iff_toNat_lt.mp h₀
      rw [he] at hp
      have : (0 : Int32).toInt = 0 := rfl
      omega
    rw [isTrueOn_negate? hl hne, isTrueOn_positive h₀ h, Bool.not_eq_true]

end Literal

/-! ### Clauses -/

namespace Clause

variable {σ : Assignment}

@[simp] theorem not_isTrueOn_nil : ¬ IsTrueOn [] σ := by simp [IsTrueOn]

@[simp] theorem isTrueOn_cons {l : Literal} {c : Clause} :
    IsTrueOn (l :: c) σ ↔ Literal.IsTrueOn l σ ∨ IsTrueOn c σ := by simp [IsTrueOn]

theorem isTrueOn_negation? : {c d : Clause} → negation? c = some d → 0 ∉ c →
    (IsTrueOn d σ ↔ ∃ l ∈ c, ¬ Literal.IsTrueOn l σ)
  | [], d, h, _ => by
    rw [negation?_nil, Option.some.injEq] at h
    simp [← h]
  | l :: c, d, h, h₀ => by
    rw [negation?_cons, Option.bind_eq_some_iff] at h
    obtain ⟨m, hm, h⟩ := h
    obtain ⟨c', hc, h⟩ := Option.bind_eq_some_iff.mp h
    rw [List.mem_cons, not_or] at h₀
    rw [← Option.some.inj h, isTrueOn_cons, isTrueOn_negation? hc h₀.2,
      Literal.isTrueOn_negate? hm (Ne.symm h₀.1)]
    simp

end Clause

/-! ### Formulas -/

namespace Formula

variable {σ : Assignment} {c : Clause} {f g : Formula}

@[simp] theorem isTrueOn_nil : IsTrueOn [] σ := by simp [IsTrueOn]

@[simp] theorem isTrueOn_cons : IsTrueOn (c :: f) σ ↔ Clause.IsTrueOn c σ ∧ IsTrueOn f σ := by
  simp [IsTrueOn]

@[simp] theorem isTrueOn_append : IsTrueOn (f ++ g) σ ↔ IsTrueOn f σ ∧ IsTrueOn g σ := by
  simp [IsTrueOn, or_imp, forall_and]

end Formula

end GovernedSat
