import GovernedSat.Assignment
import Mathlib.Tactic.Push
import Mathlib.Tactic.SplitIfs

/-!
# Literals and atoms in range

A literal is *in range* when it is neither the word which closes a clause nor the least word, and an
atom when it is the atom of some literal in range. In range a literal has an opposite, which is true
exactly where the literal is not, and a literal is given by its atom and its polarity. A formula
which meets the contract of a call has only literals in range, and so are the atoms of interest.

## Main definitions

* `Literal.InRange`, `Clause.InRange`, `Formula.InRange`, `Atom.InRange`.
* `Literal.signed` — the literal of an atom and a polarity.

## Main results

* `Literal.isTrueOn_neg`, `Literal.isTrueOn_signed` — where opposite literals, and literals made of
  an atom and a polarity, are true.
* `Clause.negation?_eq_some`, `Clause.isTrueOn_map_neg` — a clause in range has a negation, which is
  true where some literal of the clause is not.
* `Formula.inRange_of_validate`, `Formula.atomInRange_of_validate`,
  `Formula.mem_atoms_of_validate` — what the contract promises.
-/

namespace GovernedSat

/-- Neither the word which closes a clause nor the one which has no opposite. -/
def Literal.InRange (l : Literal) : Prop := l ≠ 0 ∧ l ≠ Literal.least

/-- Every literal is in range. -/
def Clause.InRange (c : Clause) : Prop := ∀ l ∈ c, Literal.InRange l

/-- Every clause is in range. -/
def Formula.InRange (f : Formula) : Prop := ∀ c ∈ f, Clause.InRange c

/-- The atom of some literal in range. -/
def Atom.InRange (a : Atom) : Prop := 0 < a ∧ a ≤ Atom.greatest

instance (l : Literal) : Decidable l.InRange := inferInstanceAs (Decidable (_ ∧ _))

instance (c : Clause) : Decidable (Clause.InRange c) :=
  List.decidableBAll Literal.InRange c

instance (f : Formula) : Decidable (Formula.InRange f) :=
  List.decidableBAll Clause.InRange f

instance (a : Atom) : Decidable a.InRange := inferInstanceAs (Decidable (_ ∧ _))

/-! ### Opposite literals -/

namespace Literal

variable {l m : Literal} {σ : Assignment}

theorem negate?_eq_some_neg (h : l.InRange) : negate? l = some (-l) := by
  simp [negate?, h.2]

theorem InRange.toInt_ne_zero (h : l.InRange) : l.toInt ≠ 0 :=
  fun he => h.1 (Int32.toInt_inj.mp he)

theorem InRange.neg (h : l.InRange) : (-l).InRange := by
  have hl := toInt_neg_of_ne_least h.2
  have h₀ := h.toInt_ne_zero
  have h₁ := Int32.toInt_lt l
  have h₂ : least.toInt = -2 ^ 31 := by decide
  constructor
  · intro he
    have : (-l).toInt = 0 := by rw [he]; rfl
    omega
  · intro he
    rw [he, h₂] at hl
    omega

theorem InRange.ne_neg (h : l.InRange) : l ≠ -l := by
  intro he
  have hl := toInt_neg_of_ne_least h.2
  rw [← he] at hl
  have h₀ := h.toInt_ne_zero
  omega

theorem atom_neg (h : l.InRange) : atom (-l) = atom l :=
  atom_of_negate? (negate?_eq_some_neg h)

theorem isTrueOn_neg (h : l.InRange) : IsTrueOn (-l) σ ↔ ¬ IsTrueOn l σ :=
  isTrueOn_negate? (negate?_eq_some_neg h) h.1

/-- Two literals of one atom are equal or opposite. -/
theorem eq_or_eq_neg_of_atom_eq (h : atom l = atom m) : l = m ∨ l = -m := by
  rcases positive_atom l with hl | hl <;> rcases positive_atom m with hm | hm <;>
    rw [h, hm] at hl
  · exact .inl hl.symm
  · exact .inr hl.symm
  · exact .inr (by rw [hl, Int32.neg_neg])
  · exact .inl (Int32.neg_inj.mp hl).symm

/-! ### Literals made of an atom and a polarity -/

/-- The literal of an atom and a polarity. -/
def signed (a : Atom) (b : Bool) : Literal := if b then positive a else -positive a

@[simp] theorem signed_true (a : Atom) : signed a true = positive a := rfl

@[simp] theorem signed_false (a : Atom) : signed a false = -positive a := rfl

end Literal

namespace Atom.InRange

open Literal

variable {a : Atom} {b : Bool} {σ : Assignment}

theorem inRange_positive (h : a.InRange) : (positive a).InRange := by
  have hp := toInt_positive_of_le h.2
  have h₀ : 0 < a.toNat := UInt32.lt_iff_toNat_lt.mp h.1
  constructor
  · intro he
    have : (positive a).toInt = 0 := by rw [he]; rfl
    omega
  · intro he
    have : (positive a).toInt = -2 ^ 31 := by rw [he]; decide
    omega

theorem inRange_signed (h : a.InRange) : (signed a b).InRange := by
  cases b with
  | true => exact h.inRange_positive
  | false => exact h.inRange_positive.neg

theorem atom_positive (h : a.InRange) : atom (positive a) = a := by
  rw [← UInt32.toNat_inj, toNat_atom, toInt_positive_of_le h.2, Int.natAbs_natCast]

theorem atom_signed (h : a.InRange) : atom (signed a b) = a := by
  cases b with
  | true => exact h.atom_positive
  | false => rw [signed_false, atom_neg h.inRange_positive, h.atom_positive]

theorem ofAtom?_eq_some (h : a.InRange) : ofAtom? a b = some (signed a b) := by
  cases b with
  | true => rfl
  | false => rw [ofAtom?_false, negate?_eq_some_neg h.inRange_positive, signed_false]

theorem isTrueOn_signed (h : a.InRange) : IsTrueOn (signed a b) σ ↔ σ a = b :=
  isTrueOn_ofAtom? h.1 h.2 h.ofAtom?_eq_some

theorem isTrueOn_positive (h : a.InRange) : IsTrueOn (positive a) σ ↔ σ a = true :=
  Literal.isTrueOn_positive h.1 h.2

theorem polarity_signed (h : a.InRange) : polarity (signed a b) = b := by
  have hs := (h.isTrueOn_signed (b := b) (σ := fun _ => b)).mpr rfl
  rw [IsTrueOn] at hs
  exact hs.symm

end Atom.InRange

namespace Literal

variable {l : Literal} {σ : Assignment}

theorem InRange.atom (h : l.InRange) : Atom.InRange (atom l) := by
  have h₀ := h.toInt_ne_zero
  have h₁ := Int32.le_toInt l
  have h₂ := Int32.toInt_lt l
  have h₃ : l.toInt ≠ -2 ^ 31 := fun he => h.2 (Int32.toInt_inj.mp (by rw [he]; decide))
  have ha := toNat_atom l
  have hg : Atom.greatest.toNat = 2147483647 := rfl
  constructor
  · rw [UInt32.lt_iff_toNat_lt, UInt32.toNat_zero]
    omega
  · rw [UInt32.le_iff_toNat_le]
    omega

/-- A literal in range is given by its atom and its polarity. -/
theorem InRange.signed_atom_polarity (h : l.InRange) :
    signed (Literal.atom l) (polarity l) = l := by
  rcases eq_or_eq_neg_of_atom_eq (h.atom.atom_signed (b := polarity l)) with he | he
  · exact he
  · have hp := h.atom.isTrueOn_signed (b := polarity l) (σ := fun _ => polarity l)
    rw [he, isTrueOn_neg h] at hp
    exact absurd rfl (hp.mpr rfl)

end Literal

/-! ### Clauses -/

/-- What has a result on every element of a list has a result on the list. -/
theorem mapM_eq_some_map {α β : Type} {f : α → Option β} {g : α → β} {as : List α}
    (h : ∀ a ∈ as, f a = some (g a)) : as.mapM f = some (as.map g) := by
  induction as with
  | nil => rfl
  | cons a as ih =>
    rw [List.forall_mem_cons] at h
    rw [List.mapM_cons, h.1, ih h.2]
    rfl

theorem isSome_mapM {α β : Type} {f : α → Option β} {as : List α}
    (h : ∀ a ∈ as, (f a).isSome) : (as.mapM f).isSome := by
  induction as with
  | nil => rfl
  | cons a as ih =>
    rw [List.forall_mem_cons] at h
    obtain ⟨b, hb⟩ := Option.isSome_iff_exists.mp h.1
    obtain ⟨bs, hbs⟩ := Option.isSome_iff_exists.mp (ih h.2)
    rw [List.mapM_cons, hb, hbs]
    rfl

/-- The results on a list belong to its elements. -/
theorem map_eq_of_mapM {α β : Type} {f : α → Option β} {g : β → α} {P : β → Prop} {as : List α}
    {bs : List β} (h : ∀ a ∈ as, ∀ b, f a = some b → g b = a ∧ P b) (hm : as.mapM f = some bs) :
    bs.map g = as ∧ ∀ b ∈ bs, P b := by
  induction as generalizing bs with
  | nil =>
    cases hm
    exact ⟨rfl, nofun⟩
  | cons a as ih =>
    rw [List.forall_mem_cons] at h
    rw [List.mapM_cons] at hm
    obtain ⟨b, hb, hm⟩ := Option.bind_eq_some_iff.mp hm
    obtain ⟨bs', hbs, hm⟩ := Option.bind_eq_some_iff.mp hm
    cases hm
    obtain ⟨hg, hP⟩ := h.1 b hb
    obtain ⟨hmap, hall⟩ := ih h.2 hbs
    exact ⟨by rw [List.map_cons, hg, hmap], List.forall_mem_cons.mpr ⟨hP, hall⟩⟩

namespace Clause

variable {c : Clause} {l : Literal} {σ : Assignment}

@[simp] theorem inRange_nil : InRange [] := by simp [InRange]

@[simp] theorem inRange_cons : InRange (l :: c) ↔ l.InRange ∧ InRange c := by
  simp [InRange]

theorem negation?_eq_some (h : InRange c) : negation? c = some (c.map (-·)) :=
  mapM_eq_some_map fun l hl => Literal.negate?_eq_some_neg (h l hl)

theorem InRange.map_neg (h : InRange c) : InRange (c.map (-·)) := by
  intro l hl
  obtain ⟨m, hm, rfl⟩ := List.mem_map.mp hl
  exact (h m hm).neg

theorem isTrueOn_map_neg (h : InRange c) :
    IsTrueOn (c.map (-·)) σ ↔ ¬ ∀ l ∈ c, Literal.IsTrueOn l σ := by
  rw [isTrueOn_negation? (negation?_eq_some h) fun h₀ => (h 0 h₀).1 rfl]
  push Not
  rfl

end Clause

/-! ### Formulas -/

namespace Formula

variable {f g : Formula} {c : Clause} {atoms : List Atom}

@[simp] theorem inRange_nil : InRange [] := by simp [InRange]

@[simp] theorem inRange_cons : InRange (c :: f) ↔ Clause.InRange c ∧ InRange f := by
  simp [InRange]

@[simp] theorem inRange_append : InRange (f ++ g) ↔ InRange f ∧ InRange g := by
  simp [InRange, or_imp, forall_and]

/-- To be in range is to contain neither of the two words. -/
theorem inRange_iff : f.InRange ↔ ∀ c ∈ f, (0 : Literal) ∉ c ∧ Literal.least ∉ c := by
  refine forall₂_congr fun c _ => ⟨fun h => ⟨fun h₀ => (h 0 h₀).1 rfl, fun h₁ => (h _ h₁).2 rfl⟩,
    fun h l hl => ⟨fun he => h.1 (he ▸ hl), fun he => h.2 (he ▸ hl)⟩⟩

theorem InRange.of_mem_flatten {l : Literal} (h : InRange f) (hl : l ∈ f.flatten) : l.InRange := by
  obtain ⟨c, hc, hl⟩ := List.mem_flatten.mp hl
  exact h c hc l hl

/-! ### The contract -/

theorem inRange_of_clauseFault? {f : Formula} {n : Nat} (h : clauseFault? n f = none) :
    InRange f := by
  induction f generalizing n with
  | nil => exact inRange_nil
  | cons c f ih =>
    rw [clauseFault?, Option.or_eq_none_iff] at h
    refine inRange_cons.mpr ⟨fun l hl => ?_, ih h.2⟩
    have hc := h.1
    unfold literalFault? at hc
    split_ifs at hc with h₀ h₁
    exact ⟨fun he => h₀ (he ▸ hl), fun he => h₁ (he ▸ hl)⟩

/-- A list of atoms without a violation has only atoms of the formula in range, none of which is
repeated or was seen before. -/
theorem of_atomFault? {atoms seen : List Atom} (h : atomFault? f seen atoms = none) :
    atoms.Nodup ∧ ∀ a ∈ atoms, a.InRange ∧ a ∈ f.atoms ∧ a ∉ seen := by
  induction atoms generalizing seen with
  | nil => simp
  | cons a as ih =>
    rw [atomFault?] at h
    split_ifs at h with h₀ h₁ h₂
    obtain ⟨hn, ha⟩ := ih h
    rw [not_or, UInt32.not_lt, ← ne_eq] at h₀
    refine ⟨List.nodup_cons.mpr ⟨fun hm => ?_, hn⟩, fun b hb => ?_⟩
    · exact (ha a hm).2.2 List.mem_cons_self
    · rcases List.mem_cons.mp hb with rfl | hb
      · exact ⟨⟨UInt32.pos_iff_ne_zero.mpr h₀.1, h₀.2⟩, h₁, h₂⟩
      · have := ha b hb
        exact ⟨this.1, this.2.1, fun hs => this.2.2 (List.mem_cons_of_mem a hs)⟩

theorem faults_of_validate (h : f.validate atoms = .ok ()) :
    clauseFault? 0 f = none ∧ atomFault? f [] atoms = none := by
  unfold validate at h
  split at h
  · cases h
  · next he => exact Option.or_eq_none_iff.mp he

theorem inRange_of_validate (h : f.validate atoms = .ok ()) : f.InRange :=
  inRange_of_clauseFault? (faults_of_validate h).1

theorem zero_notMem_of_validate (h : f.validate atoms = .ok ()) : ∀ c ∈ f, 0 ∉ c :=
  fun c hc h₀ => (inRange_of_validate h c hc 0 h₀).1 rfl

theorem atomInRange_of_validate (h : f.validate atoms = .ok ()) : ∀ a ∈ atoms, a.InRange :=
  fun a ha => ((of_atomFault? (faults_of_validate h).2).2 a ha).1

theorem mem_atoms_of_validate (h : f.validate atoms = .ok ()) : ∀ a ∈ atoms, a ∈ f.atoms :=
  fun a ha => ((of_atomFault? (faults_of_validate h).2).2 a ha).2.1

end Formula

end GovernedSat
