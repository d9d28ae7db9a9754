import GovernedSat.Proofs.Range

/-!
# The first violation of the contract

The contract of a call says of a formula and of the atoms of interest what they have to be like,
without regard to how this is checked. Where it is not met, the error names the first violation:
the first clause which has a literal out of range, and, if there is no such clause, the first atom
of the list which does not go with the formula and the atoms before it. Of the faults of one clause,
and of those of one atom, one takes precedence.

## Main definitions

* `Formula.MeetsContract` — the contract.
* `Formula.FirstViolation` — the errors which name the first violation.

## Main results

* `Formula.validate_names_first_violation` — what `Formula.validate` accepts, and what it reports.
-/

namespace GovernedSat

namespace Formula

variable {f : Formula} {c : Clause} {a : Atom} {atoms seen : List Atom} {n : Nat} {e : FormulaError}

/-! ### The contract -/

/-- The atom is the absolute value of some literal of the formula. -/
def Mentions (f : Formula) (a : Atom) : Prop := ∃ c ∈ f, ∃ l ∈ c, l.toInt.natAbs = a.toNat

theorem mentions_iff : f.Mentions a ↔ a ∈ f.atoms := by
  rw [Mentions, mem_atoms]
  refine exists_congr fun c => and_congr_right fun _ => exists_congr fun l => ?_
  rw [← UInt32.toNat_inj, Literal.toNat_atom]

/-- The literals of the formula are in range, and the atoms are distinct atoms in range of its
literals. -/
structure MeetsContract (f : Formula) (atoms : List Atom) : Prop where
  /-- No clause contains `0` or the least word. -/
  literals : ∀ c ∈ f, (0 : Literal) ∉ c ∧ Literal.least ∉ c
  /-- No atom is given twice. -/
  nodup : atoms.Nodup
  /-- The atoms are in range, and occur in the formula. -/
  atoms : ∀ a ∈ atoms, 1 ≤ a.toNat ∧ a.toNat ≤ 2147483647 ∧ f.Mentions a

/-- The errors which name the first violation of the contract. A clause is given by the number of
clauses before it, which are all in range, and an atom comes after atoms which meet the
contract. -/
inductive FirstViolation (f : Formula) (atoms : List Atom) : FormulaError → Prop
  /-- The first clause which is not in range contains `0`. -/
  | zeroLiteral {before after : Formula} {c : Clause} (split : f = before ++ c :: after)
      (earlier : before.InRange) (zero : 0 ∈ c) :
      FirstViolation f atoms (.zeroLiteral before.length)
  /-- The first clause which is not in range contains the least word, and not `0`. -/
  | literalOutOfRange {before after : Formula} {c : Clause} (split : f = before ++ c :: after)
      (earlier : before.InRange) (nonzero : 0 ∉ c) (least : Literal.least ∈ c) :
      FirstViolation f atoms (.literalOutOfRange before.length)
  /-- The first atom at fault is out of range. -/
  | zeroAtom {before after : List Atom} {a : Atom} (split : atoms = before ++ a :: after)
      (earlier : f.MeetsContract before) (range : a.toNat = 0 ∨ 2147483647 < a.toNat) :
      FirstViolation f atoms .zeroAtom
  /-- The first atom at fault is in range, and does not occur. -/
  | unknownAtom {before after : List Atom} {a : Atom} (split : atoms = before ++ a :: after)
      (earlier : f.MeetsContract before) (range : a.InRange) (unknown : ¬ f.Mentions a) :
      FirstViolation f atoms (.unknownAtom a)
  /-- The first atom at fault occurs, and is given a second time. -/
  | duplicateAtom {before after : List Atom} {a : Atom} (split : atoms = before ++ a :: after)
      (earlier : f.MeetsContract before) (range : a.InRange) (known : f.Mentions a)
      (repeated : a ∈ before) : FirstViolation f atoms (.duplicateAtom a)

theorem atomInRange_iff : a.InRange ↔ 1 ≤ a.toNat ∧ a.toNat ≤ 2147483647 := by
  rw [Atom.InRange, UInt32.lt_iff_toNat_lt, UInt32.le_iff_toNat_le]
  rfl

theorem atomInRange_iff_not : a.InRange ↔ ¬ (a = 0 ∨ Atom.greatest < a) := by
  rw [Atom.InRange, UInt32.pos_iff_ne_zero, not_or, UInt32.not_lt]

/-! ### Clauses -/

theorem literalFault?_eq_none_iff : literalFault? n c = none ↔ Clause.InRange c := by
  rw [← and_iff_left (a := Clause.InRange c) inRange_nil, ← inRange_cons, inRange_iff,
    List.forall_mem_singleton, literalFault?]
  split_ifs with h₀ h₁ <;> simp [*]

/-- Clauses in range are passed over, and counted. -/
theorem clauseFault?_append {before : Formula} (hb : before.InRange) :
    clauseFault? n (before ++ f) = clauseFault? (n + before.length) f := by
  induction before generalizing n with
  | nil => rfl
  | cons c before ih =>
    rw [inRange_cons] at hb
    rw [List.cons_append, clauseFault?, literalFault?_eq_none_iff.mpr hb.1, Option.none_or,
      ih hb.2, List.length_cons, Nat.add_right_comm, Nat.add_assoc]

theorem clauseFault?_eq_none_iff : clauseFault? n f = none ↔ f.InRange := by
  refine ⟨inRange_of_clauseFault?, fun h => ?_⟩
  rw [← List.append_nil f, clauseFault?_append h, clauseFault?]

/-- The fault reported is that of the first clause which is not in range. -/
theorem exists_of_clauseFault? (h : clauseFault? n f = some e) :
    ∃ before c after, f = before ++ c :: after ∧ InRange before ∧
      literalFault? (n + before.length) c = some e := by
  induction f generalizing n with
  | nil => cases h
  | cons c f ih =>
    rw [clauseFault?] at h
    cases hc : literalFault? n c with
    | some e' =>
      rw [hc, Option.some_or] at h
      exact ⟨[], c, f, rfl, inRange_nil, hc.trans h⟩
    | none =>
      rw [hc, Option.none_or] at h
      obtain ⟨before, d, after, rfl, hb, hd⟩ := ih h
      refine ⟨c :: before, d, after, rfl, inRange_cons.mpr
        ⟨literalFault?_eq_none_iff.mp hc, hb⟩, ?_⟩
      rwa [List.length_cons, ← Nat.add_assoc, Nat.add_right_comm]

/-! ### Atoms -/

/-- A fault of an atom comes before those of the atoms after it. -/
theorem atomFault?_cons :
    atomFault? f seen (a :: atoms) =
      (atomFault? f seen [a]).or (atomFault? f (a :: seen) atoms) := by
  rw [atomFault?, atomFault?, atomFault?]
  split_ifs <;> rfl

/-- An atom without a fault is in range, occurs, and was not given before. -/
theorem atomFault?_singleton_eq_none (hr : a.InRange) (hf : a ∈ f.atoms) (hs : a ∉ seen) :
    atomFault? f seen [a] = none := by
  rw [atomFault?, if_neg (atomInRange_iff_not.mp hr), if_neg (not_not_intro hf), if_neg hs,
    atomFault?]

/-- Atoms without a fault are passed over, and remembered. -/
theorem atomFault?_append {before : List Atom} (hn : before.Nodup)
    (hb : ∀ a ∈ before, a.InRange ∧ a ∈ f.atoms ∧ a ∉ seen) :
    atomFault? f seen (before ++ atoms) = atomFault? f (before.reverse ++ seen) atoms := by
  induction before generalizing seen with
  | nil => rfl
  | cons a before ih =>
    obtain ⟨⟨hr, hf, hs⟩, hb⟩ := List.forall_mem_cons.mp hb
    obtain ⟨ha, hn⟩ := List.nodup_cons.mp hn
    rw [List.cons_append, atomFault?_cons, atomFault?_singleton_eq_none hr hf hs, Option.none_or,
      ih hn fun b hb' => ?_, List.reverse_cons, List.append_assoc, List.singleton_append]
    refine ⟨(hb b hb').1, (hb b hb').2.1, fun hm => ?_⟩
    rcases List.mem_cons.mp hm with rfl | hm
    · exact ha hb'
    · exact (hb b hb').2.2 hm

/-- The fault reported is that of an atom which comes after atoms without a fault. -/
theorem exists_of_atomFault? (h : atomFault? f seen atoms = some e) :
    ∃ before a after, atoms = before ++ a :: after ∧ atomFault? f seen before = none ∧
      atomFault? f (before.reverse ++ seen) [a] = some e := by
  induction atoms generalizing seen with
  | nil => cases h
  | cons a atoms ih =>
    rw [atomFault?_cons] at h
    cases ha : atomFault? f seen [a] with
    | some e' =>
      rw [ha, Option.some_or] at h
      exact ⟨[], a, atoms, rfl, rfl, ha.trans h⟩
    | none =>
      rw [ha, Option.none_or] at h
      obtain ⟨before, b, after, rfl, hb, he⟩ := ih h
      refine ⟨a :: before, b, after, rfl, ?_, ?_⟩
      · rw [atomFault?_cons, ha, Option.none_or, hb]
      · rwa [List.reverse_cons, List.append_assoc, List.singleton_append]

/-! ### The check -/

theorem meetsContract_iff :
    f.MeetsContract atoms ↔ f.InRange ∧ atoms.Nodup ∧ ∀ a ∈ atoms, a.InRange ∧ a ∈ f.atoms := by
  constructor
  · rintro ⟨hl, hn, ha⟩
    refine ⟨inRange_iff.mpr hl, hn, fun a hm => ?_⟩
    obtain ⟨h₀, h₁, hf⟩ := ha a hm
    exact ⟨atomInRange_iff.mpr ⟨h₀, h₁⟩, mentions_iff.mp hf⟩
  · rintro ⟨hl, hn, ha⟩
    refine ⟨inRange_iff.mp hl, hn, fun a hm => ?_⟩
    obtain ⟨hr, hf⟩ := ha a hm
    exact ⟨(atomInRange_iff.mp hr).1, (atomInRange_iff.mp hr).2, mentions_iff.mpr hf⟩

/-- After atoms which meet the contract, the rest is checked with these in mind. -/
theorem MeetsContract.atomFault?_append {before : List Atom} (h : f.MeetsContract before) :
    atomFault? f [] (before ++ atoms) = atomFault? f before.reverse atoms := by
  obtain ⟨-, hn, ha⟩ := meetsContract_iff.mp h
  rw [Formula.atomFault?_append hn fun a hm => ⟨(ha a hm).1, (ha a hm).2, List.not_mem_nil⟩,
    List.append_nil]

theorem meetsContract_iff_faults :
    f.MeetsContract atoms ↔ clauseFault? 0 f = none ∧ atomFault? f [] atoms = none := by
  constructor
  · intro h
    refine ⟨clauseFault?_eq_none_iff.mpr (meetsContract_iff.mp h).1, ?_⟩
    rw [← List.append_nil atoms, h.atomFault?_append, atomFault?]
  · rintro ⟨hc, ha⟩
    obtain ⟨hn, hall⟩ := of_atomFault? ha
    exact meetsContract_iff.mpr ⟨clauseFault?_eq_none_iff.mp hc, hn,
      fun a hm => ⟨(hall a hm).1, (hall a hm).2.1⟩⟩

/-- The check comes upon the first violation. -/
theorem FirstViolation.fault_eq (h : f.FirstViolation atoms e) :
    (clauseFault? 0 f).or (atomFault? f [] atoms) = some e := by
  cases h with
  | zeroLiteral split earlier zero =>
    rw [split, clauseFault?_append earlier, clauseFault?, literalFault?, if_pos zero,
      Option.some_or, Option.some_or, Nat.zero_add]
  | literalOutOfRange split earlier nonzero least =>
    rw [split, clauseFault?_append earlier, clauseFault?, literalFault?, if_neg nonzero,
      if_pos least, Option.some_or, Option.some_or, Nat.zero_add]
  | zeroAtom split earlier range =>
    rw [(meetsContract_iff_faults.mp earlier).1, Option.none_or, split,
      earlier.atomFault?_append, atomFault?, if_pos]
    rwa [← UInt32.toNat_inj, UInt32.lt_iff_toNat_lt]
  | unknownAtom split earlier range unknown =>
    rw [(meetsContract_iff_faults.mp earlier).1, Option.none_or, split,
      earlier.atomFault?_append, atomFault?, if_neg (atomInRange_iff_not.mp range),
      if_pos (mt mentions_iff.mpr unknown)]
  | duplicateAtom split earlier range known repeated =>
    rw [(meetsContract_iff_faults.mp earlier).1, Option.none_or, split,
      earlier.atomFault?_append, atomFault?, if_neg (atomInRange_iff_not.mp range),
      if_neg (not_not_intro (mentions_iff.mp known)), if_pos (List.mem_reverse.mpr repeated)]

/-- The fault of a clause is the first violation, whatever the atoms are. -/
theorem firstViolation_of_clauseFault? (h : clauseFault? 0 f = some e) :
    f.FirstViolation atoms e := by
  obtain ⟨before, c, after, split, earlier, hfault⟩ := exists_of_clauseFault? h
  rw [Nat.zero_add, literalFault?] at hfault
  split_ifs at hfault with h₀ h₁
  · cases hfault
    exact .zeroLiteral split earlier h₀
  · cases hfault
    exact .literalOutOfRange split earlier h₀ h₁

/-- The fault of an atom is the first violation if the clauses have none. -/
theorem firstViolation_of_atomFault? (hc : clauseFault? 0 f = none)
    (h : atomFault? f [] atoms = some e) : f.FirstViolation atoms e := by
  obtain ⟨before, a, after, split, hbefore, hfault⟩ := exists_of_atomFault? h
  have earlier : f.MeetsContract before := meetsContract_iff_faults.mpr ⟨hc, hbefore⟩
  rw [List.append_nil, atomFault?] at hfault
  split_ifs at hfault with h₀ h₁ h₂
  · cases hfault
    rw [← UInt32.toNat_inj, UInt32.lt_iff_toNat_lt] at h₀
    exact .zeroAtom split earlier h₀
  · cases hfault
    exact .duplicateAtom split earlier (atomInRange_iff_not.mpr h₀) (mentions_iff.mpr h₁)
      (List.mem_reverse.mp h₂)
  · cases hfault
  · cases hfault
    exact .unknownAtom split earlier (atomInRange_iff_not.mpr h₀) (mt mentions_iff.mp h₁)

theorem firstViolation_iff :
    f.FirstViolation atoms e ↔ (clauseFault? 0 f).or (atomFault? f [] atoms) = some e := by
  refine ⟨FirstViolation.fault_eq, fun h => ?_⟩
  obtain hc | ⟨hc, ha⟩ := Option.or_eq_some_iff.mp h
  · exact firstViolation_of_clauseFault? hc
  · exact firstViolation_of_atomFault? hc ha

/-- **The check accepts exactly what meets the contract, and otherwise names the first
violation.** -/
theorem validate_names_first_violation (f : Formula) (atoms : List Atom) :
    (f.validate atoms = .ok () ↔ f.MeetsContract atoms) ∧
      ∀ e, f.validate atoms = .error e ↔ f.FirstViolation atoms e := by
  rw [meetsContract_iff_faults, ← Option.or_eq_none_iff]
  refine ⟨?_, fun e => ?_⟩
  · rw [validate]
    cases (clauseFault? 0 f).or (atomFault? f [] atoms) <;> simp
  · rw [firstViolation_iff, validate]
    cases (clauseFault? 0 f).or (atomFault? f [] atoms) <;> simp

/-- In one clause `0` takes precedence over the least word which stands before it, and a clause over
the atoms. -/
example : Formula.validate [[1], [2, Literal.least, 0]] [0, 1, 1] = .error (.zeroLiteral 1) :=
  rfl

end Formula

end GovernedSat
