import GovernedSat.Backtracking.Trail
import GovernedSat.Proofs.Range

/-!
# What a trail says of assignments

A trail stands for the assignments on which all its literals are true. A clause with no literal left
is false on all of them, and a clause with a single open literal left is true on one of them only if
that literal is. A trail is *consistent* when no two of its literals are opposite, which making an
open literal true preserves.

## Main definitions

* `Trail.IsTrueOn` — the assignments for which a trail stands.
* `Trail.Consistent`, `Trail.Satisfies`.

## Main results

* `Trail.consistent_cons` — an open literal may be made true.
* `Trail.not_isTrueOn_of_conflict`, `Trail.isTrueOn_of_unit` — what the status of a clause says of
  the assignments.
-/

namespace GovernedSat

namespace Trail

/-- Every literal on the trail is true. -/
def IsTrueOn (t : Trail) (σ : Assignment) : Prop := ∀ l ∈ t, Literal.IsTrueOn l σ

/-- The literals are in range, and no two of them are opposite. -/
def Consistent (t : Trail) : Prop := ∀ l ∈ t, l.InRange ∧ -l ∉ t

/-- Some literal of each clause is on the trail. -/
def Satisfies (t : Trail) (f : Formula) : Prop := ∀ c ∈ f, ∃ l ∈ c, l ∈ t

variable {t t' : Trail} {l : Literal} {c : Clause} {f : Formula} {σ : Assignment}

/-! ### Making literals true -/

@[simp] theorem isTrueOn_nil : IsTrueOn [] σ := by simp [IsTrueOn]

@[simp] theorem isTrueOn_cons : IsTrueOn (l :: t) σ ↔ Literal.IsTrueOn l σ ∧ IsTrueOn t σ := by
  simp [IsTrueOn]

@[simp] theorem consistent_nil : Consistent [] := by simp [Consistent]

/-- An open literal in range may be made true. -/
theorem consistent_cons (h : t.Consistent) (hl : l.InRange) (ho : t.isOpen l = true) :
    Consistent (l :: t) := by
  rw [isOpen_iff] at ho
  intro m hm
  rcases List.mem_cons.mp hm with rfl | hm
  · refine ⟨hl, ?_⟩
    rw [List.mem_cons, not_or]
    exact ⟨fun he => hl.ne_neg he.symm, ho.2⟩
  · refine ⟨(h m hm).1, ?_⟩
    rw [List.mem_cons, not_or]
    refine ⟨fun he => ho.2 ?_, (h m hm).2⟩
    rw [← he, Int32.neg_neg]
    exact hm

/-- A literal in range which is not false may be made true, once more if it is true already. -/
theorem consistent_cons_of_not_isFalse (h : t.Consistent) (hl : l.InRange)
    (hf : ¬ t.isFalse l = true) : Consistent (l :: t) := by
  by_cases hm : l ∈ t
  · intro m hm'
    have hm' : m ∈ t := by
      rcases List.mem_cons.mp hm' with rfl | hm'
      · exact hm
      · exact hm'
    refine ⟨(h m hm').1, ?_⟩
    rw [List.mem_cons, not_or]
    refine ⟨fun he => (h m hm').2 ?_, (h m hm').2⟩
    rw [he]
    exact hm
  · refine consistent_cons h hl (isOpen_iff.mpr ⟨hm, fun hn => hf ?_⟩)
    simp [isFalse, hm, hn]

theorem isOpen_neg : t.isOpen (-l) = t.isOpen l := by
  rw [Bool.eq_iff_iff, isOpen_iff, isOpen_iff, Int32.neg_neg]
  exact And.comm

/-- A literal which is true somewhere on the assignments of the trail is not false on the trail. -/
theorem isOpen_of_isTrueOn (ht : t.IsTrueOn σ) (hl : l.InRange) (h : Literal.IsTrueOn l σ)
    (hn : l ∉ t) : t.isOpen l = true :=
  isOpen_iff.mpr ⟨hn, fun hm => (Literal.isTrueOn_neg hl).mp (ht (-l) hm) h⟩

theorem Satisfies.isTrueOn (h : t.Satisfies f) (ht : t.IsTrueOn σ) : f.IsTrueOn σ := by
  intro c hc
  obtain ⟨l, hl, hm⟩ := h c hc
  exact ⟨l, hl, ht l hm⟩

/-! ### The status of a clause -/

theorem any_isTrue_iff : c.any t.isTrue = true ↔ ∃ l ∈ c, l ∈ t := by simp [isTrue]

theorem status_eq_satisfied_iff : t.status c = .satisfied ↔ ∃ l ∈ c, l ∈ t := by
  rw [← any_isTrue_iff, status]
  split_ifs with h
  · simp [h]
  · split <;> simp [h]

/-- Where no literal of a clause is true, the open occurrences decide its status. -/
theorem status_of_forall_notMem (h : ∀ l ∈ c, l ∉ t) :
    t.status c = match c.filter t.isOpen with
      | [] => .conflict
      | [l] => .unit l
      | _ => .undecided := by
  have hs : ¬ c.any t.isTrue = true := by rw [any_isTrue_iff]; simpa using h
  exact if_neg hs

theorem forall_notMem_of_status_ne (h : t.status c ≠ .satisfied) : ∀ l ∈ c, l ∉ t :=
  fun l hl hm => h (status_eq_satisfied_iff.mpr ⟨l, hl, hm⟩)

theorem filter_eq_nil_of_conflict (h : t.status c = .conflict) : c.filter t.isOpen = [] := by
  rw [status_of_forall_notMem (forall_notMem_of_status_ne (by simp [h]))] at h
  split at h
  · assumption
  · cases h
  · cases h

theorem filter_eq_singleton_of_unit (h : t.status c = .unit l) : c.filter t.isOpen = [l] := by
  rw [status_of_forall_notMem (forall_notMem_of_status_ne (by simp [h]))] at h
  split at h
  · cases h
  · next he =>
    cases h
    exact he
  · cases h

theorem two_le_length_of_undecided (h : t.status c = .undecided) :
    2 ≤ (c.filter t.isOpen).length := by
  rw [status_of_forall_notMem (forall_notMem_of_status_ne (by simp [h]))] at h
  match hf : c.filter t.isOpen with
  | [] => simp [hf] at h
  | [_] => simp [hf] at h
  | _ :: _ :: _ => simp

/-- A literal of a clause which is true, but on the trail neither true nor open, is false there. -/
theorem mem_filter_isOpen (ht : t.IsTrueOn σ) (hc : Clause.InRange c) (hn : ∀ l ∈ c, l ∉ t)
    (hl : l ∈ c) (h : Literal.IsTrueOn l σ) : l ∈ c.filter t.isOpen :=
  List.mem_filter.mpr ⟨hl, isOpen_of_isTrueOn ht (hc l hl) h (hn l hl)⟩

theorem not_isTrueOn_of_conflict (hc : Clause.InRange c) (h : t.status c = .conflict)
    (ht : t.IsTrueOn σ) : ¬ Clause.IsTrueOn c σ := by
  rintro ⟨l, hl, hσ⟩
  have hm := mem_filter_isOpen ht hc (forall_notMem_of_status_ne (by simp [h])) hl hσ
  rw [filter_eq_nil_of_conflict h] at hm
  cases hm

theorem isTrueOn_of_unit (hc : Clause.InRange c) (h : t.status c = .unit l) (ht : t.IsTrueOn σ)
    (hσ : Clause.IsTrueOn c σ) : Literal.IsTrueOn l σ := by
  obtain ⟨m, hm, hσ⟩ := hσ
  have hm' := mem_filter_isOpen ht hc (forall_notMem_of_status_ne (by simp [h])) hm hσ
  rw [filter_eq_singleton_of_unit h, List.mem_singleton] at hm'
  exact hm' ▸ hσ

theorem exists_isOpen_of_undecided (h : t.status c = .undecided) :
    ∃ l ∈ c, t.isOpen l = true := by
  obtain ⟨l, hl⟩ := List.exists_mem_of_length_pos
    (Nat.lt_of_lt_of_le Nat.zero_lt_two (two_le_length_of_undecided h))
  exact ⟨l, List.mem_filter.mp hl⟩

end Trail

end GovernedSat
