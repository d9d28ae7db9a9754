import GovernedSat.Backtracking.Engine
import GovernedSat.Proofs.Backtracking.Trail
import GovernedSat.Proofs.Reading

/-!
# Models found by backtracking

A model found is a consistent trail, together with the greatest atom up to which open atoms count as
true. It answers for an atom the literal of the atom on the trail, if there is one, so whatever
agrees with the answers makes the whole trail true, and with it all that the trail satisfies.

## Main definitions

* `FoundModel.IsProper` — the models which a solve may find.

## Main results

* `FoundModel.IsProper.answers` — every answer is `0` or a literal of its atom.
* `FoundModel.IsProper.isTrueOn_trail` — what agrees with the answers makes the trail true.
* `FoundModel.IsProper.value?_ne_zero` — an atom up to the greatest filled one is answered.
-/

namespace GovernedSat

/-- The trail is consistent, and only literals in range are filled in. -/
structure FoundModel.IsProper (m : FoundModel) : Prop where
  /-- The trail is consistent. -/
  consistent : m.trail.Consistent
  /-- Only literals in range are filled in. -/
  filled_le : m.filled ≤ Atom.greatest

namespace FoundModel.IsProper

variable {m : FoundModel} {l : Literal} {a : Atom} {σ : Assignment}

/-- The answer for the atom of a literal on the trail is that literal. -/
theorem value?_atom (h : m.IsProper) (hl : l ∈ m.trail) : m.value? l.atom = some l := by
  have hr := (h.consistent l hl).1
  have hsome : (m.trail.find? fun x => x.atom = l.atom).isSome :=
    List.find?_isSome.mpr ⟨l, hl, decide_eq_true rfl⟩
  obtain ⟨x, hx⟩ := Option.isSome_iff_exists.mp hsome
  have hxa : x.atom = l.atom := by simpa using List.find?_some hx
  have hxl : x = l := by
    rcases Literal.eq_or_eq_neg_of_atom_eq hxa with he | he
    · exact he
    · exact absurd (he ▸ List.mem_of_find?_eq_some hx) (h.consistent l hl).2
  rw [value?, hx, hxl]
  exact hr.atom.ofAtom?_eq_some.trans (congrArg some hr.signed_atom_polarity)

/-- The answer for an atom without a literal on the trail. -/
theorem value?_of_forall (ha : ∀ l ∈ m.trail, l.atom ≠ a) :
    m.value? a = some (if 0 < a ∧ a ≤ m.filled then Literal.positive a else 0) := by
  have hnone : m.trail.find? (fun x => x.atom = a) = none :=
    List.find?_eq_none.mpr fun x hx => by simpa using ha x hx
  rw [value?, hnone]
  split_ifs with hf <;> rfl

theorem answers (h : m.IsProper) : Answers.IsProper m.value? := by
  intro a
  by_cases ha : ∃ l ∈ m.trail, l.atom = a
  · obtain ⟨l, hl, rfl⟩ := ha
    exact ⟨l, h.value?_atom hl, fun _ => rfl⟩
  · push Not at ha
    refine ⟨_, value?_of_forall ha, fun h₀ => ?_⟩
    split_ifs at h₀ ⊢ with hf
    · exact Atom.InRange.atom_positive ⟨hf.1, UInt32.le_trans hf.2 h.filled_le⟩
    · exact absurd rfl h₀

/-- What agrees with the answers makes the trail true. -/
theorem isTrueOn_trail (h : m.IsProper) (hσ : σ.AgreesWith m.value?) : m.trail.IsTrueOn σ :=
  fun l hl => hσ l.atom l (h.value?_atom hl) (h.consistent l hl).1.1

/-- Every atom up to the greatest filled one is answered. -/
theorem value?_ne_zero (h : m.IsProper) (h₀ : 0 < a) (ha : a ≤ m.filled) :
    m.value? a ≠ some 0 := by
  by_cases hm : ∃ l ∈ m.trail, l.atom = a
  · obtain ⟨l, hl, rfl⟩ := hm
    rw [h.value?_atom hl]
    exact fun he => (h.consistent l hl).1.1 (Option.some.inj he)
  · push Not at hm
    rw [value?_of_forall hm, if_pos ⟨h₀, ha⟩]
    have hr : Atom.InRange a := ⟨h₀, UInt32.le_trans ha h.filled_le⟩
    exact fun he => hr.inRange_positive.1 (Option.some.inj he)

end FoundModel.IsProper

end GovernedSat
