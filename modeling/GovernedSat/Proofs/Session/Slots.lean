import GovernedSat.Proofs.Search.Keeping
import Mathlib.Data.List.Perm.Basic
import Mathlib.Data.String.Basic

/-!
# What the slots of a session own

The names of the slots ascend, so that no name occurs twice, and each governor alive in a session
is owned by one slot. Putting an object into a slot adds its governors and takes away those of the
object which it replaces; emptying a slot takes away those of its object.

## Main definitions

* `Slot.governors`, `Slots.governors` — what is owned.
* `Slots.IsSound` — names which ascend, and tame solvers.

## Main results

* `Slots.IsSound.put`, `Slots.IsSound.erase` — slots stay sound.
* `Slots.perm_put`, `Slots.perm_erase`, `Slots.perm_put_of_get?` — what is owned after a change.
* `keeps_dispose` — an object disposed of leaves no governor.
-/

namespace GovernedSat

variable {E : Type}

/-- The governors which an object owns. -/
def Slot.governors : Slot E → List Governor
  | governor g => [g]
  | stream m => m.governors
  | solver _ => []

/-- The solver of an object, if it has one, is tame. -/
def Slot.IsTame : Slot E → Prop
  | governor _ => True
  | stream m => m.IsTame
  | solver s => s.IsTame

/-- Whatever an object owns is given back. -/
theorem keeps_dispose [Engine E] {p₀ : Process} (h₀ : p₀.IsPristine) (x : Slot E) :
    Keeps p₀ x.dispose x.governors fun _ left => left = [] := by
  cases x with
  | governor g => exact keeps_disarm h₀ g
  | stream m => exact (ModelStream.keeps_close h₀ m).bind fun _ _ hleft => keeps_pure hleft.1
  | solver s => exact (Solver.drifts_release.keeps h₀ []).mono fun _ _ hleft => hleft.1

namespace Slots

/-- The governors which the objects own. -/
def governors (slots : Slots E) : List Governor := slots.flatMap (·.2.governors)

/-- The names ascend, and all solvers are tame. -/
structure IsSound (slots : Slots E) : Prop where
  /-- The names ascend. -/
  sorted : slots.Pairwise (·.1 < ·.1)
  /-- The solvers are tame. -/
  tame : ∀ p ∈ slots, p.2.IsTame

variable {slots : Slots E} {name : String} {x : Slot E} {n : String} {y : Slot E}

theorem isSound_nil : IsSound ([] : Slots E) := ⟨.nil, nofun⟩

theorem isSound_cons : IsSound ((n, y) :: slots) ↔
    (∀ p ∈ slots, n < p.1) ∧ y.IsTame ∧ slots.IsSound := by
  constructor
  · rintro ⟨hs, ht⟩
    rw [List.pairwise_cons] at hs
    exact ⟨hs.1, ht _ List.mem_cons_self, hs.2, fun p hp => ht p (List.mem_cons_of_mem _ hp)⟩
  · rintro ⟨hn, hy, hs, ht⟩
    exact ⟨List.pairwise_cons.mpr ⟨hn, hs⟩, List.forall_mem_cons.mpr ⟨hy, ht⟩⟩

theorem get?_cons (n : String) (y : Slot E) (slots : Slots E) (name : String) :
    get? ((n, y) :: slots) name = if name = n then some y else get? slots name := by
  rw [get?, List.lookup_cons]
  by_cases h : name = n
  · rw [if_pos h, beq_iff_eq.mpr h]
  · rw [if_neg h, beq_false_of_ne h]
    rfl

/-- There is nothing at a name below all others. -/
theorem get?_eq_none_of_lt (h : ∀ p ∈ slots, name < p.1) : get? slots name = none := by
  induction slots with
  | nil => rfl
  | cons p slots ih =>
    obtain ⟨n, y⟩ := p
    rw [get?_cons, if_neg (h _ List.mem_cons_self).ne]
    exact ih fun p hp => h p (List.mem_cons_of_mem _ hp)

theorem IsSound.isTame_of_get? (h : slots.IsSound) (hx : slots.get? name = some x) : x.IsTame := by
  induction slots with
  | nil => cases hx
  | cons p slots ih =>
    obtain ⟨n, y⟩ := p
    obtain ⟨-, hy, hs⟩ := isSound_cons.mp h
    rw [get?_cons] at hx
    split_ifs at hx with hn
    · cases hx
      exact hy
    · exact ih hs hx

theorem mem_put {p : String × Slot E} (h : p ∈ put name x slots) : p = (name, x) ∨ p ∈ slots := by
  induction slots with
  | nil => exact .inl (List.mem_singleton.mp h)
  | cons q slots ih =>
    obtain ⟨n, y⟩ := q
    rw [put] at h
    split_ifs at h with hn hlt
    · exact (List.mem_cons.mp h).imp_right (List.mem_cons_of_mem _)
    · exact List.mem_cons.mp h
    · rcases List.mem_cons.mp h with rfl | h
      · exact .inr List.mem_cons_self
      · exact (ih h).imp_right (List.mem_cons_of_mem _)

/-- An object is put in its place. -/
theorem IsSound.put (h : slots.IsSound) (hx : x.IsTame) : (slots.put name x).IsSound := by
  induction slots with
  | nil => exact isSound_cons.mpr ⟨nofun, hx, isSound_nil⟩
  | cons p slots ih =>
    obtain ⟨n, y⟩ := p
    obtain ⟨hlt, hy, hs⟩ := isSound_cons.mp h
    rw [Slots.put]
    split_ifs with hn hname
    · exact isSound_cons.mpr ⟨hn ▸ hlt, hx, hs⟩
    · refine isSound_cons.mpr ⟨List.forall_mem_cons.mpr ⟨hname, fun p hp => ?_⟩, hx, h⟩
      exact hname.trans (hlt p hp)
    · refine isSound_cons.mpr ⟨fun p hp => ?_, hy, ih hs⟩
      rcases mem_put hp with rfl | hp
      · exact lt_of_le_of_ne (not_lt.mp hname) hn
      · exact hlt p hp

theorem IsSound.erase (h : slots.IsSound) (name : String) : (slots.erase name).IsSound :=
  ⟨h.sorted.filter _, fun p hp => h.tame p (List.mem_of_mem_filter hp)⟩

theorem governors_cons (n : String) (y : Slot E) (slots : Slots E) :
    governors ((n, y) :: slots) = y.governors ++ governors slots := List.flatMap_cons

/-- What is owned besides the object which is replaced. -/
theorem perm_put (h : slots.IsSound) (name : String) (x : Slot E) :
    ((slots.get? name).elim [] Slot.governors ++ (slots.put name x).governors).Perm
      (x.governors ++ slots.governors) := by
  induction slots with
  | nil => exact .refl _
  | cons p slots ih =>
    obtain ⟨n, y⟩ := p
    obtain ⟨hlt, -, hs⟩ := isSound_cons.mp h
    rw [Slots.put, get?_cons]
    by_cases hn : n = name
    · rw [if_pos hn, if_pos hn.symm, governors_cons, governors_cons]
      exact List.perm_append_comm_assoc ..
    · rw [if_neg hn, if_neg (Ne.symm hn)]
      by_cases hname : name < n
      · rw [if_pos hname, get?_eq_none_of_lt fun p hp => hname.trans (hlt p hp)]
        exact .refl _
      · rw [if_neg hname, governors_cons, governors_cons]
        refine (List.perm_append_comm_assoc ..).trans (((ih hs).append_left _).trans ?_)
        exact List.perm_append_comm_assoc ..

theorem perm_erase (h : slots.IsSound) (hx : slots.get? name = some x) :
    (x.governors ++ (slots.erase name).governors).Perm slots.governors := by
  induction slots with
  | nil => cases hx
  | cons p slots ih =>
    obtain ⟨n, y⟩ := p
    obtain ⟨hlt, -, hs⟩ := isSound_cons.mp h
    rw [get?_cons] at hx
    by_cases hn : name = n
    · rw [if_pos hn] at hx
      cases hx
      have hrest : Slots.erase ((n, x) :: slots) name = slots := by
        rw [Slots.erase, List.filter_cons_of_neg (by simp [hn]), List.filter_eq_self]
        intro p hp
        exact bne_iff_ne.mpr (hn ▸ (hlt p hp).ne')
      rw [hrest, governors_cons]
    · rw [if_neg hn] at hx
      have hrest : Slots.erase ((n, y) :: slots) name = (n, y) :: Slots.erase slots name :=
        List.filter_cons_of_pos (bne_iff_ne.mpr (Ne.symm hn))
      rw [hrest, governors_cons, governors_cons]
      exact (List.perm_append_comm_assoc ..).trans ((ih hs hx).append_left _)

/-- What is owned when an object is put in place of another. -/
theorem perm_put_of_get? (h : slots.IsSound) (hx : slots.get? name = some x) (y : Slot E) :
    (slots.put name y).governors.Perm (y.governors ++ (slots.erase name).governors) := by
  have hput := perm_put h name y
  rw [hx] at hput
  refine (List.perm_append_left_iff x.governors).mp (hput.trans ?_)
  exact ((perm_erase h hx).symm.append_left _).trans (List.perm_append_comm_assoc ..)

end Slots

end GovernedSat
