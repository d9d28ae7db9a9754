import GovernedSat.Search.ModelStream

/-!
# Slots of a session

The objects of a session are kept in slots, in ascending order of their names. The order is the one
of strings, which compares names as their UTF-8 bytes do.

## Main definitions

* `Slot` — a governor, a stream of models or a solver, with `Slot.dispose`.
* `Slots`, `Slots.get?`, `Slots.put`, `Slots.erase`.

## Main results

* `Slots.get?_put`, `Slots.get?_erase` — a change shows in its slot only.
-/

namespace GovernedSat

/-- An object of a session. -/
inductive Slot (E : Type) where
  /-- A governor. -/
  | governor (g : Governor)
  /-- A stream of models. -/
  | stream (models : ModelStream E)
  /-- A solver. -/
  | solver (s : Solver E)

/-- Gives back what an object owns. -/
def Slot.dispose {E : Type} [Engine E] : Slot E → ProcessM Unit
  | governor g => g.disarm
  | stream models => discard (ModelStream.close.run models)
  | solver s => s.release

/-- Objects with their names. -/
abbrev Slots (E : Type) := List (String × Slot E)

namespace Slots

variable {E : Type}

/-- The object in a slot. -/
def get? (slots : Slots E) (name : String) : Option (Slot E) := slots.lookup name

/-- Puts an object into a slot, in place of what is in it. -/
def put (name : String) (x : Slot E) : Slots E → Slots E
  | [] => [(name, x)]
  | (n, y) :: slots =>
    if n = name then (name, x) :: slots
    else if name < n then (name, x) :: (n, y) :: slots
    else (n, y) :: put name x slots

/-- Empties a slot. -/
def erase (slots : Slots E) (name : String) : Slots E := slots.filter (·.1 != name)

theorem get?_put (name name' : String) (x : Slot E) (slots : Slots E) :
    get? (put name x slots) name' = if name' = name then some x else get? slots name' := by
  induction slots with
  | nil =>
    by_cases h : name' = name
    · simp [get?, put, h]
    · have h' : (name' == name) = false := by simpa using h
      simp [get?, put, List.lookup_cons, h, h']
  | cons p slots ih =>
    obtain ⟨n, y⟩ := p
    unfold get? at ih ⊢
    by_cases h : name' = name
    · subst h
      by_cases hn : n = name'
      · simp [put, hn]
      · have hn' : (name' == n) = false := by simpa using Ne.symm hn
        by_cases hlt : name' < n
        · simp [put, hn, hlt]
        · simpa [put, hn, hlt, List.lookup_cons, hn'] using ih
    · have h' : (name' == name) = false := by simpa using h
      by_cases hn : n = name
      · subst hn
        simp [put, List.lookup_cons, h, h']
      · by_cases hlt : name < n
        · simp [put, hn, hlt, List.lookup_cons, h, h']
        · simp only [h, if_false] at ih
          simp only [put, hn, hlt, if_false, List.lookup_cons, ih, h]

theorem get?_erase (name name' : String) (slots : Slots E) :
    get? (erase slots name) name' = if name' = name then none else get? slots name' := by
  unfold get? erase
  induction slots with
  | nil => simp
  | cons p slots ih =>
    obtain ⟨n, y⟩ := p
    by_cases hn : n = name
    · subst hn
      by_cases h : name' = n
      · subst h
        simpa using ih
      · have h' : (name' == n) = false := by simpa using h
        simpa [List.lookup_cons, h, h'] using ih
    · by_cases h : name' = name
      · subst h
        have hn' : (name' == n) = false := by simpa using Ne.symm hn
        simpa [hn, List.lookup_cons, hn'] using ih
      · simp only [h, if_false] at ih
        simp only [List.filter_cons, bne_iff_ne, ne_eq, hn, not_false_eq_true, if_true,
          List.lookup_cons, ih, h, if_false]

end Slots

end GovernedSat
