import GovernedSat.Formula

/-!
# Trails

While it searches, a solver keeps the literals which it has made true on a *trail*, the latest
first. A literal on the trail is true, one whose opposite is on the trail is false, and any other is
open. What a trail leaves of a clause decides how the search goes on.

## Main definitions

* `Trail`, `Trail.isTrue`, `Trail.isFalse`, `Trail.isOpen`.
* `Trail.status` — what a trail leaves of a clause.
* `Trail.openCount` — the number of literals of a formula which are open.

## Main results

* `Trail.openCount_lt` — the number falls when an open literal, or its opposite, is made true.
-/

namespace GovernedSat

/-- The literals made true, the latest first. -/
abbrev Trail := List Literal

/-- What a trail leaves of a clause. -/
inductive ClauseStatus where
  /-- Some literal is true. -/
  | satisfied
  /-- Every literal is false. -/
  | conflict
  /-- No literal is true, and a single occurrence of a literal is open. -/
  | unit (l : Literal)
  /-- No literal is true, and more than one occurrence is open. -/
  | undecided
  deriving DecidableEq, Repr

namespace Trail

variable (t : Trail) (l : Literal)

/-- Whether a literal was made true. -/
def isTrue : Bool := l ∈ t

/-- Whether the opposite of a literal was made true. -/
def isFalse : Bool := l ∉ t ∧ -l ∈ t

/-- Whether neither a literal nor its opposite was made true. -/
def isOpen : Bool := l ∉ t ∧ -l ∉ t

/-- What the trail leaves of a clause. Two occurrences of one open literal count as two. -/
def status (c : Clause) : ClauseStatus :=
  if c.any t.isTrue then .satisfied
  else
    match c.filter t.isOpen with
    | [] => .conflict
    | [l] => .unit l
    | _ => .undecided

/-- The number of occurrences of open literals in a formula. -/
def openCount (f : Formula) : Nat := f.flatten.countP t.isOpen

/-! ### Open literals -/

variable {t l}

theorem isOpen_iff : t.isOpen l = true ↔ l ∉ t ∧ -l ∉ t := by simp [isOpen]

theorem isOpen_of_subset {t' : Trail} (h : t ⊆ t') (ho : t'.isOpen l = true) :
    t.isOpen l = true := by
  rw [isOpen_iff] at ho ⊢
  exact ⟨fun hl => ho.1 (h hl), fun hl => ho.2 (h hl)⟩

theorem openCount_le {t' : Trail} (h : t ⊆ t') (f : Formula) : t'.openCount f ≤ t.openCount f :=
  List.countP_mono_left fun _ _ => isOpen_of_subset h

/-- If all of `p` holds where `q` does, and `q` fails somewhere where `p` holds, then `q` holds less
often. -/
theorem countP_lt_countP {α : Type} {p q : α → Bool} {x : α} :
    {as : List α} → (∀ a ∈ as, q a = true → p a = true) → x ∈ as → p x = true → q x = false →
      as.countP q < as.countP p
  | a :: as, h, hx, hp, hq => by
    have hle : as.countP q ≤ as.countP p :=
      List.countP_mono_left fun b hb => h b (List.mem_cons_of_mem _ hb)
    rw [List.countP_cons, List.countP_cons]
    rcases List.mem_cons.mp hx with rfl | hx
    · simp only [hp, hq, Bool.false_eq_true, if_false, if_true]
      omega
    · have ih := countP_lt_countP (fun b hb => h b (List.mem_cons_of_mem _ hb)) hx hp hq
      have ha := h a List.mem_cons_self
      by_cases hqa : q a = true
      · simp only [hqa, ha hqa, if_true]
        omega
      · simp only [hqa, Bool.false_eq_true, if_false]
        omega

theorem openCount_lt {t' : Trail} {f : Formula} (h : t ⊆ t') (hl : l ∈ f.flatten)
    (ho : t.isOpen l = true) (hn : l ∈ t' ∨ -l ∈ t') : t'.openCount f < t.openCount f := by
  refine countP_lt_countP (fun _ _ => isOpen_of_subset h) hl ho ?_
  rw [← Bool.not_eq_true, isOpen_iff]
  rcases hn with hn | hn <;> simp [hn]

/-! ### The status of a clause -/

theorem mem_of_status_eq_unit {c : Clause} (h : t.status c = .unit l) :
    l ∈ c ∧ t.isOpen l = true := by
  unfold status at h
  split at h
  · cases h
  · split at h
    · cases h
    · next heq =>
      cases h
      exact List.mem_filter.mp (heq ▸ List.mem_singleton_self l)
    · cases h

end Trail

end GovernedSat
