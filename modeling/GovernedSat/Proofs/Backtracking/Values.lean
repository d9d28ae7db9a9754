import GovernedSat.Proofs.Backtracking.Calls
import Mathlib.Data.Sign.Defs

/-!
# Propagation and search on a table of values

A table gives each atom the value `1` when it is true, `-1` when it is false, and `0` when it is
open, the entry of an atom being the one at its number. A trail *shows* a table when it has just the
literals in range which are true in the table, and then making an open literal true on the trail
shows what the table becomes when the literal is written there. So what propagation and search make
of any table which has an entry for each atom of the formula can be read off what they do on trails.

## Main definitions

* `ValueTable`, with `ValueTable.valueOf`, `ValueTable.write` and `ValueTable.HoldsOn`.
* `Trail.Shows` — the trails which show a table.
* `Propagation.IsSound`, `PropagatesValues` — what propagation makes of a table.

## Main results

* `ValueTable.shows_trail` — a trail for every table.
* `propagatesValues_of_shows` — propagation is sound, and ends at a fixpoint.
* `search_on_values` — so is every propagation during a search, which finds an open atom to decide
  whenever it has to, writes no entry outside the table, and is nested no deeper than there are
  atoms.
-/

namespace GovernedSat

/-- The values of the atoms, by number. -/
abbrev ValueTable := List SignType

namespace ValueTable

variable {v : ValueTable} {f : Formula} {a : Atom} {l m : Literal} {ls ls' : List Literal}
  {σ : Assignment}

/-- The value of an atom, which is open when it has no entry. -/
def value (v : ValueTable) (a : Atom) : SignType := v.getD a.toNat 0

/-- The value of a literal. -/
def valueOf (v : ValueTable) (l : Literal) : SignType :=
  if l.polarity then v.value l.atom else -v.value l.atom

/-- Makes a literal true. -/
def write (v : ValueTable) (l : Literal) : ValueTable :=
  v.set l.atom.toNat (if l.polarity then 1 else -1)

/-- Makes the literals true in turn. -/
def writeAll (v : ValueTable) (ls : List Literal) : ValueTable := ls.foldl write v

/-- Every atom of the formula has an entry. -/
def Covers (v : ValueTable) (f : Formula) : Prop := ∀ a ∈ f.atoms, a.toNat < v.length

/-- The assignment extends the values. -/
def HoldsOn (v : ValueTable) (σ : Assignment) : Prop :=
  ∀ a, (v.value a = 1 → σ a = true) ∧ (v.value a = -1 → σ a = false)

/-- Some literal of the clause is true. -/
def IsTrue (v : ValueTable) (c : Clause) : Prop := ∃ l ∈ c, v.valueOf l = 1

/-- The number of occurrences of open literals in a clause. -/
def openOccurrences (v : ValueTable) (c : Clause) : Nat := c.countP fun l => v.valueOf l = 0

/-- Each literal is open when its turn comes to be made true. -/
def WritesOpen : ValueTable → List Literal → Prop
  | _, [] => True
  | v, l :: ls => v.valueOf l = 0 ∧ WritesOpen (v.write l) ls

instance (v : ValueTable) (f : Formula) : Decidable (v.Covers f) :=
  List.decidableBAll (fun a : Atom => a.toNat < v.length) f.atoms

/-! ### Writing -/

@[simp] theorem length_write (v : ValueTable) (l : Literal) : (v.write l).length = v.length :=
  List.length_set

@[simp] theorem writeAll_cons : v.writeAll (l :: ls) = (v.write l).writeAll ls := rfl

@[simp] theorem length_writeAll (v : ValueTable) (ls : List Literal) :
    (v.writeAll ls).length = v.length := by
  induction ls generalizing v with
  | nil => rfl
  | cons l ls ih => rw [writeAll_cons, ih, length_write]

theorem value_write : (v.write l).value a =
    if l.atom = a ∧ a.toNat < v.length then if l.polarity then 1 else -1 else v.value a := by
  rw [value, value, write, List.getD_eq_getElem?_getD, List.getD_eq_getElem?_getD,
    List.getElem?_set]
  simp only [UInt32.toNat_inj]
  split_ifs with h₁ h₂ h₃ h₄ <;> simp_all

theorem value_write_of_ne (h : l.atom ≠ a) : (v.write l).value a = v.value a := by
  rw [value_write, if_neg fun h' => h h'.1]

theorem valueOf_write_self (h : l.atom.toNat < v.length) : (v.write l).valueOf l = 1 := by
  have hv : (v.write l).value l.atom = if l.polarity then 1 else -1 := by
    rw [value_write, if_pos ⟨rfl, h⟩]
  rw [valueOf, hv]
  cases l.polarity <;> simp

theorem valueOf_write_of_ne (h : l.atom ≠ m.atom) : (v.write l).valueOf m = v.valueOf m := by
  rw [valueOf, value_write_of_ne h, valueOf]

theorem valueOf_eq_zero_iff : v.valueOf l = 0 ↔ v.value l.atom = 0 := by
  rw [valueOf]
  cases l.polarity <;> cases v.value l.atom <;> decide

/-- The opposite literal has the opposite value. -/
theorem valueOf_neg (h : l.InRange) : v.valueOf (-l) = -v.valueOf l := by
  have hp := Literal.polarity_of_negate? (Literal.negate?_eq_some_neg h) h.1
  rw [valueOf, valueOf, Literal.atom_neg h, hp]
  cases l.polarity <;> simp

/-- Only the entries of open atoms change. -/
theorem getElem?_writeAll (h : v.WritesOpen ls) {i : Nat} (hi : v[i]? ≠ some 0) :
    (v.writeAll ls)[i]? = v[i]? := by
  induction ls generalizing v with
  | nil => rfl
  | cons l ls ih =>
    have hne : ¬ (l.atom.toNat = i ∧ i < v.length) := by
      rintro ⟨rfl, hlt⟩
      have h₀ := valueOf_eq_zero_iff.mp h.1
      rw [value, List.getD_eq_getElem?_getD, List.getElem?_eq_getElem hlt, Option.getD_some] at h₀
      exact hi (by rw [List.getElem?_eq_getElem hlt, h₀])
    have hkept : (v.write l)[i]? = v[i]? := by
      rw [write, List.getElem?_set]
      split_ifs <;> grind
    rw [writeAll_cons, ih h.2 (by rwa [hkept]), hkept]

theorem writesOpen_append :
    v.WritesOpen (ls ++ ls') ↔ v.WritesOpen ls ∧ (v.writeAll ls).WritesOpen ls' := by
  induction ls generalizing v with
  | nil => simp [WritesOpen, writeAll]
  | cons l ls ih => rw [List.cons_append, WritesOpen, WritesOpen, ih, writeAll_cons, and_assoc]

/-! ### Assignments which extend the values -/

theorem HoldsOn.isTrueOn (h : v.HoldsOn σ) (hl : v.valueOf l = 1) : l.IsTrueOn σ := by
  rw [valueOf] at hl
  rw [Literal.IsTrueOn]
  cases hp : l.polarity with
  | true =>
    rw [hp] at hl
    exact (h l.atom).1 hl
  | false =>
    rw [hp] at hl
    exact (h l.atom).2 (neg_eq_iff_eq_neg.mp hl)

/-- A literal which is true on the assignment may be written. -/
theorem HoldsOn.write (h : v.HoldsOn σ) (hl : l.IsTrueOn σ) : (v.write l).HoldsOn σ := by
  intro a
  rw [value_write]
  split_ifs with ha hp
  · rw [← ha.1, hl, hp]
    decide
  · rw [← ha.1, hl, eq_false_of_ne_true hp]
    decide
  · exact h a

theorem HoldsOn.writeAll (h : v.HoldsOn σ) (hls : ∀ l ∈ ls, l.IsTrueOn σ) :
    (v.writeAll ls).HoldsOn σ := by
  induction ls generalizing v with
  | nil => exact h
  | cons l ls ih =>
    rw [List.forall_mem_cons] at hls
    exact ih (h.write hls.1) hls.2

/-! ### Tables for a formula -/

theorem Covers.toNat_lt (h : v.Covers f) (hl : l ∈ f.flatten) : l.atom.toNat < v.length :=
  h l.atom (Formula.atom_mem_atoms hl)

theorem Covers.tail {c : Clause} (h : v.Covers (c :: f)) : v.Covers f :=
  fun a ha => h a (List.mem_append_right _ ha)

theorem Covers.of_length_eq {w : ValueTable} (h : v.Covers f) (hw : w.length = v.length) :
    w.Covers f := by
  intro a ha
  rw [hw]
  exact h a ha

end ValueTable

/-! ### Trails which show a table -/

/-- The trail has just the literals in range which are true. -/
def Trail.Shows (t : Trail) (v : ValueTable) : Prop :=
  ∀ l, l ∈ t ↔ l.InRange ∧ v.valueOf l = 1

/-- A trail which shows the table. -/
def ValueTable.trail (v : ValueTable) : Trail :=
  ((List.range v.length).flatMap fun i =>
    [Literal.positive (.ofNat i), -Literal.positive (.ofNat i)]).filter
      fun l => decide (l.InRange ∧ v.valueOf l = 1)

/-- **Every table is shown by some trail.** -/
theorem ValueTable.shows_trail (v : ValueTable) : v.trail.Shows v := by
  intro l
  rw [trail, List.mem_filter, decide_eq_true_iff, and_iff_right_iff_imp, List.mem_flatMap]
  rintro ⟨-, hv⟩
  have hlt : l.atom.toNat < v.length := by
    refine Nat.lt_of_not_le fun hle => ?_
    have h₀ : v.value l.atom = 0 := by
      rw [value, List.getD_eq_getElem?_getD, List.getElem?_eq_none hle, Option.getD_none]
    rw [ValueTable.valueOf_eq_zero_iff.mpr h₀] at hv
    cases hv
  refine ⟨l.atom.toNat, List.mem_range.mpr hlt, ?_⟩
  rw [UInt32.ofNat_toNat]
  rcases Literal.positive_atom l with h | h <;> simp [h]

namespace Trail.Shows

variable {t : Trail} {v : ValueTable} {f : Formula} {c : Clause} {l : Literal}
  {ls : List Literal} {σ : Assignment}

theorem isOpen_iff (h : t.Shows v) (hl : l.InRange) : t.isOpen l = true ↔ v.valueOf l = 0 := by
  rw [Trail.isOpen_iff, h, h, ValueTable.valueOf_neg hl, and_iff_right hl, and_iff_right hl.neg]
  cases v.valueOf l <;> decide

theorem isTrueOn (h : t.Shows v) (hσ : v.HoldsOn σ) : t.IsTrueOn σ :=
  fun l hl => hσ.isTrueOn ((h l).mp hl).2

theorem consistent (h : t.Shows v) : t.Consistent := by
  intro l hl
  obtain ⟨hr, hl⟩ := (h l).mp hl
  refine ⟨hr, fun hn => ?_⟩
  have hn := ((h (-l)).mp hn).2
  rw [ValueTable.valueOf_neg hr, hl] at hn
  cases hn

/-- **Writing an open literal makes it true on the trail.** -/
theorem cons (h : t.Shows v) (hl : l.InRange) (hlt : l.atom.toNat < v.length)
    (ho : t.isOpen l = true) : Shows (l :: t) (v.write l) := by
  intro m
  rw [List.mem_cons, h m]
  by_cases hatom : l.atom = m.atom
  · have h₀ := (h.isOpen_iff hl).mp ho
    rcases Literal.eq_or_eq_neg_of_atom_eq hatom.symm with rfl | rfl
    · simp [hl, ValueTable.valueOf_write_self hlt]
    · rw [ValueTable.valueOf_neg hl, ValueTable.valueOf_neg hl, h₀,
        ValueTable.valueOf_write_self hlt]
      simp [hl.ne_neg.symm]
  · rw [ValueTable.valueOf_write_of_ne hatom, or_iff_right]
    rintro rfl
    exact hatom rfl

/-- So do literals of the formula, each of which is open when its turn comes. -/
theorem writeAll (h : t.Shows v) (hf : f.InRange) (hv : v.Covers f) (hls : ls ⊆ f.flatten)
    (hw : v.WritesOpen ls) : Shows (ls.reverse ++ t) (v.writeAll ls) := by
  induction ls generalizing t v with
  | nil => exact h
  | cons l ls ih =>
    obtain ⟨hl, hls⟩ := List.cons_subset.mp hls
    have hr := hf.of_mem_flatten hl
    have hcons := h.cons hr (hv.toNat_lt hl) ((h.isOpen_iff hr).mpr hw.1)
    rw [List.reverse_cons, List.append_assoc]
    exact ih hcons (hv.of_length_eq (v.length_write l)) hls hw.2

end Trail.Shows

/-! ### What propagation makes of a table -/

/-- What an outcome of propagation says, given the values before and after it. -/
def Propagation.IsSound (f : Formula) (v v' : ValueTable) : Propagation → Prop
  | .conflict => ∀ σ, v.HoldsOn σ → ¬ f.IsTrueOn σ
  | .satisfied t => t.Shows v' ∧ ∀ c ∈ f, v'.IsTrue c
  | .undecided t => t.Shows v' ∧ (∃ c ∈ f, ¬ v'.IsTrue c) ∧
      (∀ c ∈ f, ¬ v'.IsTrue c → 2 ≤ v'.openOccurrences c) ∧
      ∃ l, decision? f t = some l ∧ v'.value l.atom = 0

/-- What propagation from a trail makes of the table which the trail shows. -/
structure PropagatesValues (f : Formula) (t : Trail) (v : ValueTable) : Prop where
  /-- It ends within one more pass than there are open atoms. -/
  ends : propagateWithin f (t.openAtoms f + 1) t = some (propagate f t)
  /-- Whatever is written has an entry. -/
  inside : ∀ l ∈ propagateMade f t, l.atom.toNat < v.length
  /-- Whatever is written was open. -/
  writesOpen : v.WritesOpen (propagateMade f t)
  /-- Entries other than `0` stay. -/
  keeps : ∀ i : Nat, v[i]? ≠ some 0 → (v.writeAll (propagateMade f t))[i]? = v[i]?
  /-- Whatever is written holds wherever the formula and the values before do. -/
  forced : ∀ σ, v.HoldsOn σ → f.IsTrueOn σ → (v.writeAll (propagateMade f t)).HoldsOn σ
  /-- The outcome is right. -/
  isSound : (propagate f t).IsSound f v (v.writeAll (propagateMade f t))

section Propagation

variable {f : Formula} {t : Trail} {v : ValueTable}

/-- **A pass writes only where the table is open**, although it has looked at the clauses before on
older values. -/
theorem writesOpen_passMade {p : Pass} (hf : f.InRange) (hv : v.Covers f) (h : p.trail.Shows v) :
    v.WritesOpen (passMade f p) := by
  induction f, p using passMade.induct generalizing v with
  | case1 p => trivial
  | case2 c f p hs ih =>
    rw [passMade, hs]
    exact ih (Formula.inRange_cons.mp hf).2 hv.tail h
  | case3 c f p hs =>
    rw [passMade, hs]
    trivial
  | case4 c f p l hs ih =>
    rw [passMade, hs]
    -- The clause is judged on the trail as it is now, which shows what was written before.
    obtain ⟨hl, ho⟩ := Trail.mem_of_status_eq_unit hs
    have hr := (Formula.inRange_cons.mp hf).1 l hl
    have hlt := hv.toNat_lt (List.mem_append_left _ hl)
    have hv' : (v.write l).Covers f := hv.tail.of_length_eq (v.length_write l)
    exact ⟨(h.isOpen_iff hr).mp ho, ih (Formula.inRange_cons.mp hf).2 hv' (h.cons hr hlt ho)⟩
  | case5 c f p hs ih =>
    rw [passMade, hs]
    exact ih (Formula.inRange_cons.mp hf).2 hv.tail h

/-- So does propagation, as the trail which a pass leaves shows the table which it leaves. -/
theorem writesOpen_propagateMade (hf : f.InRange) (hv : v.Covers f) (h : t.Shows v) :
    v.WritesOpen (propagateMade f t) := by
  have hpass : ∀ {t : Trail} {v : ValueTable}, v.Covers f → t.Shows v →
      v.WritesOpen (passMade f { trail := t }) := fun hv h => writesOpen_passMade hf hv h
  induction t using propagateMade.induct f generalizing v with
  | case1 t hp
  | case2 t q hp hq
  | case4 t q hp hn hc =>
    have hmade := hpass hv h
    grind [propagateMade]
  | case3 t q hp hn hc ih =>
    have hshows : q.trail.Shows (v.writeAll (passMade f { trail := t })) := by
      rw [trail_of_pass hp]
      exact h.writeAll hf hv (fun l => mem_flatten_of_mem_passMade) (hpass hv h)
    have hmade : propagateMade f t = passMade f { trail := t } ++ propagateMade f q.trail := by
      grind [propagateMade]
    rw [hmade, ValueTable.writesOpen_append]
    exact ⟨hpass hv h, ih (hv.of_length_eq (v.length_writeAll _)) hshows⟩

/-- The trail which propagation leaves shows the table which it leaves. -/
theorem shows_of_propagate {t' : Trail} (hf : f.InRange) (hv : v.Covers f) (h : t.Shows v)
    (hp : propagate f t = .satisfied t' ∨ propagate f t = .undecided t') :
    t'.Shows (v.writeAll (propagateMade f t)) := by
  rw [trail_of_propagate hp]
  exact h.writeAll hf hv (fun l => mem_flatten_of_mem_propagateMade)
    (writesOpen_propagateMade hf hv h)

theorem Trail.Shows.openOccurrences_eq {c : Clause} (h : t.Shows v) (hc : c.InRange) :
    v.openOccurrences c = (c.filter t.isOpen).length := by
  rw [ValueTable.openOccurrences, ← List.countP_eq_length_filter]
  refine List.countP_congr fun l hl => ?_
  rw [h.isOpen_iff (hc l hl), decide_eq_true_iff]

theorem Trail.Shows.isTrue_iff {c : Clause} (h : t.Shows v) (hc : c.InRange) :
    v.IsTrue c ↔ t.status c = .satisfied := by
  rw [status_eq_satisfied_iff]
  refine exists_congr fun l => and_congr_right fun hl => ?_
  rw [h l, and_iff_right (hc l hl)]

/-- **Propagation is sound, and it ends at a fixpoint.** -/
theorem propagatesValues_of_shows (hf : f.InRange) (hv : v.Covers f) (h : t.Shows v) :
    PropagatesValues f t v where
  ends := propagateWithin_eq_some (Nat.lt_succ_self _)
  inside l hl := hv.toNat_lt (mem_flatten_of_mem_propagateMade hl)
  writesOpen := writesOpen_propagateMade hf hv h
  keeps i hi := ValueTable.getElem?_writeAll (writesOpen_propagateMade hf hv h) hi
  forced σ hσ hfσ := by
    -- Whatever is written is on the trail in the end, unless there is a conflict.
    have ht := h.isTrueOn hσ
    refine hσ.writeAll fun l hl => ?_
    have hmade : ∀ {t'}, Trail.Derives f t t' →
        t' = (propagateMade f t).reverse ++ t → l.IsTrueOn σ := fun hd he =>
      hd.isTrueOn hfσ ht l (he ▸ List.mem_append_left _ (List.mem_reverse.mpr hl))
    cases hp : propagate f t with
    | conflict => exact absurd hfσ (not_isTrueOn_of_propagate hf hp ht)
    | satisfied t' =>
      exact hmade (derives_of_propagate_satisfied hf hp).1 (trail_of_propagate (.inl hp))
    | undecided t' =>
      exact hmade (derives_of_propagate_undecided hf hp).1 (trail_of_propagate (.inr hp))
  isSound := by
    cases hp : propagate f t with
    | conflict => exact fun σ hσ => not_isTrueOn_of_propagate hf hp (h.isTrueOn hσ)
    | satisfied t' =>
      have hshows := shows_of_propagate hf hv h (.inl hp)
      obtain ⟨-, hsat⟩ := derives_of_propagate_satisfied hf hp
      exact ⟨hshows, fun c hc =>
        (hshows.isTrue_iff (hf c hc)).mpr (Trail.status_eq_satisfied_iff.mpr (hsat c hc))⟩
    | undecided t' =>
      have hshows := shows_of_propagate hf hv h (.inr hp)
      obtain ⟨-, hall, hex⟩ := derives_of_propagate_undecided hf hp
      obtain ⟨l, hl⟩ := exists_decision? hall hex
      obtain ⟨hm, ho⟩ := decision?_eq_some hl
      have hopen : ∀ c ∈ f, ¬ (v.writeAll (propagateMade f t)).IsTrue c →
          t'.status c = .undecided := fun c hc hn =>
        (hall c hc).resolve_left fun hs => hn ((hshows.isTrue_iff (hf c hc)).mpr hs)
      refine ⟨hshows, ?_, fun c hc hn => ?_, l, hl, ?_⟩
      · obtain ⟨c, hc, hu⟩ := hex
        refine ⟨c, hc, fun hs => ?_⟩
        rw [(hshows.isTrue_iff (hf c hc)).mp hs] at hu
        cases hu
      · rw [hshows.openOccurrences_eq (hf c hc)]
        exact Trail.two_le_length_of_undecided (hopen c hc hn)
      · exact ValueTable.valueOf_eq_zero_iff.mp
          ((hshows.isOpen_iff (hf.of_mem_flatten hm)).mp ho)

end Propagation

/-! ### What a search makes of a table -/

/-- The trail of every call of a search shows some table of the same length. -/
theorem exists_shows_of_mem_searchCalls {σ : Type} {f : Formula} {t : Trail} {v : ValueTable}
    {poll : Option (StateM σ Bool)} {e : Effort σ} {d : Nat} (hf : f.InRange) (hv : v.Covers f)
    (h : t.Shows v) : ∀ x ∈ searchCalls f poll d t e,
      ∃ w : ValueTable, w.length = v.length ∧ x.trail.Shows w := by
  refine forall_mem_searchCalls
    (P := fun _ s => ∃ w : ValueTable, w.length = v.length ∧ s.Shows w) ?_ ⟨v, rfl, h⟩
  rintro - s s' l m ⟨w, hw, hs⟩ hp hl hm
  have hwf := hv.of_length_eq hw
  have hs' := shows_of_propagate hf hwf hs (.inr hp)
  obtain ⟨hr, ho⟩ := isOpen_positive_of_decision? hf hl
  have hlt : (Literal.positive l.atom).atom.toNat < (w.writeAll (propagateMade f s)).length := by
    rw [Literal.atom_positive_atom, ValueTable.length_writeAll]
    exact hwf.toNat_lt (decision?_eq_some hl).1
  refine ⟨(w.writeAll (propagateMade f s)).write m, ?_, ?_⟩
  · rw [ValueTable.length_write, ValueTable.length_writeAll, hw]
  · rcases hm with rfl | rfl
    · exact hs'.cons hr hlt ho
    · exact hs'.cons hr.neg (Literal.atom_neg hr ▸ hlt) (Trail.isOpen_neg.trans ho)

/-- What a search from a trail makes of the table which the trail shows. -/
structure SearchesValues {σ : Type} (f : Formula) (poll : Option (StateM σ Bool)) (t : Trail)
    (e : Effort σ) (v : ValueTable) : Prop where
  /-- It ends, and every literal to be made true was in range. -/
  ends : (search f poll t e).1 ≠ .overflow
  /-- Whatever is written, on branches which are given up too, has an entry. -/
  inside : ∀ l ∈ searchMade f poll t e, l.atom.toNat < v.length
  /-- Its calls are its steps. -/
  counted : (search f poll t e).2.steps = e.steps + (searchCalls f poll 1 t e).length
  /-- The calls are nested at most one deeper than there are atoms. -/
  shallow : ∀ x ∈ searchCalls f poll 1 t e, x.depth ≤ f.atoms.dedup.length + 1
  /-- Every call propagates from a trail which shows a table of the same length. -/
  propagates : ∀ x ∈ searchCalls f poll 1 t e, ∃ w : ValueTable,
    w.length = v.length ∧ x.trail.Shows w ∧ PropagatesValues f x.trail w

/-- **Propagation reaches a sound fixpoint, and the search ends.** Every table which covers a
formula in range is shown by a trail. On any such trail propagation is sound for the table, and so
it is in every call of a search from there, so that an open atom is decided whenever clauses are
left open. -/
theorem search_on_values {σ : Type} {f : Formula} (hf : f.InRange) {v : ValueTable}
    (hv : v.Covers f) :
    (∃ t : Trail, t.Shows v) ∧
      ∀ (t : Trail) (poll : Option (StateM σ Bool)) (e : Effort σ), t.Shows v →
        PropagatesValues f t v ∧ SearchesValues f poll t e v := by
  refine ⟨⟨v.trail, v.shows_trail⟩, fun t poll e h => ⟨propagatesValues_of_shows hf hv h, ?_⟩⟩
  have hends : (search f poll t e).1 ≠ .overflow := fun hr => by
    have hcorrect := isCorrect_search poll e hf h.consistent
    rw [hr] at hcorrect
    exact hcorrect
  have hshallow : ∀ x ∈ searchCalls f poll 1 t e, x.depth ≤ f.atoms.dedup.length + 1 := by
    intro x hx
    have hdepth := depth_le_of_mem_searchCalls x hx
    have hatoms := t.openAtoms_le_length f
    omega
  refine ⟨hends, fun l hl => hv _ (atom_mem_atoms_of_mem_searchMade t l hl), steps_search t e,
    hshallow, fun x hx => ?_⟩
  obtain ⟨w, hw, hs⟩ := exists_shows_of_mem_searchCalls hf hv h x hx
  exact ⟨w, hw, hs, propagatesValues_of_shows hf (hv.of_length_eq hw) hs⟩

/-- Where `2` is false from the start, two passes make `1` false and `3` true, and the third leaves
a clause with two open literals. -/
theorem search_on_values_preset :
    Formula.InRange [[1, 2, 3], [-1, 2], [4, 5]] ∧
      ValueTable.Covers [0, 0, -1, 0, 0, 0] [[1, 2, 3], [-1, 2], [4, 5]] ∧
      Trail.Shows [-2] [0, 0, -1, 0, 0, 0] ∧
      PropagatesValues [[1, 2, 3], [-1, 2], [4, 5]] [-2] [0, 0, -1, 0, 0, 0] ∧
      propagate [[1, 2, 3], [-1, 2], [4, 5]] [-2] = .undecided [3, -1, -2] ∧
      SearchesValues [[1, 2, 3], [-1, 2], [4, 5]] none [-2] { steps := 0, state := () }
        [0, 0, -1, 0, 0, 0] := by
  have hf : Formula.InRange [[1, 2, 3], [-1, 2], [4, 5]] := by decide
  have hv : ValueTable.Covers [0, 0, -1, 0, 0, 0] [[1, 2, 3], [-1, 2], [4, 5]] := by decide
  have htrail : ValueTable.trail [0, 0, -1, 0, 0, 0] = [-2] := by decide
  have hshows : Trail.Shows [-2] [0, 0, -1, 0, 0, 0] := htrail ▸ ValueTable.shows_trail _
  have hwithin : propagateWithin [[1, 2, 3], [-1, 2], [4, 5]]
      (Trail.openAtoms [-2] [[1, 2, 3], [-1, 2], [4, 5]] + 1) [-2] =
        some (.undecided [3, -1, -2]) := by decide
  obtain ⟨hprop, hsearch⟩ :=
    (search_on_values (σ := Unit) hf hv).2 [-2] none { steps := 0, state := () } hshows
  exact ⟨hf, hv, hshows, hprop, Option.some.inj (hprop.ends.symm.trans hwithin), hsearch⟩

end GovernedSat
