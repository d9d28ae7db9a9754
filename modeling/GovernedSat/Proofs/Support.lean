import GovernedSat.Proofs.Restriction

/-!
# Supports of models

A set of inputs *supports* a model when every clause has a literal true on the model of which the
atom is in the set, or is no input: keeping the values of these inputs, and those of all other
atoms, keeps the clauses true. The restriction of a model to a minimal support is what remains of
the model as an implicant. When all atoms are inputs, every assignment which makes it true is a
model; when in addition no clause has an atom in both polarities, no literal of it can be dropped.

## Main definitions

* `Formula.SupportedBy`, `Formula.IsMinimalSupport` — supports, and the minimal ones.
* `Formula.IsPrimeImplicant` — implicants of which no literal can be dropped.
* `IsSupportCover` — lists of implicants which cover all models.

## Main results

* `Formula.IsMinimalSupport.isPrimeImplicant` — the implicant of a minimal support is prime.
* `IsSupportCover.cons` — an implicant found, before those which are left when it is blocked.
* `IsSupportCover.pairwise` — prime implicants of a cover are incomparable.
-/

namespace GovernedSat

variable {f g : Formula} {inputs T U : List Atom} {σ τ : Assignment} {t : Clause}
  {implicants : List Clause}

/-- No atom occurs in both polarities. -/
def Clause.TautologyFree (c : Clause) : Prop := ∀ l ∈ c, -l ∉ c

instance (c : Clause) : Decidable (Clause.TautologyFree c) := List.decidableBAll (-· ∉ c) c

/-! ### Supports -/

namespace Formula

/-- Every clause has a literal true on the assignment of which the atom is in the set, or is no
input. -/
def SupportedBy (f : Formula) (inputs : List Atom) (σ : Assignment) (T : List Atom) : Prop :=
  ∀ c ∈ f, ∃ l ∈ c, Literal.IsTrueOn l σ ∧ (l.atom ∈ T ∨ l.atom ∉ inputs)

/-- A support of which no proper part is a support. -/
structure IsMinimalSupport (f : Formula) (inputs : List Atom) (σ : Assignment) (T : List Atom) :
    Prop where
  /-- The set supports the assignment. -/
  supported : f.SupportedBy inputs σ T
  /-- The whole set is needed. -/
  minimal : ∀ U ⊆ T, f.SupportedBy inputs σ U → T ⊆ U

/-- Every assignment which makes the literals true is a model, and whichever literal is dropped,
some assignment which makes the others true is not. -/
structure IsPrimeImplicant (f : Formula) (t : Clause) : Prop where
  /-- The literals imply the formula. -/
  implies : ∀ σ : Assignment, (∀ l ∈ t, l.IsTrueOn σ) → f.IsTrueOn σ
  /-- No literal can be dropped. -/
  prime : ∀ l ∈ t, ∃ σ : Assignment, (∀ m ∈ t, m ≠ l → m.IsTrueOn σ) ∧ ¬ f.IsTrueOn σ

/-- No clause has an atom in both polarities. -/
def TautologyFree (f : Formula) : Prop := ∀ c ∈ f, Clause.TautologyFree c

instance (f : Formula) : Decidable f.TautologyFree := List.decidableBAll Clause.TautologyFree f

/-- When all atoms are inputs, whatever agrees with the assignment on a support is a model. -/
theorem SupportedBy.isTrueOn (h : f.SupportedBy inputs σ T) (hI : ∀ a ∈ f.atoms, a ∈ inputs)
    (hτ : ∀ a ∈ T, τ a = σ a) : f.IsTrueOn τ := by
  intro c hc
  obtain ⟨l, hl, ht, hT | hn⟩ := h c hc
  · exact ⟨l, hl, (hτ _ hT).trans ht⟩
  · exact absurd (hI _ (mem_atoms.mpr ⟨c, hc, l, hl, rfl⟩)) hn

/-- Outside a set of atoms which is no support, values can be given which make some clause false,
as long as this clause has no atom in both polarities. -/
theorem exists_not_isTrueOn_of_not_supportedBy (hf : f.InRange) (ht : f.TautologyFree)
    (h : ¬ f.SupportedBy inputs σ U) :
    ∃ τ : Assignment, (∀ a ∈ U, τ a = σ a) ∧ ¬ f.IsTrueOn τ := by
  unfold SupportedBy at h
  push Not at h
  obtain ⟨c, hc, hno⟩ := h
  refine ⟨fun a => if a ∈ U then σ a else decide (Literal.positive a ∉ c), fun a ha => if_pos ha,
    fun hτ => ?_⟩
  obtain ⟨l, hl, htrue⟩ := hτ c hc
  have hr := hf c hc l hl
  simp only [Literal.IsTrueOn] at htrue
  split_ifs at htrue with hU
  · exact (hno l hl htrue).1 hU
  · -- The atom was given the value which makes the only literal of it in the clause false.
    have hs := hr.signed_atom_polarity
    cases hp : Literal.polarity l with
    | true =>
      rw [hp, Literal.signed_true] at hs
      rw [hp, hs] at htrue
      exact of_decide_eq_true htrue hl
    | false =>
      rw [hp, Literal.signed_false] at hs
      rw [hp] at htrue
      refine of_decide_eq_false htrue fun hmem => ht c hc l hl ?_
      rwa [← hs, Int32.neg_neg]

/-- **The implicant of a minimal support is prime** when all atoms are inputs and no clause has an
atom in both polarities. -/
theorem IsMinimalSupport.isPrimeImplicant (h : f.IsMinimalSupport inputs σ T) (hf : f.InRange)
    (hI : ∀ a ∈ f.atoms, a ∈ inputs) (ht : f.TautologyFree) (hT : ∀ a ∈ T, a.InRange) :
    f.IsPrimeImplicant (σ.restrict T) := by
  refine ⟨fun τ hτ => ?_, fun l hl => ?_⟩
  · exact h.supported.isTrueOn hI ((Assignment.forall_isTrueOn_restrict hT).mp hτ)
  · obtain ⟨a, ha, rfl⟩ := List.mem_map.mp hl
    have hno : ¬ f.SupportedBy inputs σ (T.filter (· ≠ a)) := by
      intro hs
      have hmem := h.minimal _ List.filter_sublist.subset hs ha
      simp at hmem
    obtain ⟨τ, hτ, hfalse⟩ := exists_not_isTrueOn_of_not_supportedBy hf ht hno
    refine ⟨τ, fun m hm hne => ?_, hfalse⟩
    obtain ⟨b, hb, rfl⟩ := List.mem_map.mp hm
    have hba : b ≠ a := fun he => hne (by rw [he])
    exact (hT b hb).isTrueOn_signed.mpr (hτ b (List.mem_filter.mpr ⟨hb, by simpa using hba⟩))

/-- A part of the implicant which still supports the model is the whole of it. -/
theorem IsMinimalSupport.restrict_subset (h : f.IsMinimalSupport inputs σ T)
    (hT : ∀ a ∈ T, a.InRange) {u : Clause} (hu : u ⊆ σ.restrict T)
    (hs : f.SupportedBy inputs σ (u.map Literal.atom)) : σ.restrict T ⊆ u := by
  have hatom : ∀ l ∈ u, ∃ a ∈ T, l = Literal.signed a (σ a) ∧ l.atom = a := by
    intro l hl
    obtain ⟨a, ha, rfl⟩ := List.mem_map.mp (hu hl)
    exact ⟨a, ha, rfl, (hT a ha).atom_signed⟩
  have hTu : T ⊆ u.map Literal.atom := by
    refine h.minimal _ (fun a ha => ?_) hs
    obtain ⟨l, hl, rfl⟩ := List.mem_map.mp ha
    obtain ⟨b, hb, -, he⟩ := hatom l hl
    exact he ▸ hb
  intro l hl
  obtain ⟨a, ha, rfl⟩ := List.mem_map.mp hl
  obtain ⟨m, hm, rfl⟩ := List.mem_map.mp (hTu ha)
  obtain ⟨b, -, he, hb⟩ := hatom m hm
  rwa [hb, ← he]

end Formula

/-! ### Covers -/

/-- Each implicant is the restriction of a model of `g` to a minimal support of it as a model of
`f`, each model of `g` makes some implicant true, and no implicant is contained in a later one. -/
structure IsSupportCover (implicants : List Clause) (f g : Formula) (inputs : List Atom) :
    Prop where
  /-- Every implicant comes from a minimal support of a model. -/
  support : ∀ t ∈ implicants, ∃ (σ : Assignment) (T : List Atom), g.IsTrueOn σ ∧ T ⊆ inputs ∧
    f.IsMinimalSupport inputs σ T ∧ t = σ.restrict T
  /-- Every model makes some implicant true. -/
  cover : ∀ σ : Assignment, g.IsTrueOn σ → ∃ t ∈ implicants, ∀ l ∈ t, l.IsTrueOn σ
  /-- No implicant is contained in a later one. -/
  notSubset : implicants.Pairwise fun t u => ¬ t ⊆ u

namespace IsSupportCover

theorem nil (h : ∀ σ : Assignment, ¬ g.IsTrueOn σ) : IsSupportCover [] f g inputs :=
  ⟨nofun, fun σ hσ => absurd hσ (h σ), .nil⟩

/-- An implicant found comes before those which are left when it is blocked. -/
theorem cons (hi : ∀ a ∈ inputs, a.InRange) (hσ : g.IsTrueOn σ) (hT : T ⊆ inputs)
    (hmin : f.IsMinimalSupport inputs σ T)
    (h : IsSupportCover implicants f (g ++ [(σ.restrict T).map (-·)]) inputs) :
    IsSupportCover (σ.restrict T :: implicants) f g inputs := by
  have hTr : ∀ a ∈ T, a.InRange := fun a ha => hi a (hT ha)
  refine ⟨fun t ht => ?_, fun τ hτ => ?_, List.pairwise_cons.mpr ⟨fun u hu hsub => ?_, h.notSubset⟩⟩
  · rcases List.mem_cons.mp ht with rfl | ht
    · exact ⟨σ, T, hσ, hT, hmin, rfl⟩
    · obtain ⟨τ, U, hτ, hU⟩ := h.support t ht
      exact ⟨τ, U, ((Formula.isTrueOn_block_iff hTr).mp hτ).1, hU⟩
  · by_cases he : ∀ a ∈ T, τ a = σ a
    · exact ⟨_, List.mem_cons_self, (Assignment.forall_isTrueOn_restrict hTr).mpr he⟩
    · obtain ⟨t, ht, htrue⟩ := h.cover τ ((Formula.isTrueOn_block_iff hTr).mpr ⟨hτ, he⟩)
      exact ⟨t, List.mem_cons_of_mem _ ht, htrue⟩
  · -- The model from which the later one comes makes this one false.
    obtain ⟨τ, U, hτ, hU, -, rfl⟩ := h.support u hu
    refine ((Formula.isTrueOn_block_iff hTr).mp hτ).2 ?_
    rw [← Assignment.forall_isTrueOn_restrict hTr]
    intro l hl
    exact (Assignment.forall_isTrueOn_restrict fun a ha => hi a (hU ha)).mpr (fun _ _ => rfl) l
      (hsub hl)

/-- **Prime implicants of a cover are incomparable**: a later one in an earlier one would leave a
literal of the earlier one to be dropped. -/
theorem pairwise (h : IsSupportCover implicants f g inputs)
    (hp : ∀ t ∈ implicants, f.IsPrimeImplicant t) :
    implicants.Pairwise fun t u => ¬ t ⊆ u ∧ ¬ u ⊆ t := by
  refine h.notSubset.imp_of_mem fun {t u} ht hu hn => ⟨hn, fun hsub => ?_⟩
  obtain ⟨l, hl, hlu⟩ : ∃ l ∈ t, l ∉ u := by
    by_contra hall
    push Not at hall
    exact hn hall
  obtain ⟨τ, hτ, hfalse⟩ := (hp t ht).prime l hl
  refine hfalse ((hp u hu).implies τ fun m hm => hτ m (hsub hm) ?_)
  rintro rfl
  exact hlu hm

end IsSupportCover

end GovernedSat
