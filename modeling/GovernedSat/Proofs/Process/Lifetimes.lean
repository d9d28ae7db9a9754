import GovernedSat.Proofs.Governor.Moves
import GovernedSat.Proofs.Solver.Calls
import Mathlib.Data.List.Induction
import Mathlib.Tactic.SplitIfs

/-!
# The lifetimes of solvers

Solvers are numbered in the order in which they are made, and a call other than the one by which a
solver is made is to the solver made last of those alive. A journal whose calls are *orderly* in
this sense is a nest of lifetimes: once no solver is alive any more, every solver made was released
once, all its other calls lie in between, and a solver made while another one was alive is released
before the next call to the other.

A process stays *in order* under a computation which makes orderly calls and keeps count of the
solvers alive, whatever else it does.

## Main definitions

* `IsOrderly` — orderly calls, with so many solvers alive at most.
* `IsBalanced` — every solver made is released once and called only in between.
* `InOrder` — processes in which orderly calls were made since another one.
* `IsSettled` — processes in which this is so once certain solvers are released.
* `Process.Mute` — changes of a process which make no call.

## Main results

* `IsOrderly.isBalanced` — orderly calls are balanced once no solver is alive.
* `InOrder.make`, `InOrder.use`, `InOrder.release` — the steps of a process in order.
* `AdmitsNoting.mute` — governors, signals, polls and checkpoints make no call.
-/

namespace GovernedSat

open Process

/-! ### Orderly calls -/

/-- Whether a solver is made by the call. -/
def Call.isInit : Call → Bool
  | init _ => true
  | clause .. | assume .. | solve _ | release _ => false

/-- The number of solvers made in the course of some calls. -/
def solversMade (calls : List Call) : Nat := calls.countP Call.isInit

/-- After some calls, where the next solver gets the number after `first` and those made since, the
call makes this solver while fewer than `most` are alive, or is to the solver made last of those
alive. -/
def Call.IsNext (first most : Nat) (before : List Call) (c : Call) : Prop :=
  (c = .init (first + solversMade before + 1) ∧ (aliveSolvers before).length < most) ∨
    (c.isInit = false ∧ (aliveSolvers before).head? = some c.id)

/-- Each call is as it may be after the calls before it. -/
def IsOrderly (first most : Nat) (calls : List Call) : Prop :=
  ∀ before c after, calls = before ++ c :: after → c.IsNext first most before

/-- Every solver made in the course of the calls is released once and called only in between, at
most `most` of them being alive at a time. -/
structure IsBalanced (most : Nat) (calls : List Call) : Prop where
  /-- A solver which is made is made once and released once. -/
  once : ∀ i, .init i ∈ calls → calls.count (.init i) = 1 ∧ calls.count (.release i) = 1
  /-- Every call to a solver comes after it was made, unless it is made by the call, and before it
  is released, unless it is released by the call. -/
  between : ∀ before c after, calls = before ++ c :: after →
    (c = .init c.id ∨ .init c.id ∈ before) ∧ (c = .release c.id ∨ .release c.id ∈ after)
  /-- A solver made while another one was alive is released before the next call to the other. -/
  nested : ∀ before i inside c after, calls = before ++ .init i :: (inside ++ c :: after) →
    .init c.id ∈ before → .release i ∈ inside
  /-- The number of solvers alive at a time. -/
  alive_le : ∀ before, before <+: calls → (aliveSolvers before).length ≤ most

section Calls

variable {first most i : Nat} {calls before : List Call} {c : Call}

theorem solversMade_concat (calls : List Call) (c : Call) :
    solversMade (calls ++ [c]) = solversMade calls + if c.isInit then 1 else 0 := by
  rw [solversMade, List.countP_append, List.countP_singleton]
  rfl

theorem isOrderly_nil : IsOrderly first most [] := by
  intro before c after h
  simp at h

theorem isOrderly_concat :
    IsOrderly first most (calls ++ [c]) ↔
      IsOrderly first most calls ∧ c.IsNext first most calls := by
  constructor
  · intro h
    refine ⟨fun before d after hs => h before d (after ++ [c]) ?_, h calls c [] rfl⟩
    rw [hs]
    simp
  · rintro ⟨h, hc⟩ before d after hs
    rcases List.eq_nil_or_concat after with rfl | ⟨after, e, rfl⟩
    · obtain ⟨rfl, he⟩ := List.append_inj' hs rfl
      cases he
      exact hc
    · rw [List.concat_eq_append, ← List.cons_append, ← List.append_assoc] at hs
      exact h before d after (List.append_inj' hs rfl).1

namespace IsOrderly

theorem of_append {after : List Call} (h : IsOrderly first most (before ++ after)) :
    IsOrderly first most before := by
  intro a c b hs
  refine h a c (b ++ after) ?_
  rw [hs, List.append_assoc, List.cons_append]

/-- The solvers alive are among those made, and those made later come first. -/
theorem sorted (h : IsOrderly first most calls) :
    (aliveSolvers calls).Pairwise (· > ·) ∧
      ∀ i ∈ aliveSolvers calls, i ≤ first + solversMade calls := by
  induction calls using List.reverseRecOn with
  | nil => exact ⟨.nil, nofun⟩
  | append_singleton calls c ih =>
    obtain ⟨h, hc⟩ := isOrderly_concat.mp h
    obtain ⟨hs, hle⟩ := ih h
    rw [aliveSolvers_concat, solversMade_concat]
    rcases hc with ⟨rfl, -⟩ | ⟨hc, -⟩
    · refine ⟨List.pairwise_cons.mpr ⟨fun i hi => ?_, hs⟩, ?_⟩
      · have := hle i hi
        omega
      · refine List.forall_mem_cons.mpr ⟨?_, fun i hi => ?_⟩
        · exact Nat.le_of_eq (Nat.add_assoc first (solversMade calls) 1)
        · have := hle i hi
          omega
    · have hsub : (c.track (aliveSolvers calls)).Sublist (aliveSolvers calls) := by
        cases c with
        | init i => cases hc
        | release i => exact List.erase_sublist
        | _ => exact List.Sublist.refl _
      refine ⟨hs.sublist hsub, fun i hi => ?_⟩
      have := hle i (hsub.subset hi)
      omega

/-- The solvers made are numbered without gaps. -/
theorem count_init (h : IsOrderly first most calls) (i : Nat) :
    calls.count (.init i) = if first < i ∧ i ≤ first + solversMade calls then 1 else 0 := by
  induction calls using List.reverseRecOn with
  | nil =>
    rw [if_neg]
    · rfl
    · rintro ⟨hlt, hle⟩
      exact absurd (Nat.lt_of_lt_of_le hlt hle) (Nat.lt_irrefl _)
  | append_singleton calls c ih =>
    obtain ⟨h, hc⟩ := isOrderly_concat.mp h
    have ih := ih h
    rw [List.count_append, ih, solversMade_concat, List.count_singleton]
    rcases hc with ⟨rfl, -⟩ | ⟨hc, -⟩
    · have hinit : (Call.init (first + solversMade calls + 1) == Call.init i) = true ↔
          first + solversMade calls + 1 = i := by rw [beq_iff_eq, Call.init.injEq]
      simp only [hinit, Call.isInit, if_true]
      split_ifs <;> omega
    · have hinit : (c == Call.init i) = false := by
        cases c with
        | init j => cases hc
        | _ => rfl
      simp [hinit, hc]

theorem count_init_le (h : IsOrderly first most calls) (i : Nat) : calls.count (.init i) ≤ 1 := by
  rw [h.count_init]
  split_ifs <;> omega

/-- A solver made is either alive or was released. -/
theorem count_release (h : IsOrderly first most calls) (i : Nat) :
    calls.count (.release i) + (aliveSolvers calls).count i = calls.count (.init i) := by
  induction calls using List.reverseRecOn with
  | nil => rfl
  | append_singleton calls c ih =>
    obtain ⟨h, hc⟩ := isOrderly_concat.mp h
    have ih := ih h
    rw [aliveSolvers_concat, List.count_append, List.count_append, ← ih]
    rcases hc with ⟨rfl, -⟩ | ⟨hc, hhead⟩
    · simp [Call.track, List.count_cons]
      omega
    · cases c with
      | init j => cases hc
      | release j =>
        obtain ⟨rest, hrest⟩ : ∃ rest, aliveSolvers calls = j :: rest := by
          cases halive : aliveSolvers calls with
          | nil => simp [halive] at hhead
          | cons k rest =>
            simp only [halive, List.head?_cons, Option.some.injEq, Call.id] at hhead
            exact ⟨rest, by rw [hhead]⟩
        rw [hrest, Call.track, List.erase_cons_head, List.count_cons]
        by_cases hj : j = i
        · simp [hj]
          omega
        · simp [hj]
      | _ => simp [Call.track]

theorem mem_alive_iff (h : IsOrderly first most calls) :
    i ∈ aliveSolvers calls ↔ .init i ∈ calls ∧ .release i ∉ calls := by
  have hle := h.count_init_le i
  have hcount := h.count_release i
  simp only [← List.count_pos_iff] at *
  omega

theorem alive_length_le (h : IsOrderly first most calls) : (aliveSolvers calls).length ≤ most := by
  induction calls using List.reverseRecOn with
  | nil => exact Nat.zero_le most
  | append_singleton calls c ih =>
    obtain ⟨h, hc⟩ := isOrderly_concat.mp h
    have ih := ih h
    rw [aliveSolvers_concat]
    rcases hc with ⟨rfl, hroom⟩ | ⟨hc, -⟩
    · exact hroom
    · cases c with
      | init i => cases hc
      | release i => exact Nat.le_trans List.erase_sublist.length_le ih
      | _ => exact ih

/-- A call other than the one by which its solver is made is to a solver alive. -/
theorem isNext_cases {after : List Call} (h : IsOrderly first most (before ++ c :: after)) :
    c = .init c.id ∧ .init c.id ∉ before ∨
      c.isInit = false ∧ (aliveSolvers before).head? = some c.id := by
  rcases h before c after rfl with ⟨hc, -⟩ | hc
  · refine .inl ⟨by rw [hc]; rfl, fun hmem => ?_⟩
    have hle := h.count_init_le c.id
    have hpos := List.count_pos_iff.mpr hmem
    rw [List.count_append, List.count_cons, hc] at hle
    simp only [hc, Call.id, BEq.rfl, if_true] at hle hpos
    omega
  · exact .inr hc

/-- The solvers alive are released, the latest first. -/
theorem append_release {held : List Nat} (h : IsOrderly first most calls)
    (ha : aliveSolvers calls = held) :
    IsOrderly first most (calls ++ held.map Call.release) ∧
      aliveSolvers (calls ++ held.map Call.release) = [] := by
  induction held generalizing calls with
  | nil =>
    rw [List.map_nil, List.append_nil]
    exact ⟨h, ha⟩
  | cons i held ih =>
    have h' : IsOrderly first most (calls ++ [.release i]) :=
      isOrderly_concat.mpr ⟨h, .inr ⟨rfl, by rw [ha]; rfl⟩⟩
    have ha' : aliveSolvers (calls ++ [.release i]) = held := by
      rw [aliveSolvers_concat, ha]
      exact List.erase_cons_head i held
    rw [List.map_cons, List.append_cons]
    exact ih h' ha'

/-- **Orderly calls are balanced once no solver is alive.** -/
theorem isBalanced (h : IsOrderly first most calls) (hnone : aliveSolvers calls = []) :
    IsBalanced most calls where
  once i hi := by
    have hle := h.count_init_le i
    have hcount := h.count_release i
    have hpos := List.count_pos_iff.mpr hi
    rw [hnone, List.count_nil] at hcount
    omega
  between before c after hs := by
    have hnext := isNext_cases (hs ▸ h)
    have hmade : c = .init c.id ∨ .init c.id ∈ before := by
      refine hnext.imp And.left fun hc => ?_
      exact ((hs ▸ h).of_append.mem_alive_iff.mp (List.mem_of_mem_head? hc.2)).1
    refine ⟨hmade, ?_⟩
    have hinit : .init c.id ∈ calls := by
      rw [hs, List.mem_append, List.mem_cons]
      exact hmade.elim (fun hc => .inr (.inl hc.symm)) .inl
    -- The solver was not released before, so it is released by this call or later.
    have hbefore : .release c.id ∉ before := by
      intro hmem
      rcases hnext with ⟨-, hc⟩ | hc
      · have hcount := (hs ▸ h).of_append.count_release c.id
        rw [List.count_eq_zero.mpr hc] at hcount
        have hpos := List.count_pos_iff.mpr hmem
        omega
      · exact ((hs ▸ h).of_append.mem_alive_iff.mp (List.mem_of_mem_head? hc.2)).2 hmem
    have hrelease : .release c.id ∈ calls := by
      by_contra hmem
      have halive := h.mem_alive_iff.mpr ⟨hinit, hmem⟩
      rw [hnone] at halive
      cases halive
    rw [hs, List.mem_append, List.mem_cons] at hrelease
    exact (hrelease.resolve_left hbefore).imp_left Eq.symm
  nested before i inside c after hs hc := by
    by_contra hrelease
    have hs' : calls = (before ++ .init i :: inside) ++ c :: after := by
      rw [hs, List.append_assoc, List.cons_append]
    have hbefore : IsOrderly first most (before ++ .init i :: inside) := (hs' ▸ h).of_append
    -- The number of the solver made later is the greater one.
    have hi : i = first + solversMade before + 1 := by
      rcases h before (.init i) _ hs with ⟨hi, -⟩ | ⟨hi, -⟩
      · exact Call.init.inj hi
      · cases hi
    have hlt : c.id < i := by
      have hpos := List.count_pos_iff.mpr hc
      rw [hbefore.of_append.count_init] at hpos
      split_ifs at hpos
      · omega
      · cases hpos
    have hhead : (aliveSolvers (before ++ .init i :: inside)).head? = some c.id := by
      rcases isNext_cases (hs' ▸ h) with ⟨-, hmem⟩ | hnext
      · exact absurd (List.mem_append_left _ hc) hmem
      · exact hnext.2
    have hmem : i ∈ aliveSolvers (before ++ .init i :: inside) := by
      refine hbefore.mem_alive_iff.mpr ⟨by simp, fun hmem => ?_⟩
      have hcount := hbefore.of_append.count_release i
      have hzero : before.count (.init i) = 0 := by
        rw [hbefore.of_append.count_init, if_neg (by omega)]
      rcases List.mem_append.mp hmem with hmem | hmem
      · have hpos := List.count_pos_iff.mpr hmem
        omega
      · exact hrelease ((List.mem_cons.mp hmem).resolve_left nofun)
    have hsorted := hbefore.sorted.1
    cases halive : aliveSolvers (before ++ .init i :: inside) with
    | nil =>
      rw [halive] at hmem
      cases hmem
    | cons j rest =>
      rw [halive] at hhead hmem hsorted
      obtain rfl : j = c.id := Option.some.inj hhead
      rcases List.mem_cons.mp hmem with rfl | hmem
      · exact absurd hlt (Nat.lt_irrefl _)
      · exact absurd ((List.pairwise_cons.mp hsorted).1 i hmem) (Nat.lt_asymm hlt)
  alive_le before hb := by
    obtain ⟨after, rfl⟩ := hb
    exact h.of_append.alive_length_le

end IsOrderly

end Calls

/-! ### Changes without calls -/

/-- No call is made, and no solver. -/
structure Process.Mute (p q : Process) : Prop where
  journal : q.journal = p.journal
  made : q.made = p.made
  live : q.live = p.live

namespace Process.Mute

variable {p q r : Process}

theorem refl (p : Process) : p.Mute p := ⟨rfl, rfl, rfl⟩

theorem trans (h : p.Mute q) (h' : q.Mute r) : p.Mute r :=
  ⟨h'.journal.trans h.journal, h'.made.trans h.made, h'.live.trans h.live⟩

instance : Std.Refl Mute := ⟨refl⟩

instance : Trans Mute Mute Mute := ⟨trans⟩

end Process.Mute

/-- Governors, signals, polls and checkpoints make no call. -/
theorem AdmitsNoting.mute : AdmitsNoting Mute where
  readings _ _ := ⟨rfl, rfl, rfl⟩
  limits _ _ := ⟨rfl, rfl, rfl⟩
  actions _ _ := ⟨rfl, rfl, rfl⟩
  governance _ _ _ := ⟨rfl, rfl, rfl⟩
  event _ _ _ := ⟨rfl, rfl, rfl⟩
  note _ _ := ⟨rfl, rfl, rfl⟩
  breachFound _ _ := ⟨rfl, rfl, rfl⟩

/-! ### Processes in order -/

/-- The calls since `start` are balanced once the solvers `held` are released, and these are alive
besides those which were alive at the start. -/
structure IsSettled (start : Process) (most : Nat) (held : List Nat) (p : Process) : Prop where
  /-- The calls since the start. -/
  calls : ∃ calls, p.journal.toList = start.journal.toList ++ calls ∧
    IsBalanced most (calls ++ held.map Call.release)
  /-- The count of solvers alive. -/
  live : p.live = start.live + held.length

/-- What makes no call leaves a process settled. -/
theorem IsSettled.mute {start p q : Process} {most : Nat} {held : List Nat}
    (h : IsSettled start most held p) (hm : p.Mute q) : IsSettled start most held q where
  calls := by
    obtain ⟨calls, hj, hb⟩ := h.calls
    exact ⟨calls, by rw [hm.journal, hj], hb⟩
  live := by rw [hm.live, h.live]

/-- Orderly calls were made since `start`, at most `most` solvers being alive at a time. Now those
which are `held` are alive, the latest first, and the process has counted them. -/
structure InOrder (start : Process) (most : Nat) (held : List Nat) (p : Process) : Prop where
  /-- The calls since the start. -/
  since : ∃ calls, p.journal.toList = start.journal.toList ++ calls ∧
    IsOrderly start.made most calls ∧ aliveSolvers calls = held ∧
    p.made = start.made + solversMade calls
  /-- The count of solvers alive. -/
  live : p.live = start.live + held.length

namespace InOrder

variable {start p q : Process} {most : Nat} {held : List Nat} {i : Nat} {c : Call}

/-- Nothing was done yet. -/
theorem init (start : Process) (most : Nat) : InOrder start most [] start :=
  ⟨⟨[], (List.append_nil _).symm, isOrderly_nil, rfl, rfl⟩, rfl⟩

theorem mute (h : InOrder start most held p) (hm : p.Mute q) : InOrder start most held q where
  since := by
    obtain ⟨calls, hj, ho, ha, hn⟩ := h.since
    exact ⟨calls, by rw [hm.journal, hj], ho, ha, by rw [hm.made, hn]⟩
  live := by rw [hm.live, h.live]

/-- The next solver is made. -/
theorem make (h : InOrder start most held p) (hroom : held.length < most) :
    InOrder start most ((p.made + 1) :: held) p.afterMake where
  since := by
    obtain ⟨calls, hj, ho, ha, hn⟩ := h.since
    refine ⟨calls ++ [.init (p.made + 1)], ?_, ?_, ?_, ?_⟩
    · rw [afterMake, Array.toList_push, hj, List.append_assoc]
    · exact isOrderly_concat.mpr ⟨ho, .inl ⟨by rw [hn], by rwa [ha]⟩⟩
    · rw [aliveSolvers_concat, ha]
      rfl
    · rw [solversMade_concat]
      change p.made + 1 = _
      rw [hn]
      rfl
  live := by
    change p.live + 1 = _
    rw [h.live, List.length_cons, Nat.add_assoc]

/-- The latest solver alive is called. -/
theorem use (h : InOrder start most (i :: held) p) (hc : c.isUse = true) (hi : c.id = i) :
    InOrder start most (i :: held) (p.journaled c) where
  since := by
    obtain ⟨calls, hj, ho, ha, hn⟩ := h.since
    have hinit : c.isInit = false := by cases c <;> first | rfl | cases hc
    refine ⟨calls ++ [c], ?_, ?_, ?_, ?_⟩
    · rw [journaled, Array.toList_push, hj, List.append_assoc]
    · exact isOrderly_concat.mpr ⟨ho, .inr ⟨hinit, by rw [ha, hi]; rfl⟩⟩
    · rw [aliveSolvers_concat, ha]
      cases c <;> first | rfl | cases hc
    · rw [solversMade_concat, hinit]
      exact hn
  live := h.live

/-- The latest solver alive is released. -/
theorem release (h : InOrder start most (i :: held) p) :
    InOrder start most held (p.afterRelease i) where
  since := by
    obtain ⟨calls, hj, ho, ha, hn⟩ := h.since
    refine ⟨calls ++ [.release i], ?_, ?_, ?_, ?_⟩
    · rw [afterRelease, Array.toList_push, hj, List.append_assoc]
    · exact isOrderly_concat.mpr ⟨ho, .inr ⟨rfl, by rw [ha]; rfl⟩⟩
    · rw [aliveSolvers_concat, ha]
      exact List.erase_cons_head i held
    · rw [solversMade_concat]
      exact hn
  live := by
    change p.live - 1 = _
    rw [h.live, List.length_cons]
    omega

/-- The calls are balanced once the solvers alive are released. -/
theorem isSettled (h : InOrder start most held p) : IsSettled start most held p where
  calls := by
    obtain ⟨calls, hj, ho, ha, -⟩ := h.since
    exact ⟨calls, hj, (ho.append_release ha).1.isBalanced (ho.append_release ha).2⟩
  live := h.live

end InOrder

end GovernedSat
