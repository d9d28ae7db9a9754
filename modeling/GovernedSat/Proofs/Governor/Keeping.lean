import GovernedSat.Proofs.Governor.Standing
import GovernedSat.Search.Basic

/-!
# Keeping account of governors

Every governor alive has an owner: a call, a stream or a slot. A process is *accounted for* by the
governors alive when what is in force is due to the one of them which has limits, of which there is
at most one. A computation keeps account when it turns the governors which it is given into those
which it leaves, whatever others there are besides.

The governors which others own are in the statement itself, so they need not be mentioned where
parts are put together, and a computation may be given the governors of several owners in any
order.

## Main definitions

* `Process.Accounts` — what is in force is due to the governors alive.
* `Keeps` — computations which keep account.

## Main results

* `Keeps.bind`, `Keeps.frame`, `Drifts.keeps` — how computations are put together.
* `keeps_arm`, `keeps_disarm`, `keeps_governed` — governors made and given back.
-/

namespace GovernedSat

open Process

/-! ### Accounting for a process -/

namespace Process

variable {p₀ p q : Process} {gs hs : List Governor} {g : Governor}

/-- At most one of the governors alive has limits, and these are what is in force. -/
def Accounts (p₀ p : Process) (alive : List Governor) : Prop :=
  ∃ g : Option Governor, alive.filter (·.saved.isSome) = g.toList ∧ p₀.Standing p g

namespace Accounts

/-- The order of the governors does not matter. -/
theorem perm (h : p₀.Accounts p gs) (hp : gs.Perm hs) : p₀.Accounts p hs := by
  obtain ⟨g, hg, hs⟩ := h
  refine ⟨g, ?_, hs⟩
  have hp' := hp.symm.filter (·.saved.isSome)
  rw [hg] at hp'
  cases g with
  | none => exact hp'.eq_nil
  | some g => exact hp'.eq_singleton

theorem drift (h : p₀.Accounts p gs) (h₀ : p₀.IsPristine) (hd : p.Drift q) : p₀.Accounts q gs := by
  obtain ⟨g, hg, hs⟩ := h
  exact ⟨g, hg, hs.drift h₀ hd⟩

/-- A governor without limits makes no difference. -/
theorem cons_iff_of_unlimited (hg : g.saved = none) :
    p₀.Accounts p (g :: gs) ↔ p₀.Accounts p gs := by
  rw [Accounts, List.filter_cons_of_neg (by simp [hg]), Accounts]

/-- A governor with limits, while it is alive, is the only one. -/
theorem standing_of_cons (h : p₀.Accounts p (g :: gs)) (hg : g.saved.isSome) :
    p₀.Standing p (some g) ∧ gs.filter (·.saved.isSome) = [] := by
  obtain ⟨g', he, hs⟩ := h
  rw [List.filter_cons_of_pos (by exact hg)] at he
  cases g' with
  | none => cases he
  | some g' =>
    obtain ⟨rfl, hn⟩ := List.cons.inj he
    exact ⟨hs, hn⟩

end Accounts

end Process

/-! ### Computations which keep account -/

section Keeping

variable {p₀ : Process} {α β : Type} {x : ProcessM α} {own : List Governor}
  {P Q : α → List Governor → Prop}

/-- Given the governors `own`, and whatever `others` there are, the computation leaves governors of
which, together with its result, `post` is true. -/
def Keeps (p₀ : Process) (x : ProcessM α) (own : List Governor)
    (post : α → List Governor → Prop) : Prop :=
  ∀ others p, p₀.Accounts p (own ++ others) →
    ∃ left, post (x.run p).1 left ∧ p₀.Accounts (x.run p).2 (left ++ others)

theorem Keeps.mono (hx : Keeps p₀ x own P) (h : ∀ a left, P a left → Q a left) :
    Keeps p₀ x own Q := by
  intro others p hp
  obtain ⟨left, ha, hl⟩ := hx others p hp
  exact ⟨left, h _ _ ha, hl⟩

/-- The governors may be named in another order. -/
theorem Keeps.of_perm {own' : List Governor} (hx : Keeps p₀ x own P) (h : own'.Perm own) :
    Keeps p₀ x own' P :=
  fun others p hp => hx others p (hp.perm (h.append_right others))

/-- Some of the governors given are left alone. -/
theorem Keeps.frame (hx : Keeps p₀ x own P) (kept : List Governor) :
    Keeps p₀ x (own ++ kept) fun a left => ∃ left', left = left' ++ kept ∧ P a left' := by
  intro others p hp
  rw [List.append_assoc] at hp
  obtain ⟨left, ha, hl⟩ := hx (kept ++ others) p hp
  exact ⟨left ++ kept, ⟨left, rfl, ha⟩, by rwa [List.append_assoc]⟩

theorem keeps_pure {a : α} (h : P a own) : Keeps p₀ (pure a) own P := fun _ _ hp => ⟨own, h, hp⟩

theorem Keeps.bind {f : α → ProcessM β} {R : β → List Governor → Prop} (hx : Keeps p₀ x own P)
    (hf : ∀ a left, P a left → Keeps p₀ (f a) left R) : Keeps p₀ (x >>= f) own R := by
  intro others p hp
  obtain ⟨left, ha, hl⟩ := hx others p hp
  obtain ⟨left', hb, hl'⟩ := hf _ left ha others _ hl
  rw [StateT.run_bind]
  exact ⟨left', hb, hl'⟩

/-- A computation under which every process drifts keeps account of any governors. -/
theorem Drifts.keeps {R : α → Prop} (hx : Drifts x R) (h₀ : p₀.IsPristine) (own : List Governor) :
    Keeps p₀ x own fun a left => left = own ∧ R a :=
  fun _ p hp => ⟨own, ⟨rfl, (hx p).2⟩, hp.drift h₀ (hx p).1⟩

/-- A computation which only changes what has nothing to do with governors. -/
theorem keeps_of_eq (hx : ∀ p : Process, (x.run p).2.host = p.host ∧
      (x.run p).2.limits = p.limits ∧ (x.run p).2.actions = p.actions ∧
      (x.run p).2.governance = p.governance) :
    Keeps p₀ x own fun _ left => left = own := by
  rintro others p ⟨g, hg, hs⟩
  obtain ⟨hh, hl, ha, hgov⟩ := hx p
  exact ⟨own, rfl, g, hg, hs.of_eq hh hl ha hgov⟩

end Keeping

/-! ### Arming and disarming -/

section Governor

variable {p₀ : Process} (h₀ : p₀.IsPristine)
include h₀

/-- The governor which is armed is left, or none when arming is refused. -/
theorem keeps_arm (l : Limits) : Keeps p₀ (Governor.arm l) [] fun r left =>
    left = r.toOption.toList := by
  intro others p ⟨g, hg, hs⟩
  by_cases hl : l.isUnbounded = true
  · obtain ⟨baseline, hr⟩ := run_arm p hl
    refine ⟨_, rfl, ?_⟩
    rw [hr]
    exact (Accounts.cons_iff_of_unlimited rfl).mpr ⟨g, hg, hs.of_eq rfl rfl rfl rfl⟩
  · rw [Bool.not_eq_true] at hl
    cases g with
    | none =>
      obtain ⟨g, q, hr, rfl, hq⟩ := hs.arm h₀ hl
      refine ⟨_, rfl, ?_⟩
      rw [hr]
      refine ⟨some g, ?_, hq⟩
      change List.filter _ (g :: others) = [g]
      rw [List.filter_cons_of_pos (by rw [hq.saved g rfl]; rfl)]
      exact congrArg (g :: ·) hg
    | some g =>
      refine ⟨_, rfl, ?_⟩
      rw [hs.run_arm_of_some hl]
      exact ⟨some g, hg, hs.of_eq rfl rfl rfl rfl⟩

/-- A governor which is disarmed is alive no more. -/
theorem keeps_disarm (g : Governor) : Keeps p₀ g.disarm [g] fun _ left => left = [] := by
  intro others p hp
  refine ⟨[], rfl, ?_⟩
  cases hg : g.saved with
  | none =>
    rw [Governor.disarm, hg]
    exact (Accounts.cons_iff_of_unlimited hg).mp hp
  | some saved =>
    obtain ⟨hs, hn⟩ := hp.standing_of_cons (by rw [hg]; rfl)
    obtain ⟨q, hr, hq⟩ := hs.disarm h₀
    rw [hr]
    exact ⟨none, hn, hq⟩

/-- A computation under a governor, which is given back whatever the result is. -/
theorem keeps_whileArmed {α : Type} {l : Limits} {refuse : LimitError → α} {x : ProcessM α}
    {own : List Governor} {P : α → List Governor → Prop} (hrefuse : ∀ e, P (refuse e) own)
    (hx : Keeps p₀ x own P) :
    Keeps p₀ (do
      match ← Governor.arm l with
      | .error e => return refuse e
      | .ok g =>
        let a ← x
        g.disarm
        return a) own P := by
  refine ((keeps_arm h₀ l).frame own).bind ?_
  rintro r _ ⟨_, rfl, rfl⟩
  cases r with
  | error e => exact keeps_pure (hrefuse e)
  | ok g =>
    refine ((hx.frame [g]).of_perm List.perm_append_comm).bind ?_
    rintro a _ ⟨left, rfl, ha⟩
    refine (((keeps_disarm h₀ g).frame left).of_perm List.perm_append_comm).bind ?_
    rintro _ _ ⟨_, rfl, rfl⟩
    exact keeps_pure ha

/-- A procedure which is run under a governor. -/
theorem keeps_governed {α : Type} {l : Limits} {body : ProcedureM α} {own : List Governor}
    (hbody : Keeps p₀ body.run own fun _ left => left = own) :
    Keeps p₀ (governed l body).run own fun _ left => left = own :=
  keeps_whileArmed h₀ (fun _ => rfl) hbody

/-- A computation with a state, which is run under a governor. -/
theorem keeps_governed_run {S α : Type} {l : Limits} {body : ExceptT Halt (StateT S ProcessM) α}
    {s : S} {own : List Governor} {P : S → List Governor → Prop} (hs : P s own)
    (hbody : Keeps p₀ (body.run.run s) own fun r left => P r.2 left) :
    Keeps p₀ ((governed l body).run.run s) own fun r left => P r.2 left := by
  let refuse (e : LimitError) : Except Halt α × S := (.error (.error (.limit e)), s)
  have hrun : (governed l body).run.run s = (do
      match ← Governor.arm l with
      | .error e => return refuse e
      | .ok g =>
        let r ← body.run.run s
        g.disarm
        return r) := by
    change (Governor.arm l >>= fun r => (match r with
      | .error e => pure (.error (.error (.limit e)))
      | .ok g => do
        let result ← body.run
        (g.disarm : ProcessM _)
        return result : StateT S ProcessM (Except Halt α)).run s) = _
    refine bind_congr fun r => ?_
    cases r <;> rfl
  rw [hrun]
  exact keeps_whileArmed h₀ (fun _ => hs) hbody

end Governor

end GovernedSat
