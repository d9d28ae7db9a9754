import GovernedSat.Proofs.Session.Keeping

/-!
# The invariant of the governor

A process which starts with no governor armed is changed by the commands of a session and by calls
which are entered and left under a governor of their own, one inside the other. In every state which
is reached in this way, on a host on which calls to the system succeed, at most one of the governors
alive has limits, and the process shows of governors what this one asked for and nothing else.

## Main definitions

* `Session.Reachable` — the states which are reached.

## Main results

* `Session.Reachable.accounts` — what is in force is due to the governors alive.
* `Session.Reachable.exists_inForce` — what that means for the process.
-/

namespace GovernedSat

open Process

namespace Session

variable {E : Type} [Engine E]

/-- The states of a session and its process which are reached from a process. The governors of the
calls which are entered and not yet left are listed, the latest first; those of the slots are in the
session. -/
inductive Reachable (p₀ : Process) : List Governor → Session E → Process → Prop
  /-- A session starts without objects. -/
  | start : Reachable p₀ [] {} p₀
  /-- A command is performed. -/
  | perform {calls : List Governor} {s : Session E} {p : Process} (command : Command)
      (h : Reachable p₀ calls s p) :
      Reachable p₀ calls (((perform command).run s).run p).1.2 (((perform command).run s).run p).2
  /-- The calls and events are observed. -/
  | observe {calls : List Governor} {s : Session E} {p : Process} (h : Reachable p₀ calls s p) :
      Reachable p₀ calls s (Session.observe.run p).2
  /-- A call is entered when its governor can be armed. -/
  | enter {calls : List Governor} {s : Session E} {p q : Process} {g : Governor}
      (h : Reachable p₀ calls s p)
      (armed : (Governor.arm s.config.limits).run p = pure (.ok g, q)) :
      Reachable p₀ (g :: calls) s q
  /-- The call entered last is left. -/
  | leave {calls : List Governor} {s : Session E} {p : Process} {g : Governor}
      (h : Reachable p₀ (g :: calls) s p) : Reachable p₀ calls s (g.disarm.run p).2

namespace Reachable

variable [Engine.IsTame E] {p₀ p : Process} {calls : List Governor} {s : Session E}

/-- What is in force is due to the governors of calls and slots. -/
theorem accounts (h₀ : p₀.IsPristine) (h : Reachable p₀ calls s p) :
    s.slots.IsSound ∧ p₀.Accounts p (calls ++ s.slots.governors) := by
  induction h with
  | start => exact ⟨Slots.isSound_nil, none, rfl, h₀.standing⟩
  | perform command h ih =>
    obtain ⟨hs, ha⟩ := ih
    obtain ⟨_, ⟨rfl, hs'⟩, ha'⟩ :=
      sessionKeeps_perform h₀ command _ hs _ _ (ha.perm List.perm_append_comm)
    exact ⟨hs', ha'.perm List.perm_append_comm⟩
  | observe h ih =>
    obtain ⟨hs, g, hg, hstanding⟩ := ih
    exact ⟨hs, g, hg, hstanding.of_eq rfl rfl rfl rfl⟩
  | @enter calls s p q g h harm ih =>
    obtain ⟨hs, ha⟩ := ih
    obtain ⟨_, hleft, ha'⟩ := keeps_arm h₀ s.config.limits _ p ha
    rw [harm] at hleft ha'
    subst hleft
    exact ⟨hs, ha'⟩
  | leave h ih =>
    obtain ⟨hs, ha⟩ := ih
    obtain ⟨_, rfl, ha'⟩ := keeps_disarm h₀ _ _ _ ha
    exact ⟨hs, ha'⟩

/-- **The invariant of the governor.** At most one governor alive has limits. Arming another one
with limits is refused exactly when there is one, and then changes nothing. The hook is in place and
a signal is noted exactly when this governor limits the resource. The hard limits are as they were,
and so are the soft limits on resources which it does not limit; on the others the soft limit is
what it asked for, unless a breach is noted and the hard limit has been reached for. A breach is
about a resource which it limits. -/
theorem exists_inForce (h₀ : p₀.IsPristine) (h : Reachable p₀ calls s p) :
    ∃ g : Option Governor,
      (calls ++ s.slots.governors).filter (·.saved.isSome) = g.toList ∧
      p.governance.armed = g.isSome ∧
      (∀ l : Limits, l.isUnbounded = false →
        (((Governor.arm l).run p).1 = .error .governorArmed ↔ p.governance.armed = true) ∧
        (p.governance.armed = true → ((Governor.arm l).run p).2 =
          { p with readings := p.readings + 1, log := p.log.push .armingRefused })) ∧
      (p.governance.memoryHook = true ↔ ∃ g' ∈ g, g'.limits.memory ≠ 0) ∧
      (∀ s : Signal, p.actions.get s = .noting ↔ ∃ g' ∈ g, g'.limits.on s.resource ≠ 0) ∧
      (∀ r, (p.limits.get r).hard = (p₀.limits.get r).hard) ∧
      (∀ r, (∀ g' ∈ g, g'.limits.on r = 0) → (p.limits.get r).soft = (p₀.limits.get r).soft) ∧
      (∀ g' ∈ g, ∀ r, g'.limits.on r ≠ 0 →
        (p.limits.get r).soft =
            min (g'.limits.ceiling g'.baseline r) (p₀.limits.get r).hard ∨
          p.governance.breach.isSome ∧ (p.limits.get r).soft = (p₀.limits.get r).hard) ∧
      (∀ b ∈ p.governance.breach, ∃ g' ∈ g, g'.limits.on b.resource ≠ 0) ∧
      (g = none → p.IsIdle) := by
  obtain ⟨-, g, hg, hs⟩ := h.accounts h₀
  refine ⟨g, hg, hs.armed, fun l hl => ?_, ?_, fun x => ?_, hs.hard_eq, fun r hr => ?_,
    fun g' hg' r hr => ?_, fun b hb => limitOn_ne_zero_iff.mp (hs.breach b hb), ?_⟩
  · cases g with
    | none =>
      obtain ⟨g', q, hr, -, -⟩ := hs.arm h₀ hl
      rw [hr, hs.armed]
      exact ⟨⟨nofun, nofun⟩, nofun⟩
    | some g =>
      rw [hs.run_arm_of_some hl, hs.armed]
      exact ⟨⟨fun _ => rfl, fun _ => rfl⟩, fun _ => rfl⟩
  · rw [hs.memoryHook, decide_eq_true_iff]
    exact limitOn_ne_zero_iff
  · exact (hs.noting_iff h₀).trans limitOn_ne_zero_iff
  · have hz : limitOn g r = 0 := by
      by_contra hne
      obtain ⟨g', hg', hr'⟩ := limitOn_ne_zero_iff.mp hne
      exact hr' (hr g' hg')
    rw [hs.unlimited r hz]
  · rcases hs.limited g' hg' r hr with hl | ⟨hb, hl⟩
    · exact .inl (by rw [hl]; rfl)
    · exact .inr ⟨hb, by rw [hl]; rfl⟩
  · rintro rfl
    exact hs.isIdle

/-- After a governor with a limit on CPU time was armed and the signal about it was delivered, the
governor is the only one alive with limits, no other one with limits is armed, and the soft limit is
what was asked for or the hard one. -/
theorem exists_inForce_signalled :
    let p₀ : Process := { host := .steady { cpuTime := 0, resident := 1, addressSpace := 1 } }
    let armed := ((Session.perform (.arm "g" { time := 5 }) :
      SessionM (Scripted .report) Answer).run {}).run p₀
    let r := ((Session.perform (.signal .cpuTimeExceeded)).run armed.1.2).run armed.2
    p₀.IsPristine ∧ Reachable p₀ [] r.1.2 r.2 ∧ r.2.governance.breach = some .time ∧
      ∃ g, r.1.2.slots.governors.filter (·.saved.isSome) = [g] ∧
        ((Governor.arm { memory := 1 }).run r.2).1 = .error .governorArmed ∧
        g.limits.on .cpuTime ≠ 0 := by
  intro p₀ armed r
  have h₀ : p₀.IsPristine := isPristine_new (Host.permits_steady _)
  have h : Reachable p₀ [] r.1.2 r.2 := .perform _ (.perform _ .start)
  have harmed : r.2.governance.armed = true := rfl
  have hbreach : r.2.governance.breach = some .time := rfl
  obtain ⟨g, hg, ha, harm, -, -, -, -, -, hb, -⟩ := exists_inForce h₀ h
  obtain ⟨g', rfl⟩ : ∃ g', g = some g' := Option.isSome_iff_exists.mp (ha.symm.trans harmed)
  obtain ⟨_, ⟨⟩, hlimit⟩ := hb .time hbreach
  exact ⟨h₀, h, hbreach, g', hg, (harm { memory := 1 } rfl).1.mpr harmed, hlimit⟩

end Reachable

end Session

end GovernedSat
