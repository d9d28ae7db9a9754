import GovernedSat.Proofs.Session.History

/-!
# Arming which fails is undone

On a host which refuses some calls, arming a governor with limits may fail at any of the resources,
after the limits on others were lowered and their signals handled. What was done until then is
undone: the settings saved are restored in the opposite order, and each of them undoes exactly the
change before which it was saved, whether the limit itself could be set or not. The same is done
when a governor which was armed is disarmed.

## Main definitions

* `Process.Settings` — the limits and the actions on signals.
* `SavedLimit.restore` — the settings after one resource is restored.
* `Host.Refuses` — a request which cannot be met.
* `Process.IsRevertedTo` — no governor has limits in force, and the settings are those of before.

## Main results

* `Governor.lowerLimit_undone`, `Governor.lowerAll_undone` — what was saved undoes what was done.
* `Process.History.arm_is_undone` — a governor which is not armed, or which is disarmed, has left
  nothing behind.
-/

namespace GovernedSat

open Process

/-! ### Settings -/

/-- The limits on resources and the actions on signals. -/
structure Process.Settings where
  /-- The limits on each resource. -/
  limits : Resource.Table ResourceLimit
  /-- The action on each signal. -/
  actions : Signal.Table SignalAction

/-- The settings of a process. -/
def Process.settings (p : Process) : Settings := ⟨p.limits, p.actions⟩

theorem Process.settings_eq {p q : Process} (hl : q.limits = p.limits)
    (ha : q.actions = p.actions) : q.settings = p.settings := by
  rw [settings, settings, hl, ha]

/-- The settings after one resource is restored, where the host allows it. -/
def SavedLimit.restore (h : Host) (s : Settings) (x : SavedLimit) : Settings where
  limits := if h.settable x.resource then s.limits.set x.resource x.limit else s.limits
  actions := x.action.elim s.actions fun a =>
    if h.catchable a.1 then s.actions.set a.1 a.2 else s.actions

/-- The host refuses what is asked: the limits on the resource cannot be read, or the action on its
signal cannot be changed. -/
def Host.Refuses (h : Host) (r : LimitRequest) : Prop :=
  h.readable r.resource = false ∨ ∃ s ∈ r.signal, h.catchable s = false

theorem Limits.on_eq_zero_of_isUnbounded {l : Limits} (hl : l.isUnbounded = true) (r : Resource) :
    l.on r = 0 := by
  simp only [isUnbounded, Bool.and_eq_true, decide_eq_true_eq] at hl
  cases r with
  | cpuTime => exact hl.1.1
  | addressSpace => exact hl.1.2
  | fileSize => exact hl.2

theorem Host.not_refuses_iff {h : Host} {r : LimitRequest} :
    ¬ h.Refuses r ↔ h.readable r.resource = true ∧ ∀ s ∈ r.signal, h.catchable s = true := by
  simp [Host.Refuses]

/-- The host refuses something of what is asked for when it refuses to have the limits on some
limited resource read or its signal handled. -/
theorem Host.exists_refuses_requests_iff {h : Host} {l : Limits} {baseline : Rat} :
    (∃ r ∈ l.requests baseline, h.Refuses r) ↔
      ∃ r, l.on r ≠ 0 ∧ (h.readable r = false ∨ ∃ s ∈ r.signal?, h.catchable s = false) := by
  simp only [l.requests_eq, List.mem_map, exists_exists_and_eq_and, l.mem_limited]
  rfl

/-- No governor has limits in force in `q`, and its settings are those of `p`. -/
structure Process.IsRevertedTo (q p : Process) : Prop extends q.IsUnarmed where
  /-- The limits and the actions on signals are as they were. -/
  settings : q.settings = p.settings

theorem Process.IsRevertedTo.limits {p q : Process} (h : q.IsRevertedTo p) : q.limits = p.limits :=
  congrArg Settings.limits h.settings

theorem Process.IsRevertedTo.actions {p q : Process} (h : q.IsRevertedTo p) :
    q.actions = p.actions :=
  congrArg Settings.actions h.settings

namespace Governor

variable {p q : Process} {g : Governor} {l : Limits} {saved : List SavedLimit}

/-! ### What was saved undoes what was done -/

theorem settings_restoreAll (saved : List SavedLimit) (p : Process) :
    let q := ((restoreAll saved).run p).2
    q.governance = { p.governance with memoryHook := false } ∧
      q.settings = saved.foldl (SavedLimit.restore p.host) p.settings := by
  have hforM : ∀ (saved : List SavedLimit) (p : Process),
      let q := ((saved.forM restoreLimit).run p).2
      q.governance = p.governance ∧
        q.settings = saved.foldl (SavedLimit.restore p.host) p.settings := by
    intro saved
    induction saved with
    | nil => exact fun p => ⟨rfl, rfl⟩
    | cons x saved ih =>
      intro p q
      have hq : q = ((saved.forM restoreLimit).run ((restoreLimit x).run p).2).2 := rfl
      rw [run_restoreLimit_eq] at hq
      rw [hq]
      exact ih _
  exact hforM saved { p with governance := { p.governance with memoryHook := false } }

/-- Lowering a limit fails when the host refuses it, and changes no setting then. Otherwise what is
saved undoes what is done. -/
theorem lowerLimit_undone (r : LimitRequest) (p : Process) :
    let a := (lowerLimit r).run p
    a.2.host = p.host ∧ a.2.governance = p.governance ∧
      (p.host.Refuses r ∧ a.1 = .error .resourceLimitsUnsupported ∧ a.2.settings = p.settings ∨
        ¬ p.host.Refuses r ∧ ∃ x, a.1 = .ok x ∧ x.restore p.host a.2.settings = p.settings) := by
  intro a
  by_cases hrefuse : p.host.Refuses r
  · have ha : ∃ events, a = pure (.error .resourceLimitsUnsupported,
        { p with log := p.log.push events }) := by
      cases hr : p.host.readable r.resource with
      | false => exact ⟨_, run_lowerLimit_unreadable hr⟩
      | true =>
        have hc : ¬ ∀ s ∈ r.signal, p.host.catchable s = true := fun hc =>
          Host.not_refuses_iff.mpr ⟨hr, hc⟩ hrefuse
        exact ⟨_, run_lowerLimit_uncatchable hr hc⟩
    obtain ⟨events, ha⟩ := ha
    rw [ha]
    exact ⟨rfl, rfl, .inl ⟨hrefuse, rfl, rfl⟩⟩
  · obtain ⟨hr, hc⟩ := Host.not_refuses_iff.mp hrefuse
    have ha : a = _ := run_lowerLimit_eq hr hc
    rw [ha]
    refine ⟨rfl, rfl, .inr ⟨hrefuse, _, rfl, ?_⟩⟩
    rw [SavedLimit.restore, settings, settings, Settings.mk.injEq]
    refine ⟨?_, ?_⟩
    · cases hs : p.host.settable r.resource with
      | false => rfl
      | true =>
        change ((p.limits.set r.resource _).set r.resource (p.limits.get r.resource)) = _
        rw [Resource.Table.set_set, Resource.Table.set_get]
    · cases hs : r.signal with
      | none => rfl
      | some s =>
        change (if p.host.catchable s = true then
          (p.actions.set s .noting).set s (p.actions.get s) else p.actions.set s .noting) = _
        rw [if_pos (hc s hs), Signal.Table.set_set, Signal.Table.set_get]

/-- Lowering all limits fails when the host refuses some of them, and then all that was done is
undone. Otherwise what is saved undoes it. -/
theorem lowerAll_undone {s₀ : Settings} (rs : List LimitRequest) (saved : List SavedLimit)
    (p : Process) (hs : saved.foldl (SavedLimit.restore p.host) p.settings = s₀) :
    let a := (lowerAll rs saved).run p
    (∃ r ∈ rs, p.host.Refuses r) ∧ a.1 = .error .resourceLimitsUnsupported ∧
        a.2.governance = { p.governance with memoryHook := false } ∧ a.2.settings = s₀ ∨
      (¬ ∃ r ∈ rs, p.host.Refuses r) ∧ ∃ saved', a.1 = .ok saved' ∧ a.2.host = p.host ∧
        a.2.governance = p.governance ∧
        saved'.foldl (SavedLimit.restore p.host) a.2.settings = s₀ := by
  induction rs generalizing p saved with
  | nil => exact .inr ⟨by rintro ⟨_, ⟨⟩, -⟩, saved, rfl, rfl, rfl, hs⟩
  | cons r rs ih =>
    intro a
    obtain ⟨⟨result, q⟩, hrun⟩ : ∃ b, (lowerLimit r).run p = b := ⟨_, rfl⟩
    have hstep := lowerLimit_undone r p
    rw [hrun] at hstep
    obtain ⟨hh, hg, ⟨hrefuse, rfl, hq⟩ | ⟨hnot, x, rfl, hq⟩⟩ := hstep
    · have ha : a = pure (.error .resourceLimitsUnsupported, ((restoreAll saved).run q).2) := by
        change (lowerAll (r :: rs) saved).run p = _
        rw [lowerAll, StateT.run_bind, hrun]
        rfl
      obtain ⟨hgov, hset⟩ := settings_restoreAll saved q
      rw [ha]
      refine .inl ⟨⟨r, List.mem_cons_self, hrefuse⟩, rfl, hgov.trans (by rw [hg]), ?_⟩
      exact hset.trans (by rw [hh, hq, hs])
    · have ha : a = (lowerAll rs (x :: saved)).run q := by
        change (lowerAll (r :: rs) saved).run p = _
        rw [lowerAll, StateT.run_bind, hrun]
        rfl
      have hrefuses : (∃ y ∈ r :: rs, p.host.Refuses y) ↔ ∃ y ∈ rs, p.host.Refuses y := by
        rw [List.exists_mem_cons_iff, or_iff_right hnot]
      have hrest := ih (x :: saved) q (by rw [hh, List.foldl_cons, hq]; exact hs)
      rw [hh, hg] at hrest
      rw [ha, hrefuses]
      exact hrest

/-! ### Arming and disarming -/

/-- Arming with limits fails when the host refuses some of them, and then all is undone. Otherwise
the governor has saved what undoes it. -/
theorem arm_undone (hp : p.IsUnarmed) (hl : l.isUnbounded = false) :
    let a := (arm l).run p
    let refused := ∃ r, l.on r ≠ 0 ∧
      (p.host.readable r = false ∨ ∃ s ∈ r.signal?, p.host.catchable s = false)
    refused ∧ a.1 = .error .resourceLimitsUnsupported ∧ a.2.IsRevertedTo p ∨
      ¬ refused ∧ ∃ g saved, a.1 = .ok g ∧ g.saved = some saved ∧ a.2.host = p.host ∧
        saved.foldl (SavedLimit.restore p.host) a.2.settings = p.settings := by
  intro a refused
  let baseline := (p.host.usage p.readings).cpuTime
  let p₁ : Process := { p.afterReading with
    governance := { p.governance.clear with armed := true } }
  have hcases := lowerAll_undone (l.requests baseline) [] p₁ rfl
  have hrefused : (∃ r ∈ l.requests baseline, p₁.host.Refuses r) ↔ refused :=
    Host.exists_refuses_requests_iff
  obtain ⟨⟨result, q⟩, hrun⟩ : ∃ b, (lowerAll (l.requests baseline) []).run p₁ = b := ⟨_, rfl⟩
  rw [hrun, hrefused] at hcases
  obtain ⟨hr, rfl, hg, hs⟩ | ⟨hr, saved, rfl, hh, hg, hs⟩ := hcases
  · have ha : a = pure (.error .resourceLimitsUnsupported,
        { q with governance := { q.governance with armed := false } }) := by
      change (arm l).run p = _
      rw [run_arm_unarmed hp.armed hl, StateT.run_bind, hrun]
      rfl
    rw [ha]
    have hactions : q.actions = p.actions := congrArg Settings.actions hs
    exact .inl ⟨hr, rfl,
      { idle := ⟨by rw [hg]; rfl, by rw [hg]; rfl, by rw [hg]; rfl⟩
        memoryHook := by rw [hg]; rfl
        action := fun s => (congrArg (·.get s) hactions).trans (hp.action s)
        armed := rfl
        settings := hs }⟩
  · have ha : a = pure (.ok { limits := l, baseline, saved := some saved }, { q with
        governance := { q.governance with
          memoryHook := q.governance.memoryHook || l.memory ≠ 0 }.watch (l.deadline baseline)
            l.memory.toNat
        log := q.log.push (.armed l) }) := by
      change (arm l).run p = _
      rw [run_arm_unarmed hp.armed hl, StateT.run_bind, hrun]
      rfl
    rw [ha]
    exact .inr ⟨hr, _, saved, rfl, rfl, hh, hs⟩

/-- Disarming undoes what was done, if what was saved does. -/
theorem isRevertedTo_disarm (hp : p.IsUnarmed) (hg : g.saved = some saved)
    (hs : saved.foldl (SavedLimit.restore q.host) q.settings = p.settings) :
    ((g.disarm.run q).2 : Process).IsRevertedTo p := by
  obtain ⟨hgov, hset⟩ := settings_restoreAll saved q
  have hsettings := hset.trans hs
  rw [disarm, hg]
  exact
    { idle := ⟨rfl, rfl, rfl⟩
      memoryHook := (congrArg Governance.memoryHook hgov).trans rfl
      action := fun s =>
        (congrArg (·.actions.get s) hsettings).trans (hp.action s)
      armed := rfl
      settings := hsettings }

/-- A governor without limits changes no setting. -/
theorem isRevertedTo_afterReading (hp : p.IsUnarmed) : p.afterReading.IsRevertedTo p where
  idle := hp.idle
  memoryHook := hp.memoryHook
  action := hp.action
  armed := hp.armed
  settings := rfl

end Governor

/-- While a process drifts and no soft limit is raised, it stays reverted. -/
theorem Process.IsRevertedTo.drift {p q r : Process} (h : q.IsRevertedTo p) (hd : q.Drift r)
    (hl : r.limits = q.limits) : r.IsRevertedTo p where
  toIsUnwatched := hd.isUnwatched h.toIsUnwatched
  armed := (Governance.armed_eq_of_setup hd.setup).trans h.armed
  settings := (settings_eq hl hd.actions).trans h.settings

/-- Whatever limits a governor was armed with, disarming it undoes that it was armed, as long as no
soft limit was raised in between. -/
theorem Governor.isRevertedTo_disarm_of_arm {p q q' : Process} {l : Limits} {g : Governor}
    (hp : p.IsUnarmed) (harm : (arm l).run p = pure (.ok g, q)) (hd : q.Drift q')
    (hlimits : q'.limits = q.limits) : ((g.disarm.run q').2 : Process).IsRevertedTo p := by
  cases hl : l.isUnbounded with
  | true =>
    obtain ⟨baseline, hrun⟩ := run_arm p hl
    cases hrun.symm.trans harm
    exact (isRevertedTo_afterReading hp).drift hd hlimits
  | false =>
    have hcases := arm_undone hp hl
    rw [harm] at hcases
    obtain ⟨-, hfailed, -⟩ | ⟨-, _, saved, harmed, hg, hh, hs⟩ := hcases
    · cases hfailed
    · cases harmed
      refine isRevertedTo_disarm hp hg ?_
      have hh' : q'.host = p.host := hd.host.trans hh
      rw [hh', settings_eq hlimits hd.actions]
      exact hs

/-! ### The law -/

namespace Process.History

variable {p₀ p : Process} {noted : List Breach}

theorem isUnarmed (h₀ : p₀.IsUnarmed) (h : p₀.History none noted p) : p.IsUnarmed := by
  cases h.latches h₀ with
  | unarmed hp => exact hp

/-- **A governor which is not armed, or which is disarmed, has left nothing behind.** While no
governor has limits in force, arming one fails exactly when the host refuses to have the limits on
some limited resource read, or the signal about it handled; that a limit cannot be set is no reason
to fail. All is as before when it fails, and when the governor is disarmed after it succeeded, as
long as no soft limit was raised in between. -/
theorem arm_is_undone (h₀ : p₀.IsUnarmed) (h : p₀.History none noted p) (l : Limits) :
    let refused := ∃ r, l.on r ≠ 0 ∧
      (p.host.readable r = false ∨ ∃ s ∈ r.signal?, p.host.catchable s = false)
    ((∃ e q, (Governor.arm l).run p = pure (.error e, q)) ↔ refused) ∧
    (∀ e q, (Governor.arm l).run p = pure (.error e, q) →
      e = .resourceLimitsUnsupported ∧ q.IsRevertedTo p) ∧
    ∀ g q, (Governor.arm l).run p = pure (.ok g, q) →
      ∀ q', q.Drift q' → q'.limits = q.limits →
        ((g.disarm.run q').2 : Process).IsRevertedTo p := by
  intro refused
  have hp : p.IsUnarmed := h.isUnarmed h₀
  suffices hfails : ((∃ e q, (Governor.arm l).run p = pure (.error e, q)) ↔ refused) ∧
      ∀ e q, (Governor.arm l).run p = pure (.error e, q) →
        e = .resourceLimitsUnsupported ∧ q.IsRevertedTo p from
    ⟨hfails.1, hfails.2, fun g q harm q' => Governor.isRevertedTo_disarm_of_arm hp harm⟩
  cases hl : l.isUnbounded with
  | true =>
    obtain ⟨baseline, hrun⟩ := run_arm p hl
    have hnot : ¬ refused := fun ⟨r, hr, _⟩ => hr (Limits.on_eq_zero_of_isUnbounded hl r)
    refine ⟨iff_of_false ?_ hnot, ?_⟩
    · rintro ⟨e, q, harm⟩
      cases hrun.symm.trans harm
    · intro e q harm
      cases hrun.symm.trans harm
  | false =>
    obtain ⟨⟨armed, q⟩, hrun⟩ : ∃ a, (Governor.arm l).run p = pure a := ⟨_, rfl⟩
    have hcases := Governor.arm_undone hp hl
    rw [hrun] at hcases ⊢
    obtain ⟨hr, rfl, hq⟩ | ⟨hr, g, saved, rfl, -⟩ := hcases
    · refine ⟨iff_of_true ⟨_, _, rfl⟩ hr, ?_⟩
      rintro _ _ ⟨⟩
      exact ⟨rfl, hq⟩
    · refine ⟨iff_of_false ?_ hr, ?_⟩
      · rintro ⟨_, _, ⟨⟩⟩
      · rintro _ _ ⟨⟩

/-- Where the limit on address space cannot be set, and the signal about the size of files cannot
be handled, arming with all three limits fails at the third, after the first was lowered. Without
the third it succeeds, and the limit on CPU time is lowered until the governor is disarmed. -/
theorem arm_is_undone_partly_settable :
    let host : Host :=
      { usage := fun _ => { cpuTime := 1, resident := 1, addressSpace := 1 }
        readable := fun _ => true
        settable := fun r => r ≠ .addressSpace
        catchable := fun s => s ≠ .fileSizeExceeded
        grants := fun _ _ _ => true }
    let p₀ : Process := { host }
    let p := (Occasion.checkpoint.pass.run p₀).2
    p₀.IsUnarmed ∧ p₀.History none [] p ∧
      (∃ q, (Governor.arm { time := 5, memory := 100, fileSize := 2 }).run p =
        pure (.error .resourceLimitsUnsupported, q) ∧ q.IsRevertedTo p) ∧
      ∃ g q, (Governor.arm { time := 5, memory := 100 }).run p = pure (.ok g, q) ∧
        q.limits.cpuTime.soft = 6 ∧ q.actions.cpuTimeExceeded = .noting ∧
        ((g.disarm.run q).2 : Process).IsRevertedTo p := by
  intro host p₀ p
  have h₀ : p₀.IsUnarmed := isUnarmed_new host
  have h : p₀.History none [] p := History.start.pass .checkpoint
  obtain ⟨hfail, hundone, -⟩ :=
    arm_is_undone h₀ h { time := 5, memory := 100, fileSize := 2 }
  obtain ⟨-, -, hdisarm⟩ := arm_is_undone h₀ h { time := 5, memory := 100 }
  refine ⟨h₀, h, ?_, ?_⟩
  · have hrefused : p.host.catchable .fileSizeExceeded = false := rfl
    obtain ⟨e, q, hq⟩ := hfail.mpr ⟨.fileSize, by decide, .inr ⟨_, rfl, hrefused⟩⟩
    obtain ⟨rfl, hreverted⟩ := hundone e q hq
    exact ⟨q, hq, hreverted⟩
  · obtain ⟨g, q, harm, hsoft, haction⟩ : ∃ g q,
        (Governor.arm { time := 5, memory := 100 }).run p = pure (.ok g, q) ∧
          q.limits.cpuTime.soft = 6 ∧ q.actions.cpuTimeExceeded = .noting :=
      ⟨_, _, rfl, by decide +kernel, rfl⟩
    exact ⟨g, q, harm, hsoft, haction, hdisarm g q harm q (.refl q) rfl⟩

end Process.History

end GovernedSat
