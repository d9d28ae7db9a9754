import GovernedSat.Proofs.Governor.Standing

/-!
# What arming changes and disarming restores

On whatever host, a process in which no governor has limits in force handles no signal, and a
governor with limits which is armed there saves enough for every signal which is handled then to be
handled no longer when it is disarmed. Nothing is noted in the course of either, and the breaches
noted before are forgotten.

## Main definitions

* `Process.IsUnarmed` — no governor has limits in force.
* `Process.CanRestore` — what was saved restores the action on every signal.

## Main results

* `Governor.arm_cases` — arming with limits where none are in force.
* `Governor.isUnarmed_disarm` — disarming.
-/

namespace GovernedSat

open Process

/-- Nothing is watched, no breach is noted, and no governor has limits in force. -/
structure Process.IsUnarmed (p : Process) : Prop extends p.IsUnwatched where
  /-- Arming is not refused. -/
  armed : p.governance.armed = false

/-- A new process is unarmed. -/
theorem Process.isUnarmed_new (h : Host) : IsUnarmed { host := h } := ⟨isUnwatched_new h, rfl⟩

/-- What was saved restores the action on every signal which is handled. -/
structure Process.CanRestore (p : Process) (saved : List SavedLimit) : Prop where
  /-- The action on a signal which is handled can be changed, and an action was saved for it. -/
  noting : ∀ s, p.actions.get s = .noting →
    p.host.catchable s = true ∧ ∃ x ∈ saved, ∃ a, x.action = some (s, a)
  /-- The actions saved are those which no governor changed. -/
  inherited : ∀ x ∈ saved, ∀ s a, x.action = some (s, a) → a = .inherited

theorem Process.canRestore_nil_iff {p : Process} :
    p.CanRestore [] ↔ ∀ s, p.actions.get s = .inherited := by
  refine ⟨fun h s => ?_, fun h => ⟨fun s hs => ?_, nofun⟩⟩
  · cases ha : p.actions.get s with
    | inherited => rfl
    | noting =>
      obtain ⟨-, x, hx, -⟩ := h.noting s ha
      cases hx
  · rw [h s] at hs
    cases hs

/-- It is a matter of the actions and of the host. -/
theorem Process.CanRestore.of_eq {p q : Process} {saved : List SavedLimit} (h : p.CanRestore saved)
    (hh : q.host = p.host) (ha : q.actions = p.actions) : q.CanRestore saved :=
  ⟨by rw [hh, ha]; exact h.noting, h.inherited⟩

/-- The actions on signals become the given ones, and neither the system nor the state of governance
changes. -/
structure Process.SetsActions (p : Process) (actions : Signal.Table SignalAction) (q : Process) :
    Prop where
  host : q.host = p.host
  governance : q.governance = p.governance
  actions : q.actions = actions

namespace Governor

variable {p : Process} {saved : List SavedLimit}

/-! ### Restoring -/

/-- The limit and the action on the signal are restored, each if it can be changed. -/
theorem run_restoreLimit_eq (x : SavedLimit) (p : Process) :
    (restoreLimit x).run p = pure ((), { p with
      limits := if p.host.settable x.resource then p.limits.set x.resource x.limit else p.limits
      actions := x.action.elim p.actions fun a =>
        if p.host.catchable a.1 then p.actions.set a.1 a.2 else p.actions
      log := if p.host.settable x.resource then p.log else p.log.push .restoringFailed }) := by
  obtain ⟨resource, limit, action⟩ := x
  cases hs : p.host.settable resource <;> cases action with
  | none => simp [restoreLimit, setLimit, logEvent, hs]
  | some a =>
    cases hc : p.host.catchable a.1 <;>
      simp [restoreLimit, setLimit, setAction, logEvent, discard, Functor.discard, map_const, hs,
        hc]

/-- The action on the signal is restored, if it can be changed. -/
theorem setsActions_restoreLimit (x : SavedLimit) (p : Process) :
    p.SetsActions (x.action.elim p.actions fun a =>
      if p.host.catchable a.1 then p.actions.set a.1 a.2 else p.actions)
      ((restoreLimit x).run p).2 := by
  rw [run_restoreLimit_eq]
  exact ⟨rfl, rfl, rfl⟩

/-- What was saved for the other signals is left to be restored. -/
theorem canRestore_restoreLimit {x : SavedLimit} (h : p.CanRestore (x :: saved)) :
    ((restoreLimit x).run p).2.CanRestore saved := by
  obtain ⟨hh, -, ha⟩ := setsActions_restoreLimit x p
  refine ⟨fun s hs => ?_, fun y hy => h.inherited y (List.mem_cons_of_mem x hy)⟩
  rw [ha] at hs
  have hother : p.actions.get s = .noting ∧ ∀ a, x.action ≠ some (s, a) := by
    cases hx : x.action with
    | none =>
      rw [hx] at hs
      exact ⟨hs, nofun⟩
    | some a =>
      obtain ⟨s', a'⟩ := a
      obtain rfl := h.inherited x List.mem_cons_self s' a' hx
      rw [hx] at hs
      change (if p.host.catchable s' then p.actions.set s' .inherited
        else p.actions).get s = _ at hs
      by_cases hc : p.host.catchable s' = true
      · rw [if_pos hc, Signal.Table.get_set] at hs
        split at hs
        · cases hs
        · next hne =>
          refine ⟨hs, fun a ha => hne ?_⟩
          cases ha
          rfl
      · rw [if_neg hc] at hs
        refine ⟨hs, fun a ha => hc ?_⟩
        cases ha
        exact (h.noting s hs).1
  obtain ⟨hc, y, hy, a, hya⟩ := h.noting s hother.1
  refine ⟨by rw [hh]; exact hc, y, ?_, a, hya⟩
  rcases List.mem_cons.mp hy with rfl | hy
  · exact absurd hya (hother.2 a)
  · exact hy

/-- No signal is handled in the end, and the hook is taken away. -/
theorem setsActions_restoreAll (h : p.CanRestore saved) :
    let q := ((restoreAll saved).run p).2
    q.host = p.host ∧ q.governance = { p.governance with memoryHook := false } ∧
      ∀ s, q.actions.get s = .inherited := by
  let p₁ : Process := { p with governance := { p.governance with memoryHook := false } }
  have hforM : ∀ (saved : List SavedLimit) (p : Process), p.CanRestore saved →
      let q := ((saved.forM restoreLimit).run p).2
      q.host = p.host ∧ q.governance = p.governance ∧ q.CanRestore [] := by
    intro saved
    induction saved with
    | nil => exact fun p h => ⟨rfl, rfl, h⟩
    | cons x saved ih =>
      intro p h
      obtain ⟨hh, hg, hr⟩ := ih _ (canRestore_restoreLimit h)
      have hx := setsActions_restoreLimit x p
      exact ⟨hh.trans hx.host, hg.trans hx.governance, hr⟩
  obtain ⟨hh, hg, hr⟩ := hforM saved p₁ (h.of_eq rfl rfl)
  exact ⟨hh, hg, canRestore_nil_iff.mp hr⟩

/-! ### Lowering -/

/-- The action on the signal is changed, if it can be. -/
theorem run_catchSignal (signal : Option Signal) (p : Process) :
    (catchSignal signal).run p = pure (
      if ∀ s ∈ signal, p.host.catchable s then
        (some (signal.map fun s => (s, p.actions.get s)),
          { p with actions := signal.elim p.actions (p.actions.set · .noting) })
      else (none, p)) := by
  cases signal with
  | none => simp [catchSignal]
  | some s => cases hc : p.host.catchable s <;> simp [catchSignal, setAction, hc]

theorem run_lowerLimit_unreadable {r : LimitRequest} (hr : p.host.readable r.resource = false) :
    (lowerLimit r).run p = pure (.error .resourceLimitsUnsupported,
      { p with log := p.log.push (.limitUnreadable r.resource) }) := by
  simp [lowerLimit, readLimit, logEvent, hr]

theorem run_lowerLimit_uncatchable {r : LimitRequest} (hr : p.host.readable r.resource = true)
    (hc : ¬ ∀ s ∈ r.signal, p.host.catchable s = true) :
    (lowerLimit r).run p = pure (.error .resourceLimitsUnsupported,
      { p with log := p.log.push (.signalUnhandled r.resource) }) := by
  have hcatch := run_catchSignal r.signal p
  rw [if_neg hc] at hcatch
  simp [lowerLimit, readLimit, logEvent, hr, hcatch]

/-- The limit is lowered if it can be set, the signal is handled, and what was in force is saved. -/
theorem run_lowerLimit_eq {r : LimitRequest} (hr : p.host.readable r.resource = true)
    (hc : ∀ s ∈ r.signal, p.host.catchable s = true) :
    let lowered := (p.limits.get r.resource).lowered r.ceiling
    (lowerLimit r).run p = pure (.ok { resource := r.resource, limit := p.limits.get r.resource,
                                       action := r.signal.map fun s => (s, p.actions.get s) },
      { p with
        limits :=
          if p.host.settable r.resource then p.limits.set r.resource lowered else p.limits
        actions := r.signal.elim p.actions (p.actions.set · .noting)
        log := (if p.host.settable r.resource then p.log else
          p.log.push (.limitUnset r.resource lowered.soft)).push
            (.limitLowered r.resource lowered.soft) }) := by
  have hcatch := run_catchSignal r.signal p
  rw [if_pos hc] at hcatch
  cases hs : p.host.settable r.resource <;>
    simp [lowerLimit, readLimit, setLimit, logEvent, hr, hs, hcatch]

/-- The signal is handled from now on, and the earlier action on it is saved, or nothing is
changed. -/
theorem lowerLimit_cases (r : LimitRequest) (p : Process) :
    let a := (lowerLimit r).run p
    (∃ e, a.1 = .error e ∧ p.SetsActions p.actions a.2) ∨
      ∃ x, a.1 = .ok x ∧ x.action = r.signal.map (fun s => (s, p.actions.get s)) ∧
        (∀ s ∈ r.signal, p.host.catchable s = true) ∧
        p.SetsActions (r.signal.elim p.actions (p.actions.set · .noting)) a.2 := by
  intro a
  cases hr : p.host.readable r.resource with
  | false =>
    have ha : a = _ := run_lowerLimit_unreadable hr
    rw [ha]
    exact .inl ⟨_, rfl, rfl, rfl, rfl⟩
  | true =>
    by_cases hc : ∀ s ∈ r.signal, p.host.catchable s = true
    · have ha : a = _ := run_lowerLimit_eq hr hc
      rw [ha]
      exact .inr ⟨_, rfl, rfl, hc, rfl, rfl, rfl⟩
    · have ha : a = _ := run_lowerLimit_uncatchable hr hc
      rw [ha]
      exact .inl ⟨_, rfl, rfl, rfl, rfl⟩

/-- What was saved restores the action on one signal more. -/
theorem canRestore_cons {r : LimitRequest} {x : SavedLimit} {q : Process} (h : p.CanRestore saved)
    (hr : ∀ s ∈ r.signal, p.actions.get s = .inherited)
    (hx : x.action = r.signal.map fun s => (s, p.actions.get s))
    (hc : ∀ s ∈ r.signal, p.host.catchable s = true)
    (hq : p.SetsActions (r.signal.elim p.actions (p.actions.set · .noting)) q) :
    q.CanRestore (x :: saved) := by
  obtain ⟨hh, -, ha⟩ := hq
  cases hs : r.signal with
  | none =>
    rw [hs] at ha hx
    have hq := h.of_eq hh ha
    refine ⟨fun s hn => ?_, fun y hy s a hya => ?_⟩
    · obtain ⟨hc, y, hy, a, hya⟩ := hq.noting s hn
      exact ⟨hc, y, List.mem_cons_of_mem x hy, a, hya⟩
    · rcases List.mem_cons.mp hy with rfl | hy
      · cases hx.symm.trans hya
      · exact h.inherited y hy s a hya
  | some t =>
    rw [hs] at ha hx
    refine ⟨fun s hn => ?_, fun y hy s a hya => ?_⟩
    · rw [hh]
      rw [ha] at hn
      change (p.actions.set t .noting).get s = _ at hn
      rw [Signal.Table.get_set] at hn
      split at hn
      · next he =>
        rw [he]
        exact ⟨hc t hs, x, List.mem_cons_self, _, hx⟩
      · obtain ⟨hc, y, hy, a, hya⟩ := h.noting s hn
        exact ⟨hc, y, List.mem_cons_of_mem x hy, a, hya⟩
    · rcases List.mem_cons.mp hy with rfl | hy
      · cases hx.symm.trans hya
        exact hr _ hs
      · exact h.inherited y hy s a hya

/-- All soft limits are lowered, and can be restored, or everything is restored. -/
theorem lowerAll_cases {rs : List LimitRequest} (hrs : (rs.filterMap (·.signal)).Nodup)
    (hp : ∀ s ∈ rs.filterMap (·.signal), p.actions.get s = .inherited) (h : p.CanRestore saved) :
    let a := (lowerAll rs saved).run p
    (∃ e, a.1 = .error e ∧ a.2.governance = { p.governance with memoryHook := false } ∧
      ∀ s, a.2.actions.get s = .inherited) ∨
      ∃ saved', a.1 = .ok saved' ∧ a.2.governance = p.governance ∧ a.2.CanRestore saved' := by
  induction rs generalizing p saved with
  | nil => exact .inr ⟨saved, rfl, rfl, h⟩
  | cons r rs ih =>
    intro a
    obtain ⟨⟨result, q⟩, hrun⟩ : ∃ b, (lowerLimit r).run p = b := ⟨_, rfl⟩
    have hcases := lowerLimit_cases r p
    rw [hrun] at hcases
    obtain ⟨e, rfl, hq⟩ | ⟨x, rfl, hx, hc, hq⟩ := hcases
    · obtain ⟨-, hg, hi⟩ := setsActions_restoreAll (h.of_eq hq.host hq.actions)
      have ha : a = pure (.error e, ((restoreAll saved).run q).2) := by
        change (lowerAll (r :: rs) saved).run p = _
        rw [lowerAll, StateT.run_bind, hrun]
        rfl
      rw [ha]
      exact .inl ⟨e, rfl, hg.trans (by rw [hq.governance]), hi⟩
    · have ha : a = (lowerAll rs (x :: saved)).run q := by
        change (lowerAll (r :: rs) saved).run p = _
        rw [lowerAll, StateT.run_bind, hrun]
        rfl
      have hr : ∀ s ∈ r.signal, p.actions.get s = .inherited := fun s hs =>
        hp s (List.mem_filterMap.mpr ⟨r, List.mem_cons_self, hs⟩)
      have hrest : ∀ s ∈ rs.filterMap (·.signal), q.actions.get s = .inherited := by
        intro s hs
        rw [hq.actions]
        cases ht : r.signal with
        | none =>
          rw [List.filterMap_cons_none ht] at hp
          exact hp s hs
        | some t =>
          rw [List.filterMap_cons_some ht] at hrs hp
          change (p.actions.set t .noting).get s = _
          rw [Signal.Table.get_set, if_neg]
          · exact hp s (List.mem_cons_of_mem t hs)
          · rintro rfl
            exact (List.nodup_cons.mp hrs).1 hs
      have hnodup : (rs.filterMap (·.signal)).Nodup :=
        hrs.sublist ((List.sublist_cons_self r rs).filterMap _)
      rw [ha, ← hq.governance]
      exact ih hnodup hrest (canRestore_cons h hr hx hc hq)

/-! ### Arming and disarming -/

theorem nodup_signals_requests (l : Limits) (baseline : Rat) :
    ((l.requests baseline).filterMap (·.signal)).Nodup := by
  have hall : ([Resource.cpuTime, .addressSpace, .fileSize].filterMap Resource.signal?).Nodup := by
    decide
  rw [Limits.requests_eq, List.filterMap_map]
  exact hall.sublist (List.filter_sublist.filterMap Resource.signal?)

variable {l : Limits} {q : Process} {g : Governor}

/-- **Arming with limits where none are in force.** It fails and leaves it at that, or the governor
can restore what it changes. -/
theorem arm_cases (hp : p.IsUnarmed) (hl : l.isUnbounded = false) :
    let a := (arm l).run p
    (∃ e, a.1 = .error e ∧ a.2.IsUnarmed) ∨
      ∃ g saved, a.1 = .ok g ∧ g.saved = some saved ∧ a.2.CanRestore saved ∧
        a.2.governance.armed = true ∧ a.2.governance.breach = none := by
  intro a
  let baseline := (p.host.usage p.readings).cpuTime
  let p₁ : Process := { p.afterReading with
    governance := { p.governance.clear with armed := true } }
  have hcases := lowerAll_cases (p := p₁) (nodup_signals_requests l baseline)
    (fun s _ => hp.action s) (canRestore_nil_iff.mpr hp.action)
  obtain ⟨⟨result, q⟩, hrun⟩ : ∃ b, (lowerAll (l.requests baseline) []).run p₁ = b := ⟨_, rfl⟩
  rw [hrun] at hcases
  obtain ⟨e, rfl, hg, hi⟩ | ⟨saved, rfl, hg, hr⟩ := hcases
  · have ha : a =
        pure (.error e, { q with governance := { q.governance with armed := false } }) := by
      change (arm l).run p = _
      rw [run_arm_unarmed hp.armed hl, StateT.run_bind, hrun]
      rfl
    rw [ha]
    exact .inl ⟨e, rfl,
      { idle := ⟨by rw [hg]; rfl, by rw [hg]; rfl, by rw [hg]; rfl⟩
        memoryHook := by rw [hg]; rfl
        action := hi
        armed := rfl }⟩
  · have ha : a = pure (.ok { limits := l, baseline, saved := some saved }, { q with
        governance := { q.governance with
          memoryHook := q.governance.memoryHook || l.memory ≠ 0 }.watch (l.deadline baseline)
            l.memory.toNat
        log := q.log.push (.armed l) }) := by
      change (arm l).run p = _
      rw [run_arm_unarmed hp.armed hl, StateT.run_bind, hrun]
      rfl
    rw [ha]
    exact .inr ⟨_, saved, rfl, rfl, hr.of_eq rfl rfl, by rw [hg]; rfl, by rw [hg]; rfl⟩

/-- **Disarming a governor with limits** restores the actions on signals. -/
theorem isUnarmed_disarm (hg : g.saved = some saved) (h : p.CanRestore saved) :
    ((g.disarm.run p).2 : Process).IsUnarmed := by
  obtain ⟨-, hgov, hi⟩ := setsActions_restoreAll h
  rw [disarm, hg]
  exact
    { idle := ⟨rfl, rfl, rfl⟩
      memoryHook := (congrArg Governance.memoryHook hgov).trans rfl
      action := hi
      armed := rfl }

end Governor

end GovernedSat
