import GovernedSat.Governor.Arming
import GovernedSat.Proofs.Process.Drift

/-!
# What a governor has in force

On a host on which every call succeeds, all that a process shows of governors is a matter of the
one which has limits in force, if there is one: whether arming is refused, whether the hook is in
place, which signals are noted, and which soft limits are changed. Arming a governor with limits
turns a process with none in force into one where this governor has, disarming it turns that back,
and in between the process drifts, which changes nothing of it.

## Main definitions

* `Limits.on`, `Limits.ceiling` — the limit on a resource, and the soft limit which is asked for.
* `Host.Permits` — every call to the system succeeds.
* `Process.IsPristine` — no governor has limits in force.
* `Process.Standing` — what is in force in a process which started from a pristine one.

## Main results

* `Process.Standing.drift` — drifting changes nothing of it.
* `Process.Standing.arm`, `Process.Standing.disarm` — a governor with limits.
-/

namespace GovernedSat

open Process

/-! ### Limits by resource -/

/-- The signal about a resource. -/
def Resource.signal? : Resource → Option Signal
  | cpuTime => some .cpuTimeExceeded
  | addressSpace => none
  | fileSize => some .fileSizeExceeded

theorem Resource.signal?_eq_some_iff {r : Resource} {s : Signal} :
    r.signal? = some s ↔ s.resource = r := by
  cases r <;> cases s <;> decide

namespace Limits

variable (l : Limits) (baseline : Rat)

/-- The limit on a resource, `0` when there is none. -/
def on : Resource → UInt32
  | .cpuTime => l.time
  | .addressSpace => l.memory
  | .fileSize => l.fileSize

/-- The soft limit asked for a resource when `baseline` seconds of CPU time have passed. -/
def ceiling : Resource → Nat
  | .cpuTime => (baseline + l.time.toNat).ceil.toNat
  | .addressSpace => l.memory.toNat * megabyte
  | .fileSize => l.fileSize.toNat * megabyte

/-- What is asked for a resource. -/
def request (r : Resource) : LimitRequest where
  resource := r
  ceiling := l.ceiling baseline r
  signal := r.signal?

/-- The resources with a limit, in the order in which limits are installed. -/
def limited : List Resource := [.cpuTime, .addressSpace, .fileSize].filter (l.on · ≠ 0)

theorem mem_limited {r : Resource} : r ∈ l.limited ↔ l.on r ≠ 0 := by
  cases r <;> simp [limited]

theorem nodup_limited : l.limited.Nodup := by
  have hall : [Resource.cpuTime, .addressSpace, .fileSize].Nodup := by decide
  exact hall.sublist List.filter_sublist

theorem requests_eq : l.requests baseline = l.limited.map (l.request baseline) := by
  by_cases ht : l.time = 0 <;> by_cases hm : l.memory = 0 <;> by_cases hf : l.fileSize = 0 <;>
    simp [requests, limited, on, request, ceiling, Resource.signal?, ht, hm, hf]

theorem deadline_of_time (h : l.time = 0) : l.deadline baseline = 0 := by
  rw [deadline, if_pos h]

end Limits

/-! ### Pristine processes -/

/-- Every call to the system succeeds. -/
structure Host.Permits (h : Host) : Prop where
  /-- The limits on every resource can be read. -/
  readable : ∀ r, h.readable r = true
  /-- The limits on every resource can be set. -/
  settable : ∀ r, h.settable r = true
  /-- The action on every signal can be changed. -/
  catchable : ∀ s, h.catchable s = true

theorem Host.permits_steady (u : Usage) : (Host.steady u).Permits :=
  ⟨fun _ => rfl, fun _ => rfl, fun _ => rfl⟩

/-- No governor has limits in force, and none can fail to install them. -/
structure Process.IsPristine (p : Process) : Prop extends p.IsUnwatched where
  /-- Every call to the system succeeds. -/
  host : p.host.Permits
  /-- Arming is not refused. -/
  armed : p.governance.armed = false

/-- A new process is pristine. -/
theorem Process.isPristine_new {h : Host} (hh : h.Permits) : IsPristine { host := h } :=
  ⟨isUnwatched_new h, hh, rfl⟩

/-! ### What is in force -/

/-- What is in force for a resource in a process. -/
def SavedLimit.of (p : Process) (r : Resource) : SavedLimit where
  resource := r
  limit := p.limits.get r
  action := r.signal?.map fun s => (s, p.actions.get s)

/-- The limit on a resource of the governor with limits in force, `0` when there is none. -/
def limitOn (g : Option Governor) (r : Resource) : UInt32 := g.elim 0 (·.limits.on r)

theorem limitOn_ne_zero_iff {g : Option Governor} {r : Resource} :
    limitOn g r ≠ 0 ↔ ∃ g' ∈ g, g'.limits.on r ≠ 0 := by
  cases g <;> simp [limitOn]

/-- What is in force in a process which started as `p₀`, when `g` is the governor with limits in
force, if there is one. -/
structure Process.Standing (p₀ p : Process) (g : Option Governor) : Prop where
  /-- The system is the same. -/
  host : p.host = p₀.host
  /-- Arming is refused while limits are in force. -/
  armed : p.governance.armed = g.isSome
  /-- The hook is in place while there is a limit on memory. -/
  memoryHook : p.governance.memoryHook = decide (limitOn g .addressSpace ≠ 0)
  /-- The soft limit on CPU time. -/
  deadline : p.governance.deadline = g.elim 0 fun g => g.limits.deadline g.baseline
  /-- The soft limit on memory. -/
  ceiling : p.governance.ceiling = (limitOn g .addressSpace).toNat
  /-- A signal is noted while there is a limit on its resource. -/
  action : ∀ s, p.actions.get s = if limitOn g s.resource = 0 then p₀.actions.get s else .noting
  /-- The limits on a resource stay without a limit of the governor. -/
  unlimited : ∀ r, limitOn g r = 0 → p.limits.get r = p₀.limits.get r
  /-- With a limit the soft one is lowered, and may be raised again when a breach is noted. -/
  limited : ∀ g' ∈ g, ∀ r, g'.limits.on r ≠ 0 →
    p.limits.get r = (p₀.limits.get r).lowered (g'.limits.ceiling g'.baseline r) ∨
      p.governance.breach.isSome ∧ p.limits.get r = (p₀.limits.get r).raised
  /-- A breach is about a resource with a limit. -/
  breach : ∀ b ∈ p.governance.breach, limitOn g b.resource ≠ 0
  /-- What is to be restored is what the process started with. -/
  saved : ∀ g' ∈ g, g'.saved = some (g'.limits.limited.map (SavedLimit.of p₀)).reverse

namespace Process

variable {p₀ p q : Process} {g : Option Governor}

theorem IsPristine.standing (h : p₀.IsPristine) : p₀.Standing p₀ none where
  host := rfl
  armed := h.armed
  memoryHook := h.memoryHook
  deadline := h.idle.deadline
  ceiling := h.idle.ceiling
  action _ := rfl
  unlimited _ _ := rfl
  limited := nofun
  breach b hb := by
    rw [h.idle.breach] at hb
    cases hb
  saved := nofun

namespace Standing

/-- A signal is noted exactly while there is a limit on its resource. -/
theorem noting_iff (h : p₀.Standing p g) (h₀ : p₀.IsPristine) {s : Signal} :
    p.actions.get s = .noting ↔ limitOn g s.resource ≠ 0 := by
  rw [h.action s, h₀.action s]
  by_cases hz : limitOn g s.resource = 0
  · rw [if_pos hz]
    exact ⟨nofun, fun hne => absurd hz hne⟩
  · rw [if_neg hz]
    exact ⟨fun _ => hz, fun _ => rfl⟩

/-- Only what is limited is watched. -/
theorem limitOn_ne_zero (h : p₀.Standing p g) (h₀ : p₀.IsPristine) {r : Resource}
    (hw : p.Watches r) : limitOn g r ≠ 0 := by
  cases r with
  | cpuTime =>
    rcases hw with ha | hd
    · exact (h.noting_iff h₀ (s := .cpuTimeExceeded)).mp ha
    · intro hz
      rw [h.deadline] at hd
      cases g with
      | none => exact hd rfl
      | some g => exact hd (g.limits.deadline_of_time _ hz)
  | addressSpace =>
    rcases hw with hm | hc
    · simpa [h.memoryHook] using hm
    · intro hz
      rw [h.ceiling, hz] at hc
      exact hc rfl
  | fileSize => exact (h.noting_iff h₀ (s := .fileSizeExceeded)).mp hw

/-- The hard limits stay. -/
theorem hard_eq (h : p₀.Standing p g) (r : Resource) :
    (p.limits.get r).hard = (p₀.limits.get r).hard := by
  by_cases hr : limitOn g r = 0
  · rw [h.unlimited r hr]
  · obtain ⟨g', hg, hne⟩ := limitOn_ne_zero_iff.mp hr
    rcases h.limited g' hg r hne with hl | ⟨-, hl⟩
    · rw [hl, ResourceLimit.hard_lowered]
    · rw [hl, ResourceLimit.hard_raised]

/-- Drifting changes nothing of what is in force. -/
theorem drift (h : p₀.Standing p g) (h₀ : p₀.IsPristine) (hd : p.Drift q) : p₀.Standing q g where
  host := hd.host.trans h.host
  armed := (Governance.armed_eq_of_setup hd.setup).trans h.armed
  memoryHook := (Governance.memoryHook_eq_of_setup hd.setup).trans h.memoryHook
  deadline := (Governance.deadline_eq_of_setup hd.setup).trans h.deadline
  ceiling := (Governance.ceiling_eq_of_setup hd.setup).trans h.ceiling
  action s := by rw [hd.actions, h.action s]
  unlimited r hr := by
    rcases hd.limit r with he | ⟨hw, -⟩
    · rw [he, h.unlimited r hr]
    · exact absurd hr (h.limitOn_ne_zero h₀ hw)
  limited g' hg r hr := by
    rcases hd.limit r with he | ⟨-, hb, he⟩ <;> rcases h.limited g' hg r hr with hl | ⟨hb', hl⟩
    · exact .inl (he.trans hl)
    · exact .inr ⟨hd.isSome_breach hb', he.trans hl⟩
    · exact .inr ⟨hb, by rw [he, hl]; rfl⟩
    · exact .inr ⟨hb, by rw [he, hl]; rfl⟩
  breach b hb := by
    rcases hd.breach with he | ⟨-, b', hb', hw⟩
    · exact h.breach b (he ▸ hb)
    · rw [hb'] at hb
      cases hb
      exact h.limitOn_ne_zero h₀ hw
  saved := h.saved

/-- What is in force has to do with nothing else of the process. -/
theorem of_eq (h : p₀.Standing p g) (hh : q.host = p.host) (hl : q.limits = p.limits)
    (ha : q.actions = p.actions) (hg : q.governance = p.governance) : p₀.Standing q g where
  host := hh.trans h.host
  armed := hg ▸ h.armed
  memoryHook := hg ▸ h.memoryHook
  deadline := hg ▸ h.deadline
  ceiling := hg ▸ h.ceiling
  action := ha ▸ h.action
  unlimited := hl ▸ h.unlimited
  limited := by
    rw [hl, hg]
    exact h.limited
  breach := hg ▸ h.breach
  saved := h.saved

/-- No limits are in force in an idle process with nothing noted. -/
theorem isIdle (h : p₀.Standing p none) : p.IsIdle where
  breach := by
    cases hb : p.governance.breach with
    | none => rfl
    | some b => exact absurd rfl (h.breach b hb)
  deadline := h.deadline
  ceiling := h.ceiling

end Standing

end Process

/-! ### Changing limits and actions -/

/-- The limits and the actions of some resources become the given ones, and all else that concerns
governors stays. -/
structure Process.Alters (p : Process) (rs : List Resource) (limit : Resource → ResourceLimit)
    (action : Signal → SignalAction) (q : Process) : Prop where
  /-- The system is the same. -/
  host : q.host = p.host
  /-- The state of governance stays. -/
  governance : q.governance = p.governance
  /-- The limits on every resource. -/
  limits : ∀ r, q.limits.get r = if r ∈ rs then limit r else p.limits.get r
  /-- The action on every signal. -/
  actions : ∀ s, q.actions.get s = if s.resource ∈ rs then action s else p.actions.get s

namespace Process.Alters

variable {p q q' : Process} {rs : List Resource} {r : Resource} {limit : Resource → ResourceLimit}
  {action : Signal → SignalAction}

theorem nil : p.Alters [] limit action p := ⟨rfl, rfl, fun _ => rfl, fun _ => rfl⟩

theorem cons (h : p.Alters [r] limit action q) (h' : q.Alters rs limit action q') :
    p.Alters (r :: rs) limit action q' where
  host := h'.host.trans h.host
  governance := h'.governance.trans h.governance
  limits x := by
    rw [h'.limits, h.limits]
    by_cases hx : x ∈ rs <;> by_cases hr : x = r <;> simp [hx, hr]
  actions s := by
    rw [h'.actions, h.actions]
    by_cases hx : s.resource ∈ rs <;> by_cases hr : s.resource = r <;> simp [hx, hr]

end Process.Alters

namespace Governor

variable (p₀ : Process) {p : Process} (l : Limits) (baseline : Rat)

/-- One soft limit is lowered, the signal about the resource is noted, and what was in force is
saved. -/
theorem run_lowerLimit (hp : p.host.Permits) {r : Resource}
    (hl : p.limits.get r = p₀.limits.get r)
    (ha : ∀ s : Signal, s.resource = r → p.actions.get s = p₀.actions.get s) :
    ∃ q, (lowerLimit (l.request baseline r)).run p = pure (.ok (.of p₀ r), q) ∧
      p.Alters [r] (fun r => (p₀.limits.get r).lowered (l.ceiling baseline r)) (fun _ => .noting)
        q := by
  have hof : SavedLimit.of p₀ r = .of p r := by
    rw [SavedLimit.of, SavedLimit.of, hl, SavedLimit.mk.injEq]
    refine ⟨rfl, rfl, Option.map_congr fun s hs => ?_⟩
    rw [ha s (Resource.signal?_eq_some_iff.mp hs)]
  let lowered := (p.limits.get r).lowered (l.ceiling baseline r)
  refine ⟨{ p with
    limits := p.limits.set r lowered
    actions := r.signal?.elim p.actions fun s => p.actions.set s .noting
    log := p.log.push (.limitLowered r lowered.soft) }, ?_, rfl, rfl, fun x => ?_, fun s => ?_⟩
  · rw [hof]
    cases r <;> simp [lowerLimit, readLimit, catchSignal, setAction, setLimit, logEvent,
      Limits.request, Resource.signal?, SavedLimit.of, hp.readable, hp.settable, hp.catchable,
      lowered]
  · rw [Resource.Table.get_set]
    by_cases hx : x = r
    · rw [if_pos hx, if_pos (List.mem_singleton.mpr hx), hx, ← hl]
    · rw [if_neg hx, if_neg (mt List.mem_singleton.mp hx)]
  · cases r <;> cases s <;> rfl

/-- What was in force for one resource is restored. -/
theorem run_restoreLimit (hp : p.host.Permits) (r : Resource) :
    ∃ q, (restoreLimit (.of p₀ r)).run p = pure ((), q) ∧
      p.Alters [r] p₀.limits.get p₀.actions.get q := by
  refine ⟨{ p with
    limits := p.limits.set r (p₀.limits.get r)
    actions := r.signal?.elim p.actions fun s => p.actions.set s (p₀.actions.get s) }, ?_, rfl, rfl,
    fun x => ?_, fun s => ?_⟩
  · cases r <;> simp [restoreLimit, setAction, setLimit, Resource.signal?, SavedLimit.of,
      hp.settable, hp.catchable, discard, Functor.discard, map_const]
  · cases r <;> cases x <;> rfl
  · cases r <;> cases s <;> rfl

theorem run_restoreLimits (hp : p.host.Permits) (rs : List Resource) :
    ∃ q, ((rs.map (SavedLimit.of p₀)).forM restoreLimit).run p = pure ((), q) ∧
      p.Alters rs p₀.limits.get p₀.actions.get q := by
  induction rs generalizing p with
  | nil => exact ⟨p, rfl, .nil⟩
  | cons r rs ih =>
    obtain ⟨q, hq, ha⟩ := run_restoreLimit p₀ hp r
    obtain ⟨q', hq', ha'⟩ := ih (p := q) (ha.host ▸ hp)
    refine ⟨q', ?_, ha.cons ha'⟩
    change (restoreLimit _ >>= fun _ => (rs.map _).forM restoreLimit).run p = _
    rw [StateT.run_bind, hq]
    exact hq'

/-- The soft limits are lowered one after another, and what was in force at first is saved. -/
theorem run_lowerAll (hp : p.host.Permits) {rs : List Resource} (hrs : rs.Nodup)
    (hl : ∀ r ∈ rs, p.limits.get r = p₀.limits.get r)
    (ha : ∀ s : Signal, s.resource ∈ rs → p.actions.get s = p₀.actions.get s)
    (saved : List SavedLimit) :
    ∃ q, (lowerAll (rs.map (l.request baseline)) saved).run p =
        pure (.ok ((rs.map (SavedLimit.of p₀)).reverse ++ saved), q) ∧
      p.Alters rs (fun r => (p₀.limits.get r).lowered (l.ceiling baseline r)) (fun _ => .noting)
        q := by
  induction rs generalizing p saved with
  | nil => exact ⟨p, rfl, .nil⟩
  | cons r rs ih =>
    obtain ⟨hr, hrs⟩ := List.nodup_cons.mp hrs
    obtain ⟨q, hq, halt⟩ := run_lowerLimit p₀ l baseline hp
      (hl r List.mem_cons_self) fun s hs => ha s (hs ▸ List.mem_cons_self)
    -- What is lowered later is still as it was.
    have hrest : ∀ x ∈ rs, x ∉ [r] := by
      intro x hx hr'
      rw [List.mem_singleton.mp hr'] at hx
      exact hr hx
    obtain ⟨q', hq', halt'⟩ := ih (halt.host ▸ hp) hrs
      (fun x hx => by rw [halt.limits, if_neg (hrest x hx), hl x (List.mem_cons_of_mem r hx)])
      (fun s hs => by rw [halt.actions, if_neg (hrest _ hs), ha s (List.mem_cons_of_mem r hs)])
      (.of p₀ r :: saved)
    refine ⟨q', ?_, halt.cons halt'⟩
    rw [List.map_cons, lowerAll, StateT.run_bind, hq]
    refine hq'.trans ?_
    rw [List.map_cons, List.reverse_cons, List.append_assoc, List.singleton_append]

/-- Arming with limits lowers the soft limits where none are in force. -/
theorem run_arm_unarmed {l : Limits} (ha : p.governance.armed = false)
    (hl : l.isUnbounded = false) :
    let baseline := (p.host.usage p.readings).cpuTime
    (arm l).run p = (do
      match ← lowerAll (l.requests baseline) [] with
      | .error e =>
        govern ({ · with armed := false })
        return .error e
      | .ok saved =>
        govern fun g =>
          ({ g with memoryHook := g.memoryHook || l.memory ≠ 0 }).watch
            (l.deadline baseline) l.memory.toNat
        logEvent (.armed l)
        return .ok { limits := l, baseline, saved := some saved } :
      ProcessM (Except LimitError Governor)).run
        { p.afterReading with governance := { p.governance.clear with armed := true } } := by
  intro baseline
  change (if l.isUnbounded = true then _ else _ : ProcessM _).run p.afterReading = _
  rw [if_neg (ne_true_of_eq_false hl)]
  change (if p.governance.armed = true then _ else _ : ProcessM _).run p.afterReading = _
  rw [if_neg (ne_true_of_eq_false ha)]
  rfl

/-- Arming with limits is refused while limits are in force. -/
theorem run_arm_refused {l : Limits} (ha : p.governance.armed = true)
    (hl : l.isUnbounded = false) :
    (arm l).run p = pure (.error .governorArmed,
      { p.afterReading with log := p.log.push .armingRefused }) := by
  simp [arm, hl, ha, readUsage, logEvent, afterReading]

end Governor

/-! ### Arming and disarming -/

namespace Process.Standing

variable {p₀ p : Process} {g : Option Governor} {l : Limits}

/-- Arming with limits is refused while limits are in force, and changes nothing of them. -/
theorem run_arm_of_some {g : Governor} (h : p₀.Standing p (some g)) (hl : l.isUnbounded = false) :
    (Governor.arm l).run p = pure (.error .governorArmed,
      { p.afterReading with log := p.log.push .armingRefused }) :=
  Governor.run_arm_refused h.armed hl

/-- Arming with limits puts them in force where none are. -/
theorem arm (h : p₀.Standing p none) (h₀ : p₀.IsPristine) (hl : l.isUnbounded = false) :
    ∃ g q, (Governor.arm l).run p = pure (.ok g, q) ∧ g.limits = l ∧ p₀.Standing q (some g) := by
  have ha : p.governance.armed = false := h.armed
  let baseline := (p.host.usage p.readings).cpuTime
  let p₁ : Process := { p.afterReading with
    governance := { p.governance.clear with armed := true } }
  obtain ⟨q, hq, halt⟩ := Governor.run_lowerAll p₀ (p := p₁) l baseline
    (h.host ▸ h₀.host) l.nodup_limited (fun r _ => h.unlimited r rfl)
    (fun s _ => h.action s) []
  rw [← Limits.requests_eq, List.append_nil] at hq
  let g : Governor :=
    { limits := l, baseline, saved := some (l.limited.map (SavedLimit.of p₀)).reverse }
  refine ⟨g, { q with
    governance := { q.governance with
      memoryHook := q.governance.memoryHook || l.memory ≠ 0 }.watch (l.deadline baseline)
        l.memory.toNat
    log := q.log.push (.armed l) }, ?_, rfl, ?_⟩
  · rw [Governor.run_arm_unarmed ha hl, StateT.run_bind, hq]
    rfl
  · have hg : q.governance = p₁.governance := halt.governance
    have hm : p.governance.memoryHook = false := h.memoryHook
    exact
      { host := halt.host.trans h.host
        armed := by
          change q.governance.armed = true
          rw [hg]
        memoryHook := by
          change (q.governance.memoryHook || decide (l.memory ≠ 0)) = _
          rw [hg]
          change (p.governance.memoryHook || _) = _
          rw [hm, Bool.false_or]
          rfl
        deadline := rfl
        ceiling := rfl
        action := fun s => by
          change q.actions.get s = if l.on s.resource = 0 then p₀.actions.get s else .noting
          rw [halt.actions]
          by_cases hs : l.on s.resource = 0
          · rw [if_pos hs, if_neg (mt l.mem_limited.mp (not_not_intro hs))]
            exact h.action s
          · rw [if_neg hs, if_pos (l.mem_limited.mpr hs)]
        unlimited := fun r hr => by
          change q.limits.get r = _
          rw [halt.limits, if_neg (mt l.mem_limited.mp (not_not_intro hr))]
          exact h.unlimited r rfl
        limited := by
          rintro _ ⟨⟩ r hr
          refine .inl ?_
          change q.limits.get r = _
          rw [halt.limits, if_pos (l.mem_limited.mpr hr)]
        breach := fun b hb => by
          change q.governance.breach = _ at hb
          rw [hg] at hb
          cases hb
        saved := by
          rintro _ ⟨⟩
          rfl }

/-- Disarming restores what was in force. -/
theorem disarm {g : Governor} (h : p₀.Standing p (some g)) (h₀ : p₀.IsPristine) :
    ∃ q, g.disarm.run p = pure ((), q) ∧ p₀.Standing q none := by
  let p₁ : Process := { p with governance := { p.governance with memoryHook := false } }
  obtain ⟨q, hq, halt⟩ := Governor.run_restoreLimits p₀ (p := p₁) (h.host ▸ h₀.host)
    g.limits.limited.reverse
  have hmem : ∀ {r : Resource}, r ∈ g.limits.limited.reverse ↔ g.limits.on r ≠ 0 :=
    List.mem_reverse.trans g.limits.mem_limited
  rw [List.map_reverse] at hq
  refine ⟨{ q with
    readings := q.readings + 1
    governance := { q.governance.clear with armed := false }
    log := q.log.push (.disarmed ((q.host.usage q.readings).cpuTime - g.baseline)) }, ?_, ?_⟩
  · rw [Governor.disarm, h.saved g rfl]
    change ((Governor.restoreAll _ : ProcessM Unit) >>= _).run p = _
    rw [StateT.run_bind]
    change (((_ : List SavedLimit).forM Governor.restoreLimit).run p₁ >>= _) = _
    rw [hq]
    rfl
  · exact
      { host := halt.host.trans h.host
        armed := rfl
        memoryHook := by
          change q.governance.memoryHook = false
          rw [halt.governance]
        deadline := rfl
        ceiling := rfl
        action := fun s => by
          change q.actions.get s = p₀.actions.get s
          rw [halt.actions]
          by_cases hs : g.limits.on s.resource = 0
          · rw [if_neg (mt hmem.mp (not_not_intro hs))]
            exact (h.action s).trans (if_pos hs)
          · rw [if_pos (hmem.mpr hs)]
        unlimited := fun r _ => by
          change q.limits.get r = _
          rw [halt.limits]
          by_cases hr : g.limits.on r = 0
          · rw [if_neg (mt hmem.mp (not_not_intro hr))]
            exact h.unlimited r hr
          · rw [if_pos (hmem.mpr hr)]
        limited := by rintro _ ⟨⟩
        breach := by rintro _ ⟨⟩
        saved := by rintro _ ⟨⟩ }

end Process.Standing

end GovernedSat
