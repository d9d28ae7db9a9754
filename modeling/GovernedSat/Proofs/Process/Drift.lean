import GovernedSat.Process.Activity
import GovernedSat.Proofs.Process.Idle

/-!
# What may happen to a process between arming and disarming

Signals, failed allocations, polls and checkpoints change a process which a governor has limits in
force in. All they do to it is to raise the soft limit of a resource to the hard one and to note a
breach, and only for a resource which is *watched*: its signal is noted, the hook is in place, or a
soft limit on it is compared with readings. A soft limit is never raised unless a breach is noted,
and a breach noted stands. What was set up when the governor was armed stays as it is, and calls to
solvers are only added to the journal.

A process which changes in no other way *drifts*, and it does so in a *lull* when no call is made
and no event is logged. Both are preorders, so that a computation moves every process in such a way
when its parts do. Where nothing is watched, drifting notes nothing, and it stays at that.

## Main definitions

* `Governance.setup` — the part of the state of governance which arming sets up.
* `Process.Watches` — the resources which are watched.
* `Process.Drift`, `Process.Lull` — the changes described above.
* `Process.IsUnwatched` — processes in which nothing is watched.
* `Moves` — computations by which every process is changed in a certain way.
* `Drifts`, `Lulls` — computations under which every process drifts, or does so quietly.

## Main results

* `Process.Drift.trans`, `Moves.bind` — changes, and computations, one after another.
* `Process.Drift.isUnwatched` — where nothing is watched.
* `lulls_deliver`, `lulls_stopRequested`, `drifts_checkpoint` — what happens.
-/

namespace GovernedSat

open Process

/-- The resource a breach is about. -/
def Breach.resource : Breach → Resource
  | time => .cpuTime
  | memory => .addressSpace
  | fileSize => .fileSize

/-! ### The setup -/

namespace Governance

/-- What arming sets up: all but the breach noted and the count of polls. -/
def setup (g : Governance) : Governance := { g with breach := none, polls := 0 }

variable {g g' : Governance}

theorem armed_eq_of_setup (h : g'.setup = g.setup) : g'.armed = g.armed := by
  simpa [setup] using congrArg armed h

theorem memoryHook_eq_of_setup (h : g'.setup = g.setup) : g'.memoryHook = g.memoryHook := by
  simpa [setup] using congrArg memoryHook h

theorem deadline_eq_of_setup (h : g'.setup = g.setup) : g'.deadline = g.deadline := by
  simpa [setup] using congrArg deadline h

theorem ceiling_eq_of_setup (h : g'.setup = g.setup) : g'.ceiling = g.ceiling := by
  simpa [setup] using congrArg ceiling h

end Governance

/-! ### Drifting -/

namespace Process

variable {p q r : Process}

/-- The limits on a resource are watched: passing them is noted. -/
def Watches (p : Process) : Resource → Prop
  | .cpuTime => p.actions.cpuTimeExceeded = .noting ∨ p.governance.deadline ≠ 0
  | .addressSpace => p.governance.memoryHook = true ∨ p.governance.ceiling ≠ 0
  | .fileSize => p.actions.fileSizeExceeded = .noting

/-- A signal which is noted is about a resource which is watched. -/
theorem watches_of_noting {s : Signal} (h : p.actions.get s = .noting) : p.Watches s.resource := by
  cases s with
  | cpuTimeExceeded => exact .inl h
  | fileSizeExceeded => exact h

/-- A soft limit which a reading reaches is on a resource which is watched. -/
theorem watches_of_reachedLimit? {m : MemoryMeasure} {u : Usage} {b : Breach}
    (h : p.governance.reachedLimit? m u = some b) : p.Watches b.resource := by
  unfold Governance.reachedLimit? at h
  split at h
  · next hd =>
    obtain rfl := Option.some.inj h
    exact .inr hd.1
  · split at h
    · next hm =>
      obtain rfl := Option.some.inj h
      exact .inr fun hz => by simp [ceilingReached, hz] at hm
    · cases h

/-- What may happen to a process between arming and disarming. -/
structure Drift (p q : Process) : Prop where
  /-- The system is the same. -/
  host : q.host = p.host
  /-- The actions on signals stay. -/
  actions : q.actions = p.actions
  /-- What was set up stays. -/
  setup : q.governance.setup = p.governance.setup
  /-- A soft limit is raised only on a resource which is watched, and with a breach noted. -/
  limit : ∀ x, q.limits.get x = p.limits.get x ∨
    p.Watches x ∧ q.governance.breach.isSome ∧ q.limits.get x = (p.limits.get x).raised
  /-- A breach noted stands, and a new one is about a resource which is watched. -/
  breach : q.governance.breach = p.governance.breach ∨
    p.governance.breach = none ∧ ∃ b, q.governance.breach = some b ∧ p.Watches b.resource
  /-- Calls are only added to the journal. -/
  journal : p.journal.toList <+: q.journal.toList

namespace Drift

/-- Nothing happens to limits, actions and the state of governance. -/
theorem of_eq (hh : q.host = p.host) (hl : q.limits = p.limits) (ha : q.actions = p.actions)
    (hg : q.governance = p.governance) (hj : p.journal.toList <+: q.journal.toList) :
    p.Drift q where
  host := hh
  actions := ha
  setup := by rw [hg]
  limit _ := .inl (by rw [hl])
  breach := .inl (by rw [hg])
  journal := hj

theorem refl (p : Process) : p.Drift p := .of_eq rfl rfl rfl rfl List.prefix_rfl

theorem watches_iff (h : p.Drift q) {x : Resource} : q.Watches x ↔ p.Watches x := by
  have hd := Governance.deadline_eq_of_setup h.setup
  have hm := Governance.memoryHook_eq_of_setup h.setup
  have hc := Governance.ceiling_eq_of_setup h.setup
  cases x with
  | cpuTime => rw [Watches, Watches, h.actions, hd]
  | addressSpace => rw [Watches, Watches, hm, hc]
  | fileSize => rw [Watches, Watches, h.actions]

/-- A breach noted stands. -/
theorem breach_eq_some (h : p.Drift q) {b : Breach} (hb : p.governance.breach = some b) :
    q.governance.breach = some b := by
  rcases h.breach with he | ⟨hn, -⟩
  · rw [he, hb]
  · rw [hn] at hb
    cases hb

/-- No breach was noted where none is noted later. -/
theorem breach_eq_none (h : p.Drift q) (hb : q.governance.breach = none) :
    p.governance.breach = none := by
  cases hp : p.governance.breach with
  | none => rfl
  | some b =>
    rw [h.breach_eq_some hp] at hb
    cases hb

theorem isSome_breach (h : p.Drift q) (hb : p.governance.breach.isSome) :
    q.governance.breach.isSome := by
  obtain ⟨b, hb⟩ := Option.isSome_iff_exists.mp hb
  rw [h.breach_eq_some hb]
  rfl

theorem trans (h : p.Drift q) (h' : q.Drift r) : p.Drift r where
  host := h'.host.trans h.host
  actions := h'.actions.trans h.actions
  setup := h'.setup.trans h.setup
  limit x := by
    rcases h'.limit x with he' | ⟨hw', hb', he'⟩ <;> rcases h.limit x with he | ⟨hw, hb, he⟩
    · exact .inl (he'.trans he)
    · exact .inr ⟨hw, h'.isSome_breach hb, he'.trans he⟩
    · exact .inr ⟨h.watches_iff.mp hw', hb', by rw [he', he]⟩
    · exact .inr ⟨hw, hb', by rw [he', he]; rfl⟩
  breach := by
    rcases h.breach with he | ⟨hn, b, hb, hw⟩
    · rcases h'.breach with he' | ⟨hn', b, hb, hw⟩
      · exact .inl (he'.trans he)
      · exact .inr ⟨he ▸ hn', b, hb, h.watches_iff.mp hw⟩
    · exact .inr ⟨hn, b, h'.breach_eq_some hb, hw⟩
  journal := h.journal.trans h'.journal

instance : Std.Refl Drift := ⟨refl⟩

instance : Trans Drift Drift Drift := ⟨trans⟩

end Drift

/-- Nothing is watched, and no breach is noted. -/
structure IsUnwatched (p : Process) : Prop where
  /-- No breach is noted, and no soft limit is set. -/
  idle : p.IsIdle
  /-- The hook is not in place. -/
  memoryHook : p.governance.memoryHook = false
  /-- No signal is noted. -/
  action : ∀ s, p.actions.get s = .inherited

/-- A new process is not watched. -/
theorem isUnwatched_new (h : Host) : IsUnwatched { host := h } :=
  ⟨isIdle_new h, rfl, fun s => by cases s <;> rfl⟩

theorem IsUnwatched.not_watches (h : p.IsUnwatched) (x : Resource) : ¬ p.Watches x := by
  have hnoting : ∀ s, p.actions.get s ≠ .noting := fun s hs => by
    rw [h.action s] at hs
    cases hs
  cases x with
  | cpuTime => exact fun hw => hw.elim (hnoting .cpuTimeExceeded) (· h.idle.deadline)
  | addressSpace =>
    rintro (hm | hc)
    · rw [h.memoryHook] at hm
      cases hm
    · exact hc h.idle.ceiling
  | fileSize => exact hnoting .fileSizeExceeded

/-- Where nothing is watched, drifting leaves it at that. -/
theorem Drift.isUnwatched (h : p.Drift q) (hp : p.IsUnwatched) : q.IsUnwatched where
  idle :=
    { breach := by
        rcases h.breach with he | ⟨-, b, -, hw⟩
        · exact he.trans hp.idle.breach
        · exact absurd hw (hp.not_watches b.resource)
      deadline := (Governance.deadline_eq_of_setup h.setup).trans hp.idle.deadline
      ceiling := (Governance.ceiling_eq_of_setup h.setup).trans hp.idle.ceiling }
  memoryHook := (Governance.memoryHook_eq_of_setup h.setup).trans hp.memoryHook
  action s := by rw [h.actions, hp.action s]

/-- A process which drifts while no call is made and no event is logged. -/
structure Lull (p q : Process) : Prop extends p.Drift q where
  /-- No call is made. -/
  calls : q.journal = p.journal
  /-- No event is logged. -/
  events : q.log = p.log

namespace Lull

/-- Nothing happens to limits, actions and the state of governance. -/
theorem of_eq (hh : q.host = p.host) (hl : q.limits = p.limits) (ha : q.actions = p.actions)
    (hg : q.governance = p.governance) (hj : q.journal = p.journal) (he : q.log = p.log) :
    p.Lull q :=
  ⟨.of_eq hh hl ha hg (hj ▸ List.prefix_rfl), hj, he⟩

theorem refl (p : Process) : p.Lull p := .of_eq rfl rfl rfl rfl rfl rfl

theorem trans (h : p.Lull q) (h' : q.Lull r) : p.Lull r :=
  ⟨h.toDrift.trans h'.toDrift, h'.calls.trans h.calls, h'.events.trans h.events⟩

instance : Std.Refl Lull := ⟨refl⟩

instance : Trans Lull Lull Lull := ⟨trans⟩

/-- Noting a breach about a resource which is watched. -/
theorem note {b : Breach} (hw : p.Watches b.resource) :
    p.Lull { p with governance := p.governance.note b } where
  host := rfl
  actions := rfl
  setup := rfl
  limit _ := .inl rfl
  breach := by
    cases hb : p.governance.breach with
    | some b' => exact .inl (by rw [Governance.note_of_breach hb, hb])
    | none => exact .inr ⟨rfl, b, by rw [Governance.breach_note, hb]; rfl, hw⟩
  journal := List.prefix_rfl
  calls := rfl
  events := rfl

end Lull

end Process

/-! ### Computations -/

section Computations

variable {α β : Type} {x : ProcessM α} {P Q : α → Prop} {R R' : Process → Process → Prop}

/-- Every process changes as `R` says under the computation, and `post` is true of the result. -/
def Moves (R : Process → Process → Prop) (x : ProcessM α) (post : α → Prop) : Prop :=
  ∀ p : Process, R p (x.run p).2 ∧ post (x.run p).1

/-- Every process drifts under the computation. -/
abbrev Drifts (x : ProcessM α) (post : α → Prop) : Prop := Moves Drift x post

/-- Every process drifts under the computation, without a call or an event. -/
abbrev Lulls (x : ProcessM α) : Prop := Moves Lull x fun _ => True

theorem Moves.mono (hx : Moves R x P) (h : ∀ a, P a → Q a) : Moves R x Q :=
  fun p => ⟨(hx p).1, h _ (hx p).2⟩

/-- Changes of one kind are of another kind. -/
theorem Moves.of_imp (hx : Moves R x P) (h : ∀ p q, R p q → R' p q) : Moves R' x P :=
  fun p => ⟨h _ _ (hx p).1, (hx p).2⟩

theorem Lulls.drifts (hx : Lulls x) : Drifts x fun _ => True := fun p => ⟨(hx p).1.toDrift, trivial⟩

theorem moves_pure [Std.Refl R] {a : α} (h : P a) : Moves R (pure a) P :=
  fun p => ⟨Std.Refl.refl p, h⟩

theorem Moves.bind [Trans R R R] {f : α → ProcessM β} {S : β → Prop} (hx : Moves R x P)
    (hf : ∀ a, P a → Moves R (f a) S) : Moves R (x >>= f) S := by
  intro p
  rw [StateT.run_bind]
  obtain ⟨hd, ha⟩ := hx p
  obtain ⟨hd', hb⟩ := hf _ ha (x.run p).2
  exact ⟨Trans.trans hd hd', hb⟩

/-- The process is read. -/
theorem moves_get [Std.Refl R] : Moves R (get : ProcessM Process) fun _ => True :=
  fun p => ⟨Std.Refl.refl p, trivial⟩

theorem moves_modify {f : Process → Process} (h : ∀ p, R p (f p)) :
    Moves R (modify f) fun _ => True := fun p => ⟨h p, trivial⟩

theorem moves_discard (hx : Moves R x P) : Moves R (discard x) fun _ => True :=
  fun p => ⟨(hx p).1, trivial⟩

theorem lulls_readUsage : Lulls readUsage := fun _ => ⟨.of_eq rfl rfl rfl rfl rfl rfl, trivial⟩

theorem drifts_logEvent (e : LogEvent) : Drifts (logEvent e) fun _ => True :=
  moves_modify fun _ => .of_eq rfl rfl rfl rfl List.prefix_rfl

/-- A call is added to the journal. -/
theorem drifts_record (c : Call) : Drifts (record c) fun _ => True :=
  moves_modify fun _ => .of_eq rfl rfl rfl rfl ⟨[c], Array.toList_push.symm⟩

end Computations

/-! ### What happens to a process -/

section Activity

theorem run_raiseSoftLimit (r : Resource) (p : Process) : (raiseSoftLimit r).run p = pure ((),
    if p.host.readable r ∧ p.host.settable r then
      { p with limits := p.limits.set r (p.limits.get r).raised }
    else p) := by
  cases hr : p.host.readable r <;> cases hs : p.host.settable r <;>
    simp [raiseSoftLimit, readLimit, setLimit, discard, Functor.discard, map_const, hr, hs]

/-- The soft limit on a resource which is watched may be raised, as the breach is noted next. -/
theorem lull_breached {b : Breach} {p : Process} (hw : p.Watches b.resource) :
    p.Lull ((do raiseSoftLimit b.resource; govern (·.note b) : ProcessM Unit).run p).2 := by
  have hb : (p.governance.note b).breach.isSome := by
    rw [Governance.breach_note]
    rfl
  rw [StateT.run_bind, run_raiseSoftLimit]
  by_cases hset : p.host.readable b.resource ∧ p.host.settable b.resource
  · rw [if_pos hset]
    refine ⟨⟨rfl, rfl, rfl, fun x => ?_, (Lull.note hw).breach, List.prefix_rfl⟩, rfl, rfl⟩
    change (p.limits.set _ _).get x = _ ∨ _ ∧ _ ∧ (p.limits.set _ _).get x = _
    rw [Resource.Table.get_set]
    by_cases hx : x = b.resource
    · rw [if_pos hx, hx]
      exact .inr ⟨hw, hb, rfl⟩
    · rw [if_neg hx]
      exact .inl rfl
  · rw [if_neg hset]
    exact .note hw

/-- Nothing happens on a signal which is not noted. -/
theorem run_deliver_inherited {s : Signal} {p : Process} (h : p.actions.get s = .inherited) :
    (deliver s).run p = pure (false, p) := by
  simp [deliver, h]

theorem run_deliver_noting {s : Signal} {p : Process} (h : p.actions.get s = .noting) :
    (deliver s).run p = (do
      raiseSoftLimit s.resource
      govern (·.note s.breach)
      return true : ProcessM Bool).run p := by
  simp [deliver, h]

theorem lulls_deliver (s : Signal) : Lulls (deliver s) := by
  intro p
  refine ⟨?_, trivial⟩
  cases ha : p.actions.get s with
  | inherited =>
    rw [run_deliver_inherited ha]
    exact .refl p
  | noting =>
    have hs : s.resource = s.breach.resource := by cases s <;> rfl
    rw [run_deliver_noting ha, hs]
    exact lull_breached (hs ▸ watches_of_noting ha)

/-- Nothing happens when memory cannot be allocated while the hook is not in place. -/
theorem run_allocationFailed_unhooked {p : Process} (h : p.governance.memoryHook = false) :
    allocationFailed.run p = pure (false, p) := by
  simp [allocationFailed, h]

theorem run_allocationFailed_hooked {p : Process} (h : p.governance.memoryHook = true) :
    allocationFailed.run p = (do
      raiseSoftLimit .addressSpace
      govern (·.note .memory)
      return true : ProcessM Bool).run p := by
  simp [allocationFailed, h]

theorem lulls_allocationFailed : Lulls allocationFailed := by
  intro p
  refine ⟨?_, trivial⟩
  cases hm : p.governance.memoryHook with
  | false =>
    rw [run_allocationFailed_unhooked hm]
    exact .refl p
  | true =>
    rw [run_allocationFailed_hooked hm]
    exact lull_breached (b := .memory) (.inl hm)

theorem lulls_attempt (bytes : Nat) : Lulls (attempt bytes) :=
  fun _ => ⟨.of_eq rfl rfl rfl rfl rfl rfl, trivial⟩

/-- Both attempts are quiet, and so is what happens in between. -/
theorem lulls_allocate (bytes : Nat) : Lulls (allocate bytes) := by
  refine (lulls_attempt bytes).bind fun granted _ => ?_
  cases granted with
  | true => exact moves_pure trivial
  | false =>
    refine lulls_allocationFailed.bind fun again _ => ?_
    cases again with
    | true => exact lulls_attempt bytes
    | false => exact moves_pure trivial

theorem lulls_reserve (megabytes : Nat) : Lulls (reserve megabytes) := by
  refine lulls_readUsage.bind fun u _ p => ⟨?_, trivial⟩
  rw [StateT.run_bind, StateT.run_get, pure_bind]
  split <;> exact .of_eq rfl rfl rfl rfl rfl rfl

theorem lulls_writeFile (offset length : Nat) : Lulls (writeFile offset length) := by
  refine moves_get.bind fun p _ => ?_
  dsimp only
  split
  · exact moves_pure trivial
  · split
    · exact (moves_discard (lulls_deliver _)).bind fun _ _ => moves_pure trivial
    · exact moves_pure trivial

end Activity

/-! ### Checkpoints and polls -/

section Polling

variable {R : Process → Process → Prop}

/-- The reading of the resources in use which is made next. -/
def Process.reading (p : Process) : Usage := (readUsage.run p).1

/-- The soft limit which is reached is noted. -/
theorem run_noteReachedLimit_eq (m : MemoryMeasure) (p : Process) :
    (noteReachedLimit m).run p = pure (p.governance.reachedLimit? m p.reading,
      (p.governance.reachedLimit? m p.reading).elim p.afterReading fun b =>
        { p.afterReading with governance := p.governance.note b }) := by
  have hread : readUsage.run p = pure (p.reading, p.afterReading) := rfl
  have hlimits : p.afterReading.governance = p.governance := rfl
  rw [noteReachedLimit, StateT.run_bind, hread, pure_bind, StateT.run_bind, StateT.run_get,
    pure_bind]
  simp only [hlimits]
  cases p.governance.reachedLimit? m p.reading <;> rfl

theorem lulls_noteReachedLimit (m : MemoryMeasure) : Lulls (noteReachedLimit m) := by
  refine fun p => ⟨?_, trivial⟩
  rw [run_noteReachedLimit_eq]
  have hread : p.Lull p.afterReading := .of_eq rfl rfl rfl rfl rfl rfl
  cases hr : p.governance.reachedLimit? m p.reading with
  | none => exact hread
  | some b => exact hread.trans (.note (p := p.afterReading) (watches_of_reachedLimit? hr))

/-- The process after a poll is counted. -/
def Process.polled (p : Process) : Process := { p with governance := p.governance.poll.2 }

theorem Process.lull_polled (p : Process) : p.Lull p.polled :=
  ⟨⟨rfl, rfl, rfl, fun _ => .inl rfl, .inl rfl, List.prefix_rfl⟩, rfl, rfl⟩

theorem lulls_stopRequested : Lulls stopRequested := by
  refine moves_get.bind fun p _ => ?_
  split
  · exact moves_pure trivial
  · have hpoll : Lulls (modifyGet fun p : Process => (p.governance.poll.1, p.polled)) :=
      fun p => ⟨p.lull_polled, trivial⟩
    refine hpoll.bind fun due _ => ?_
    split
    · exact (lulls_noteReachedLimit _).bind fun _ _ => moves_pure trivial
    · exact moves_pure trivial

/-- What a checkpoint tells once it has looked at the soft limits. -/
def tellBreach : ProcessM (Except LimitError Unit) := do
  match (← get).governance.breach with
  | some b =>
    logEvent (.breachFound b)
    return .error b.toError
  | none => return .ok ()

theorem checkpoint_eq : checkpoint = (do
    if (← get).governance.breach.isNone then
      discard (noteReachedLimit .resident)
    tellBreach) := rfl

/-- What a checkpoint finds is logged. -/
theorem moves_checkpoint_of [Std.Refl R] [Trans R R R]
    (hlook : Moves R (noteReachedLimit .resident) fun _ => True)
    (hlog : ∀ b, Moves R (logEvent (.breachFound b)) fun _ => True) :
    Moves R checkpoint fun _ => True := by
  have htell : Moves R tellBreach fun _ => True := by
    refine moves_get.bind fun q _ => ?_
    split
    · exact (hlog _).bind fun _ _ => moves_pure trivial
    · exact moves_pure trivial
  rw [checkpoint_eq]
  refine moves_get.bind fun p _ => ?_
  split
  · exact (moves_discard hlook).bind fun _ _ => htell
  · exact htell

theorem drifts_checkpoint : Drifts checkpoint fun _ => True :=
  moves_checkpoint_of (lulls_noteReachedLimit _).drifts fun _ => drifts_logEvent _

end Polling

end GovernedSat
