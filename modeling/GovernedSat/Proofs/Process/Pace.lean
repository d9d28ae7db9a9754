import GovernedSat.Proofs.Process.Drift

/-!
# A run under limits beside the run without

The same computation is run in two processes: in one of them limits are in force, and in the other
one nothing is watched. As long as no breach is noted in the first, both do the same, so the
processes stay *in pace*: they have the same script and the same journal. A breach noted is found at
the checkpoint after the solve at hand, and from there on the first run is *cut*: all it does is to
release solvers, while the second run goes on.

Which solvers there are to be released is read off the journal, and what the checkpoints found is
read off the log.

## Main definitions

* `aliveSolvers` — the solvers made and not yet released.
* `checkpointOutcomes` — what the checkpoints found.
* `InPace`, `IsCut` — how the two processes compare.
* `Paced` — computations which keep processes in pace, or are cut.
* `Finishes`, `Steady` — what is done after a cut, and computations which are done then as well.
* `Follows` — computations which do the same unless a breach is noted.

## Main results

* `InPace.solved`, `InPace.cut` — a solve which passes its checkpoint, and one which does not.
* `Paced.bind`, `Steady.bind`, `Follows.bind` — computations one after another.
* `follows_deliver`, `follows_stopRequested` — signals and polls.
* `checkpoint_cases` — a checkpoint finds a breach, or passes.
-/

namespace GovernedSat

open Process

/-! ### Reading the journal and the log -/

/-- The solvers alive after a call. -/
def Call.track (alive : List Nat) : Call → List Nat
  | init i => i :: alive
  | release i => alive.erase i
  | clause .. | assume .. | solve _ => alive

/-- The solvers made and not yet released in the course of some calls, the latest first. -/
def aliveSolvers (calls : List Call) : List Nat := calls.foldl Call.track []

theorem aliveSolvers_concat (calls : List Call) (c : Call) :
    aliveSolvers (calls ++ [c]) = c.track (aliveSolvers calls) := by
  simp [aliveSolvers]

/-- What an event says of a checkpoint: that it passed, or which breach it found. -/
def LogEvent.outcome? : LogEvent → Option (Option Breach)
  | solved _ => some none
  | breachFound b => some (some b)
  | _ => none

/-- The search for minimal sets says nothing of a checkpoint. -/
theorem LogEvent.outcome?_eq_none_of_target {e : LogEvent} (he : e.target = .minimisation) :
    e.outcome? = none := by
  cases e <;> first | rfl | cases he

/-- The outcomes of the checkpoints in the course of some events, in order: nothing where one
passed, and the breach where one was found. -/
def checkpointOutcomes (events : List LogEvent) : List (Option Breach) :=
  events.filterMap LogEvent.outcome?

theorem checkpointOutcomes_append (events events' : List LogEvent) :
    checkpointOutcomes (events ++ events') =
      checkpointOutcomes events ++ checkpointOutcomes events' := List.filterMap_append

/-- An event which says nothing of a checkpoint adds no outcome. -/
theorem checkpointOutcomes_concat {e : LogEvent} (he : e.outcome? = none)
    (events : List LogEvent) : checkpointOutcomes (events ++ [e]) = checkpointOutcomes events := by
  simp [checkpointOutcomes, he]

/-! ### How the two processes compare -/

/-- The process after a solve was begun. -/
def Process.afterBegin (p : Process) (i : Nat) : Process :=
  { p with journal := p.journal.push (.solve i) }

/-- The process after a solver was made, which gets the next number. -/
def Process.afterMake (p : Process) : Process :=
  { p with made := p.made + 1, live := p.live + 1, journal := p.journal.push (.init (p.made + 1)) }

/-- The process after a solver was released. -/
def Process.afterRelease (p : Process) (i : Nat) : Process :=
  { p with live := p.live - 1, journal := p.journal.push (.release i) }

theorem Process.drift_afterMake (p : Process) : p.Drift p.afterMake :=
  .of_eq rfl rfl rfl rfl ⟨[_], Array.toList_push.symm⟩

theorem Process.drift_afterRelease (p : Process) (i : Nat) : p.Drift (p.afterRelease i) :=
  .of_eq rfl rfl rfl rfl ⟨[_], Array.toList_push.symm⟩

/-- Both processes have the same script and have made as many solvers. -/
structure Process.Agrees (p p₀ : Process) : Prop where
  /-- The scripts are the same. -/
  script : p.script = p₀.script
  /-- The next solver has the same number. -/
  made : p.made = p₀.made

/-- The process `p` under limits has done the same since `start` as the process `p₀` in which
nothing is watched. The solvers `held` are alive, and each solve has passed its checkpoint. -/
structure InPace (start : Process) (held : List Nat) (p p₀ : Process) : Prop where
  /-- What decides how the runs go on is the same. -/
  agrees : p.Agrees p₀
  /-- The calls are the same. -/
  journal : p.journal = p₀.journal
  /-- No breach is noted. -/
  breach : p.governance.breach = none
  /-- Nothing is watched without limits. -/
  unwatched : p₀.IsUnwatched
  /-- The calls and events since the start. -/
  since : ∃ calls events, p.journal.toList = start.journal.toList ++ calls ∧
    p.log.toList = start.log.toList ++ events ∧ aliveSolvers calls = held ∧
    checkpointOutcomes events = List.replicate (calls.countP Call.isSolve) none

/-- The run of `p` under limits was cut by the breach `b`, which was found after a solve up to which
it had done the same since `start` as the run of `p₀`. Since then it has only released solvers, and
the solvers `held` are still alive. -/
structure IsCut (start : Process) (b : Breach) (held : List Nat) (p p₀ : Process) : Prop where
  /-- The breach stands. -/
  breach : p.governance.breach = some b
  /-- The calls and events since the start. -/
  since : ∃ before i released events,
    p.journal.toList =
      start.journal.toList ++ (before ++ Call.solve i :: released.map Call.release) ∧
    start.journal.toList ++ (before ++ [Call.solve i]) <+: p₀.journal.toList ∧
    aliveSolvers before = released ++ held ∧
    p.log.toList = start.log.toList ++ events ∧
    checkpointOutcomes events =
      List.replicate (before.countP Call.isSolve) none ++ [some b]

variable {start p q p₀ q₀ : Process} {held : List Nat} {b : Breach}

namespace InPace

/-- Nothing was done yet. -/
theorem init (ha : p.Agrees p₀) (hj : p.journal = p₀.journal) (hb : p.governance.breach = none)
    (h₀ : p₀.IsUnwatched) : InPace p [] p p₀ where
  agrees := ha
  journal := hj
  breach := hb
  unwatched := h₀
  since := ⟨[], [], (List.append_nil _).symm, (List.append_nil _).symm, rfl, rfl⟩

/-- Both processes drift in a lull, and no breach is noted. -/
theorem lull (h : InPace start held p p₀) (hp : p.Lull q) (hp₀ : p₀.Lull q₀) (ha : q.Agrees q₀)
    (hb : q.governance.breach = none) : InPace start held q q₀ where
  agrees := ha
  journal := by rw [hp.calls, hp₀.calls, h.journal]
  breach := hb
  unwatched := hp₀.toDrift.isUnwatched h.unwatched
  since := by
    rw [hp.calls, hp.events]
    exact h.since

/-- The same call is made, other than a solve. -/
theorem call (h : InPace start held p p₀) {c : Call} (hc : c.isSolve = false) (ha : q.Agrees q₀)
    (hj : q.journal = p.journal.push c) (hj₀ : q₀.journal = p₀.journal.push c)
    (hg : q.governance = p.governance) (hl : q.log = p.log)
    (hd : p₀.Drift q₀) : InPace start (c.track held) q q₀ where
  agrees := ha
  journal := by rw [hj, hj₀, h.journal]
  breach := by rw [hg, h.breach]
  unwatched := hd.isUnwatched h.unwatched
  since := by
    obtain ⟨calls, events, hcalls, hevents, hheld, hout⟩ := h.since
    refine ⟨calls ++ [c], events, ?_, hl ▸ hevents, ?_, ?_⟩
    · rw [hj, Array.toList_push, hcalls, List.append_assoc]
    · rw [aliveSolvers_concat, hheld]
    · rw [List.countP_append, List.countP_singleton, hc]
      exact hout

/-- The next solver is made. -/
theorem make (h : InPace start held p p₀) :
    InPace start ((p.made + 1) :: held) p.afterMake p₀.afterMake := by
  have hmade : p.made + 1 = p₀.made + 1 := congrArg (· + 1) h.agrees.made
  refine h.call (c := .init (p.made + 1)) rfl ⟨h.agrees.script, hmade⟩ rfl ?_ rfl rfl
    p₀.drift_afterMake
  rw [hmade]
  rfl

/-- The latest solver alive is released. -/
theorem release {i : Nat} (h : InPace start (i :: held) p p₀) :
    InPace start held (p.afterRelease i) (p₀.afterRelease i) := by
  have htrack : (Call.release i).track (i :: held) = held := List.erase_cons_head i held
  have h' : InPace start ((Call.release i).track (i :: held)) (p.afterRelease i)
      (p₀.afterRelease i) :=
    h.call rfl ⟨h.agrees.script, h.agrees.made⟩ rfl rfl rfl rfl (p₀.drift_afterRelease i)
  rwa [htrack] at h'

/-- A solve passes its checkpoint, and the report is logged. -/
theorem solved (h : InPace start held p p₀) {i : Nat} (hq : (p.afterBegin i).Lull q)
    (hq₀ : (p₀.afterBegin i).Lull q₀) (ha : q.Agrees q₀) (hb : q.governance.breach = none)
    (r r₀ : Report) : InPace start held { q with log := q.log.push (.solved r) }
      { q₀ with log := q₀.log.push (.solved r₀) } where
  agrees := ⟨ha.script, ha.made⟩
  journal := by
    change q.journal = q₀.journal
    rw [hq.calls, hq₀.calls, afterBegin, afterBegin, h.journal]
  breach := hb
  unwatched := by
    have hbegun : p₀.Drift (p₀.afterBegin i) := (drifts_record (.solve i) p₀).1
    have hdrift := hbegun.trans (hq₀.toDrift.trans (drifts_logEvent (.solved r₀) q₀).1)
    exact hdrift.isUnwatched h.unwatched
  since := by
    obtain ⟨calls, events, hcalls, hevents, hheld, hout⟩ := h.since
    refine ⟨calls ++ [.solve i], events ++ [.solved r], ?_, ?_, ?_, ?_⟩
    · change q.journal.toList = _
      rw [hq.calls, afterBegin, Array.toList_push, hcalls, List.append_assoc]
    · change (q.log.push _).toList = _
      rw [hq.events, afterBegin, Array.toList_push, hevents, List.append_assoc]
    · rw [aliveSolvers_concat, hheld]
      rfl
    · rw [checkpointOutcomes_append, hout, List.countP_append, ← List.replicate_append_replicate]
      rfl

/-- The checkpoint after a solve finds a breach. -/
theorem cut (h : InPace start held p p₀) {i : Nat} (hq : (p.afterBegin i).Lull q)
    (hb : q.governance.breach = some b) (hq₀ : (p₀.afterBegin i).Drift q₀) :
    IsCut start b held { q with log := q.log.push (.breachFound b) } q₀ where
  breach := hb
  since := by
    obtain ⟨calls, events, hcalls, hevents, hheld, hout⟩ := h.since
    refine ⟨calls, i, [], events ++ [.breachFound b], ?_, ?_, hheld, ?_, ?_⟩
    · change q.journal.toList = _
      rw [hq.calls, afterBegin, Array.toList_push, hcalls, List.append_assoc]
      rfl
    · have hbegun := hq₀.journal
      rw [afterBegin, Array.toList_push, ← h.journal, hcalls, List.append_assoc] at hbegun
      exact hbegun
    · change (q.log.push _).toList = _
      rw [hq.events, afterBegin, Array.toList_push, hevents, List.append_assoc]
    · rw [checkpointOutcomes_append, hout]
      rfl

/-- Both log events which say nothing of a checkpoint. -/
theorem logEvent (h : InPace start held p p₀) {e e₀ : LogEvent} (he : e.outcome? = none) :
    InPace start held { p with log := p.log.push e } { p₀ with log := p₀.log.push e₀ } where
  agrees := ⟨h.agrees.script, h.agrees.made⟩
  journal := h.journal
  breach := h.breach
  unwatched := (drifts_logEvent e₀ p₀).1.isUnwatched h.unwatched
  since := by
    obtain ⟨calls, events, hj, hl, hheld, hout⟩ := h.since
    refine ⟨calls, events ++ [e], hj, ?_, hheld, (checkpointOutcomes_concat he events).trans hout⟩
    rw [Array.toList_push, hl, List.append_assoc]

end InPace

namespace IsCut

/-- The run without limits goes on. -/
theorem drift (h : IsCut start b held p p₀) (hd : p₀.Drift q₀) : IsCut start b held p q₀ where
  breach := h.breach
  since := by
    obtain ⟨before, i, released, events, hj, hp, hs⟩ := h.since
    exact ⟨before, i, released, events, hj, hp.trans hd.journal, hs⟩

/-- An event is logged which says nothing of a checkpoint. -/
theorem logEvent (h : IsCut start b held p p₀) {e : LogEvent} (he : e.outcome? = none) :
    IsCut start b held { p with log := p.log.push e } p₀ where
  breach := h.breach
  since := by
    obtain ⟨before, i, released, events, hj, hp, ha, hl, hout⟩ := h.since
    refine ⟨before, i, released, events ++ [e], hj, hp, ha, ?_,
      (checkpointOutcomes_concat he events).trans hout⟩
    rw [Array.toList_push, hl, List.append_assoc]

/-- The latest solver alive is released. -/
theorem release {i : Nat} (h : IsCut start b (i :: held) p p₀) :
    IsCut start b held (p.afterRelease i) p₀ where
  breach := h.breach
  since := by
    obtain ⟨before, j, released, events, hj, hp, ha, hs⟩ := h.since
    refine ⟨before, j, released ++ [i], events, ?_, hp, ?_, hs⟩
    · rw [Process.afterRelease, Array.toList_push, hj]
      simp
    · rw [ha, List.append_assoc, List.singleton_append]

end IsCut

/-! ### Computations -/

section Paced

variable {α β : Type} {x : ProcessM α}

/-- Run in processes in pace, where the solvers `held` are alive, the computation has the same
result in both and keeps them in pace, and then `post` is true of the result and of the solvers
alive; or the run under limits is cut, and then `cut` is true of the breach, the result and the
solvers alive. Without limits the computation at any rate drifts, with a result as `any` says. -/
structure Paced (x : ProcessM α) (held : List Nat) (any : α → Prop) (post : α → List Nat → Prop)
    (cut : Breach → α → List Nat → Prop) : Prop where
  /-- The run without limits drifts. -/
  drifts : Drifts x any
  /-- The runs stay in pace, or the one under limits is cut. -/
  paced : ∀ start p p₀, InPace start held p p₀ →
    ((x.run p).1 = (x.run p₀).1 ∧
      ∃ held', post (x.run p).1 held' ∧ InPace start held' (x.run p).2 (x.run p₀).2) ∨
    ∃ b held', cut b (x.run p).1 held' ∧ IsCut start b held' (x.run p).2 (x.run p₀).2

/-- There is no cut. -/
def NeverCut (_ : Breach) (_ : α) (_ : List Nat) : Prop := False

/-- Run after the cut, when the solvers `held` are alive, the computation does nothing but what is
done then. -/
def Finishes (b : Breach) (x : ProcessM α) (held : List Nat) (post : α → List Nat → Prop) : Prop :=
  ∀ start p p₀, IsCut start b held p p₀ →
    ∃ held', post (x.run p).1 held' ∧ IsCut start b held' (x.run p).2 p₀

theorem finishes_pure {a : α} {post : α → List Nat → Prop} (h : post a held) :
    Finishes b (pure a) held post := fun _ _ _ hp => ⟨held, h, hp⟩

theorem Finishes.bind {f : α → ProcessM β} {P : α → List Nat → Prop} {Q : β → List Nat → Prop}
    (hx : Finishes b x held P) (hf : ∀ a held', P a held' → Finishes b (f a) held' Q) :
    Finishes b (x >>= f) held Q := by
  intro start p p₀ hp
  obtain ⟨held', ha, hp'⟩ := hx start p p₀ hp
  rw [StateT.run_bind]
  exact hf _ held' ha start _ p₀ hp'

theorem finishes_logEvent {e : LogEvent} (he : e.outcome? = none) :
    Finishes b (Process.logEvent e) held fun _ held' => held' = held :=
  fun _ _ _ hp => ⟨held, rfl, hp.logEvent he⟩

variable {A A' : α → Prop} {P P' : α → List Nat → Prop} {C C' : Breach → α → List Nat → Prop}

theorem Paced.mono (hx : Paced x held A P C) (hA : ∀ a, A a → A' a)
    (hP : ∀ a held', P a held' → P' a held') (hC : ∀ b a held', C b a held' → C' b a held') :
    Paced x held A' P' C' where
  drifts := hx.drifts.mono hA
  paced start p p₀ hp := by
    rcases hx.paced start p p₀ hp with ⟨he, held', ha, hp'⟩ | ⟨b, held', hc, hp'⟩
    · exact .inl ⟨he, held', hP _ _ ha, hp'⟩
    · exact .inr ⟨b, held', hC _ _ _ hc, hp'⟩

theorem paced_pure {a : α} (hA : A a) (hP : P a held) : Paced (pure a) held A P C :=
  ⟨moves_pure hA, fun _ _ _ hp => .inl ⟨rfl, held, hP, hp⟩⟩

/-- A call other than a solve. -/
theorem paced_record {c : Call} (hc : c.isSolve = false) (held : List Nat) :
    Paced (Process.record c) held (fun _ => True) (fun _ held' => held' = c.track held) NeverCut :=
  ⟨drifts_record c, fun _ _ p₀ hp => .inl ⟨rfl, _, rfl,
    hp.call hc ⟨hp.agrees.script, hp.agrees.made⟩ rfl rfl rfl rfl (drifts_record c p₀).1⟩⟩

/-- An event which says nothing of a checkpoint. -/
theorem paced_logEvent {e : LogEvent} (he : e.outcome? = none) (held : List Nat) :
    Paced (Process.logEvent e) held (fun _ => True) (fun _ held' => held' = held) NeverCut :=
  ⟨drifts_logEvent e, fun _ _ _ hp => .inl ⟨rfl, _, rfl, hp.logEvent he⟩⟩

/-- Where the first part has the same result in both runs, the second part is the same. -/
theorem run_bind_eq (f : α → ProcessM β) (he : (x.run p).1 = (x.run p₀).1) :
    (x >>= f).run p₀ = (f (x.run p).1).run (x.run p₀).2 := by
  rw [StateT.run_bind, he]
  rfl

/-- Two computations one after another. After a cut the second one only finishes, while without
limits it goes on in some way. -/
theorem Paced.bind {f : α → ProcessM β} {B : β → Prop} {Q : β → List Nat → Prop}
    {D : Breach → β → List Nat → Prop} (hx : Paced x held A P C) (hB : ∀ a, A a → Drifts (f a) B)
    (hf : ∀ a held', P a held' → Paced (f a) held' B Q D)
    (hcut : ∀ b a held', C b a held' → Finishes b (f a) held' (D b)) :
    Paced (x >>= f) held B Q D where
  drifts := hx.drifts.bind hB
  paced start p p₀ hp := by
    rcases hx.paced start p p₀ hp with ⟨he, held', ha, hp'⟩ | ⟨b, held', hc, hp'⟩
    · rw [StateT.run_bind, run_bind_eq f he]
      exact (hf _ held' ha).paced start _ _ hp'
    · obtain ⟨held'', hd, hcut'⟩ := hcut b _ held' hc start _ _ hp'
      have hdrift := (hB _ (hx.drifts p₀).2 (x.run p₀).2).1
      rw [StateT.run_bind, StateT.run_bind]
      exact .inr ⟨b, held'', hd, hcut'.drift hdrift⟩

/-- The computation makes no solve, and is done as well when the run was cut before. -/
structure Steady (x : ProcessM α) (held : List Nat) (any : α → Prop)
    (post : α → List Nat → Prop) : Prop where
  /-- Processes stay in pace. -/
  paced : Paced x held any post NeverCut
  /-- After a cut the same is true of the result. -/
  finishes : ∀ b, Finishes b x held post

theorem steady_pure {a : α} (hA : A a) (hP : P a held) : Steady (pure a) held A P :=
  ⟨paced_pure hA hP, fun _ => finishes_pure hP⟩

theorem Steady.bind {f : α → ProcessM β} {B : β → Prop} {Q : β → List Nat → Prop}
    (hx : Steady x held A P) (hB : ∀ a, A a → Drifts (f a) B)
    (hf : ∀ a held', P a held' → Steady (f a) held' B Q) : Steady (x >>= f) held B Q where
  paced := hx.paced.bind hB (fun a held' ha => (hf a held' ha).paced) fun _ _ _ => False.elim
  finishes b := (hx.finishes b).bind fun a held' ha => (hf a held' ha).finishes b

theorem Steady.mono (hx : Steady x held A P) (hA : ∀ a, A a → A' a)
    (hP : ∀ a held', P a held' → P' a held') : Steady x held A' P' where
  paced := hx.paced.mono hA hP fun _ _ _ => id
  finishes b start p p₀ hp := by
    obtain ⟨held', ha, hp'⟩ := hx.finishes b start p p₀ hp
    exact ⟨held', hP _ _ ha, hp'⟩

/-- An event which says nothing of a checkpoint. -/
theorem steady_logEvent {e : LogEvent} (he : e.outcome? = none) (held : List Nat) :
    Steady (Process.logEvent e) held (fun _ => True) fun _ held' => held' = held :=
  ⟨paced_logEvent he held, fun _ => finishes_logEvent he⟩

end Paced

/-! ### What the scripts decide -/

section Follows

variable {α β : Type} {x : ProcessM α}

/-- Run beside a process in which nothing is watched, the computation does the same as there, with
neither a call nor an event, unless a breach is noted in the end. -/
structure Follows (x : ProcessM α) : Prop where
  /-- There is neither a call nor an event. -/
  lulls : Lulls x
  /-- The result is the same, and the scripts stay the same. -/
  follows : ∀ p p₀ : Process, p.Agrees p₀ → p₀.IsUnwatched →
    (x.run p).2.governance.breach = none →
    (x.run p).1 = (x.run p₀).1 ∧ (x.run p).2.Agrees (x.run p₀).2

theorem follows_pure (a : α) : Follows (pure a) := ⟨moves_pure trivial, fun _ _ ha _ _ => ⟨rfl, ha⟩⟩

theorem Follows.bind {f : α → ProcessM β} (hx : Follows x) (hf : ∀ a, Follows (f a)) :
    Follows (x >>= f) where
  lulls := hx.lulls.bind fun a _ => (hf a).lulls
  follows p p₀ ha h₀ hb := by
    rw [StateT.run_bind] at hb
    -- A breach noted by the first part would stand.
    have hb' : (x.run p).2.governance.breach = none :=
      ((hf (x.run p).1).lulls (x.run p).2).1.breach_eq_none hb
    obtain ⟨he, ha'⟩ := hx.follows p p₀ ha h₀ hb'
    have h₀' := (hx.lulls p₀).1.isUnwatched h₀
    rw [StateT.run_bind, run_bind_eq f he]
    exact (hf _).follows _ _ ha' h₀' hb

/-- Only the script is read. -/
theorem follows_get_bind {f : Process → ProcessM α} (hf : ∀ p, Follows (f p))
    (hscript : ∀ p q : Process, p.script = q.script → f p = f q) : Follows (get >>= f) where
  lulls := moves_get.bind fun p _ => (hf p).lulls
  follows p p₀ ha h₀ hb := by
    have hrun : (get >>= f).run p₀ = (f p).run p₀ := by
      rw [hscript p p₀ ha.script]
      rfl
    rw [hrun]
    exact (hf p).follows p p₀ ha h₀ hb

/-- Where no breach is noted on the way, both runs do the same. -/
theorem Follows.paced (hx : Follows x) (hg : ∀ p, (x.run p).2.governance = p.governance)
    (held : List Nat) : Paced x held (fun _ => True) (fun _ held' => held' = held) NeverCut where
  drifts := hx.lulls.drifts
  paced start p p₀ hp := by
    have hb : (x.run p).2.governance.breach = none := by rw [hg, hp.breach]
    obtain ⟨he, ha⟩ := hx.follows p p₀ hp.agrees hp.unwatched hb
    exact .inl ⟨he, held, rfl, hp.lull (hx.lulls p).1 (hx.lulls p₀).1 ha hb⟩

theorem follows_setScript (script : List ScriptStep) :
    Follows (modify fun p : Process => { p with script }) where
  lulls := moves_modify fun _ => .of_eq rfl rfl rfl rfl rfl rfl
  follows _ _ ha _ _ := ⟨rfl, rfl, ha.made⟩

/-- A breach is noted on a signal which is noted. -/
theorem governance_deliver {s : Signal} (h : p.actions.get s = .noting) :
    ((deliver s).run p).2.governance = p.governance.note s.breach := by
  rw [run_deliver_noting h, StateT.run_bind, run_raiseSoftLimit]
  by_cases hset : p.host.readable s.resource ∧ p.host.settable s.resource
  · rw [if_pos hset]
    rfl
  · rw [if_neg hset]
    rfl

/-- A signal which is noted is a breach, and where nothing is watched no signal is noted. -/
theorem follows_deliver (s : Signal) : Follows (discard (deliver s)) where
  lulls := moves_discard (lulls_deliver s)
  follows p p₀ ha h₀ hb := by
    refine ⟨rfl, ?_⟩
    change ((deliver s).run p).2.Agrees ((deliver s).run p₀).2
    rw [run_deliver_inherited (h₀.action s)]
    cases hs : p.actions.get s with
    | inherited =>
      rw [run_deliver_inherited hs]
      exact ha
    | noting =>
      have hnoted : ((deliver s).run p).2.governance.breach = none := hb
      rw [governance_deliver hs, Governance.breach_note] at hnoted
      cases hnoted

end Follows

/-! ### Polls and checkpoints -/

section Polling

/-- A look at the soft limits notes a breach, or changes nothing that matters. -/
theorem noteReachedLimit_cases (m : MemoryMeasure) (p : Process) :
    ∃ q, p.Lull q ∧ q.Agrees p ∧
      ((∃ b, q.governance.breach.isSome ∧ (noteReachedLimit m).run p = pure (some b, q)) ∨
        q.governance = p.governance ∧ (noteReachedLimit m).run p = pure (none, q)) := by
  have hlull := (lulls_noteReachedLimit m p).1
  have hrun := run_noteReachedLimit_eq m p
  cases hr : p.governance.reachedLimit? m p.reading with
  | none =>
    rw [hr] at hrun
    rw [hrun] at hlull
    exact ⟨_, hlull, ⟨rfl, rfl⟩, .inr ⟨rfl, hrun⟩⟩
  | some b =>
    rw [hr] at hrun
    rw [hrun] at hlull
    refine ⟨_, hlull, ⟨rfl, rfl⟩, .inl ⟨b, ?_, hrun⟩⟩
    change (p.governance.note b).breach.isSome = true
    rw [Governance.breach_note]
    rfl

/-- A poll asks to stop exactly when a breach is noted in the end. -/
theorem stopRequested_cases (p : Process) :
    ∃ q, p.Lull q ∧ q.Agrees p ∧
      (q.governance.breach.isSome ∧ stopRequested.run p = pure (true, q) ∨
        q.governance.breach = none ∧ stopRequested.run p = pure (false, q)) := by
  cases hb : p.governance.breach with
  | some b => exact ⟨p, .refl p, ⟨rfl, rfl⟩, .inl ⟨by rw [hb]; rfl, by simp [stopRequested, hb]⟩⟩
  | none =>
    have hb' : p.polled.governance.breach = none := hb
    cases hdue : p.governance.poll.1 with
    | false =>
      refine ⟨p.polled, p.lull_polled, ⟨rfl, rfl⟩, .inr ⟨hb', ?_⟩⟩
      simp [stopRequested, hb, hdue, Process.polled]
    | true =>
      have hrun : stopRequested.run p =
          (do return (← noteReachedLimit .headroom).isSome : ProcessM Bool).run p.polled := by
        simp [stopRequested, hb, hdue, Process.polled]
      obtain ⟨q, hl, hq, ⟨b, hsome, hr⟩ | ⟨hg, hr⟩⟩ := noteReachedLimit_cases .headroom p.polled
      · refine ⟨q, p.lull_polled.trans hl, ⟨hq.script, hq.made⟩, .inl ⟨hsome, ?_⟩⟩
        rw [hrun, StateT.run_bind, hr]
        rfl
      · refine ⟨q, p.lull_polled.trans hl, ⟨hq.script, hq.made⟩, .inr ⟨by rw [hg, hb'], ?_⟩⟩
        rw [hrun, StateT.run_bind, hr]
        rfl

theorem follows_stopRequested : Follows stopRequested where
  lulls := lulls_stopRequested
  follows p p₀ ha h₀ hb := by
    obtain ⟨q, hl, hq, ⟨hsome, hr⟩ | ⟨-, hr⟩⟩ := stopRequested_cases p
    · rw [hr] at hb
      rw [show q.governance.breach = none from hb] at hsome
      cases hsome
    obtain ⟨q₀, hl₀, hq₀, ⟨hsome, hr₀⟩ | ⟨-, hr₀⟩⟩ := stopRequested_cases p₀
    · rw [(hl₀.isUnwatched h₀).idle.breach] at hsome
      cases hsome
    rw [hr, hr₀]
    exact ⟨rfl, hq.script.trans (ha.script.trans hq₀.script.symm),
      hq.made.trans (ha.made.trans hq₀.made.symm)⟩

/-- A checkpoint looks for a breach unless one is noted, and then tells of the one which is. -/
theorem run_checkpoint_eq (p : Process) :
    ∃ q, p.Lull q ∧ q.Agrees p ∧ checkpoint.run p = tellBreach.run q := by
  cases hb : p.governance.breach with
  | some b => exact ⟨p, .refl p, ⟨rfl, rfl⟩, by simp [checkpoint_eq, hb]⟩
  | none =>
    have hlook : ∃ r q, (noteReachedLimit .resident).run p = pure (r, q) ∧ p.Lull q ∧
        q.Agrees p := by
      obtain ⟨q, hl, hq, ⟨b, -, hr⟩ | ⟨-, hr⟩⟩ := noteReachedLimit_cases .resident p
      · exact ⟨_, q, hr, hl, hq⟩
      · exact ⟨_, q, hr, hl, hq⟩
    obtain ⟨r, q, hr, hl, hq⟩ := hlook
    exact ⟨q, hl, hq, by simp [checkpoint_eq, discard, Functor.discard, map_const, hb, hr]⟩

/-- **A checkpoint finds the breach which is noted, or passes.** -/
theorem checkpoint_cases (p : Process) :
    ∃ q, p.Lull q ∧ q.Agrees p ∧
      ((∃ b, q.governance.breach = some b ∧ checkpoint.run p =
          pure (.error b.toError, { q with log := q.log.push (.breachFound b) })) ∨
        q.governance.breach = none ∧ checkpoint.run p = pure (.ok (), q)) := by
  obtain ⟨q, hl, hq, hrun⟩ := run_checkpoint_eq p
  rw [tellBreach, StateT.run_bind, StateT.run_get, pure_bind] at hrun
  cases hb : q.governance.breach with
  | none =>
    simp only [hb] at hrun
    exact ⟨q, hl, hq, .inr ⟨hb, hrun⟩⟩
  | some b =>
    simp only [hb] at hrun
    exact ⟨q, hl, hq, .inl ⟨b, hb, hrun⟩⟩

end Polling

end GovernedSat
