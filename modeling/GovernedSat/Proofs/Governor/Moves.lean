import GovernedSat.Proofs.Process.Pace

/-!
# How governance changes a process

Arming and disarming a governor changes limits, actions on signals and the state of governance, and
logs what is done, but it notes no breach. Signals, polls and checkpoints change limits and the
state of governance, and note breaches. A preorder between processes which allows such changes holds
between the process before and after each of these operations, on whatever host and whether they
succeed or not.

## Main definitions

* `AdmitsArming`, `AdmitsNoting` — relations which allow these changes.

## Main results

* `AdmitsArming.moves_arm`, `AdmitsArming.moves_disarm` — arming and disarming.
* `AdmitsNoting.moves_deliver`, `AdmitsNoting.moves_stopRequested`,
  `AdmitsNoting.moves_checkpoint` — what notes breaches.
-/

namespace GovernedSat

open Process

variable {R : Process → Process → Prop}

/-! ### Arming and disarming -/

/-- The relation allows what is done to a process by arming and disarming. -/
structure AdmitsArming (R : Process → Process → Prop) : Prop where
  readings : ∀ (p : Process) (n : Nat), R p { p with readings := n }
  limits : ∀ (p : Process) (l : Resource.Table ResourceLimit), R p { p with limits := l }
  actions : ∀ (p : Process) (a : Signal.Table SignalAction), R p { p with actions := a }
  /-- The state of governance changes without a breach being noted. -/
  governance : ∀ (p : Process) (f : Governance → Governance),
    (p.governance.breach = none → (f p.governance).breach = none) →
    R p { p with governance := f p.governance }
  /-- An event about governors is logged which says nothing of a checkpoint. -/
  event : ∀ {e : LogEvent}, e.target = .governor → e.outcome? = none →
    ∀ p : Process, R p { p with log := p.log.push e }

namespace AdmitsArming

variable [Std.Refl R] (hR : AdmitsArming R)
include hR

omit [Std.Refl R] in
theorem moves_readUsage : Moves R readUsage fun _ => True :=
  fun p => ⟨hR.readings p (p.readings + 1), trivial⟩

omit [Std.Refl R] in
theorem moves_logEvent {e : LogEvent} (ht : e.target = .governor) (he : e.outcome? = none) :
    Moves R (logEvent e) fun _ => True := moves_modify (hR.event ht he)

omit [Std.Refl R] in
theorem moves_govern {f : Governance → Governance}
    (hf : ∀ g, g.breach = none → (f g).breach = none) : Moves R (govern f) fun _ => True :=
  moves_modify fun p => hR.governance p f (hf _)

omit hR in
theorem moves_readLimit (r : Resource) : Moves R (readLimit r) fun _ => True :=
  fun p => ⟨Std.Refl.refl p, trivial⟩

theorem moves_setLimit (r : Resource) (l : ResourceLimit) :
    Moves R (setLimit r l) fun _ => True := by
  refine fun p => ⟨?_, trivial⟩
  change R p (if p.host.settable r then
    (true, { p with limits := p.limits.set r l }) else (false, p) : Bool × Process).2
  split
  · exact hR.limits p _
  · exact Std.Refl.refl p

theorem moves_setAction (s : Signal) (a : SignalAction) :
    Moves R (setAction s a) fun _ => True := by
  refine fun p => ⟨?_, trivial⟩
  change R p (if p.host.catchable s then
    (some (p.actions.get s), { p with actions := p.actions.set s a })
    else (none, p) : Option SignalAction × Process).2
  split
  · exact hR.actions p _
  · exact Std.Refl.refl p

variable [Trans R R R]

theorem moves_catchSignal (s : Option Signal) :
    Moves R (Governor.catchSignal s) fun _ => True := by
  cases s with
  | none => exact moves_pure trivial
  | some s => exact (hR.moves_setAction s .noting).bind fun _ _ => moves_pure trivial

theorem moves_lowerLimit (r : LimitRequest) : Moves R (Governor.lowerLimit r) fun _ => True := by
  refine (moves_readLimit r.resource).bind fun limit _ => ?_
  cases limit with
  | none => exact (hR.moves_logEvent rfl rfl).bind fun _ _ => moves_pure trivial
  | some limit =>
    refine (hR.moves_catchSignal r.signal).bind fun caught _ => ?_
    cases caught with
    | none => exact (hR.moves_logEvent rfl rfl).bind fun _ _ => moves_pure trivial
    | some action =>
      refine (hR.moves_setLimit _ _).bind fun isSet _ => ?_
      cases isSet with
      | false =>
        exact (hR.moves_logEvent rfl rfl).bind fun _ _ =>
          (hR.moves_logEvent rfl rfl).bind fun _ _ => moves_pure trivial
      | true => exact (hR.moves_logEvent rfl rfl).bind fun _ _ => moves_pure trivial

theorem moves_restoreLimit (s : SavedLimit) :
    Moves R (Governor.restoreLimit s) fun _ => True := by
  obtain ⟨resource, limit, action⟩ := s
  refine (hR.moves_setLimit _ _).bind fun isSet _ => ?_
  -- The limit, and then whether there is an action to be restored.
  cases isSet <;> cases action
  · exact (hR.moves_logEvent rfl rfl).bind fun _ _ => moves_pure trivial
  · exact (hR.moves_logEvent rfl rfl).bind fun _ _ => moves_discard (hR.moves_setAction _ _)
  · exact moves_pure trivial
  · exact moves_discard (hR.moves_setAction _ _)

theorem moves_restoreAll (saved : List SavedLimit) :
    Moves R (Governor.restoreAll saved) fun _ => True := by
  refine (hR.moves_govern (f := ({ · with memoryHook := false })) fun _ h => h).bind fun _ _ => ?_
  induction saved with
  | nil => exact moves_pure trivial
  | cons s saved ih => exact (hR.moves_restoreLimit s).bind fun _ _ => ih

theorem moves_lowerAll (rs : List LimitRequest) (saved : List SavedLimit) :
    Moves R (Governor.lowerAll rs saved) fun _ => True := by
  induction rs generalizing saved with
  | nil => exact moves_pure trivial
  | cons r rs ih =>
    refine (hR.moves_lowerLimit r).bind fun lowered _ => ?_
    cases lowered with
    | error e => exact (hR.moves_restoreAll saved).bind fun _ _ => moves_pure trivial
    | ok s => exact ih (s :: saved)

theorem moves_arm (l : Limits) : Moves R (Governor.arm l) fun _ => True := by
  refine hR.moves_readUsage.bind fun u _ => ?_
  split
  · exact moves_pure trivial
  · refine moves_get.bind fun p _ => ?_
    split
    · exact (hR.moves_logEvent rfl rfl).bind fun _ _ => moves_pure trivial
    · refine (hR.moves_govern fun _ _ => rfl).bind fun _ _ =>
        (hR.moves_lowerAll _ _).bind fun lowered _ => ?_
      cases lowered with
      | error e =>
        exact (hR.moves_govern (f := ({ · with armed := false })) fun _ h => h).bind
          fun _ _ => moves_pure trivial
      | ok saved =>
        have hwatch : Moves R (govern fun g =>
            ({ g with memoryHook := g.memoryHook || l.memory ≠ 0 }).watch
              (l.deadline u.cpuTime) l.memory.toNat) fun _ => True :=
          hR.moves_govern fun _ h => h
        exact hwatch.bind fun _ _ =>
          (hR.moves_logEvent (e := .armed l) rfl rfl).bind fun _ _ => moves_pure trivial

theorem moves_disarm (g : Governor) : Moves R g.disarm fun _ => True := by
  unfold Governor.disarm
  split
  · exact moves_pure trivial
  · exact (hR.moves_restoreAll _).bind fun _ _ => (hR.moves_govern fun _ _ => rfl).bind fun _ _ =>
      hR.moves_readUsage.bind fun _ _ => hR.moves_logEvent rfl rfl

end AdmitsArming

/-! ### Noting breaches -/

/-- The relation also allows breaches to be noted, and found at a checkpoint. -/
structure AdmitsNoting (R : Process → Process → Prop) : Prop extends AdmitsArming R where
  note : ∀ (p : Process) (b : Breach), R p { p with governance := p.governance.note b }
  breachFound : ∀ (b : Breach) (p : Process), R p { p with log := p.log.push (.breachFound b) }

namespace AdmitsNoting

variable [Std.Refl R] [Trans R R R] (hR : AdmitsNoting R)
include hR

omit [Std.Refl R] [Trans R R R] in
theorem moves_note (b : Breach) : Moves R (govern (·.note b)) fun _ => True :=
  moves_modify fun p => hR.note p b

theorem moves_raiseSoftLimit (r : Resource) : Moves R (raiseSoftLimit r) fun _ => True := by
  refine (AdmitsArming.moves_readLimit r).bind fun limit _ => ?_
  cases limit with
  | none => exact moves_pure trivial
  | some l => exact moves_discard (hR.moves_setLimit r _)

theorem moves_deliver (s : Signal) : Moves R (deliver s) fun _ => True := by
  refine moves_get.bind fun p _ => ?_
  split
  · exact (hR.moves_raiseSoftLimit _).bind fun _ _ => (hR.moves_note _).bind fun _ _ =>
      moves_pure trivial
  · exact moves_pure trivial

theorem moves_noteReachedLimit (m : MemoryMeasure) :
    Moves R (noteReachedLimit m) fun _ => True := by
  refine hR.moves_readUsage.bind fun u _ => moves_get.bind fun p _ => ?_
  split
  · exact (hR.moves_note _).bind fun _ _ => moves_pure trivial
  · exact moves_pure trivial

theorem moves_stopRequested : Moves R stopRequested fun _ => True := by
  refine moves_get.bind fun p _ => ?_
  split
  · exact moves_pure trivial
  · have hpoll : Moves R (modifyGet fun p : Process => (p.governance.poll.1, p.polled))
        fun _ => True := fun p => ⟨hR.governance p (·.poll.2) id, trivial⟩
    refine hpoll.bind fun due _ => ?_
    split
    · exact (hR.moves_noteReachedLimit _).bind fun _ _ => moves_pure trivial
    · exact moves_pure trivial

theorem moves_checkpoint : Moves R checkpoint fun _ => True :=
  moves_checkpoint_of (hR.moves_noteReachedLimit _) fun b => moves_modify (hR.breachFound b)

end AdmitsNoting

end GovernedSat
