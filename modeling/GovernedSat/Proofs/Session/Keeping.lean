import GovernedSat.Proofs.Session.Slots

/-!
# Sessions keep account of governors

Each command turns the governors which the slots own into those which they own afterwards. A command
which makes a governor puts it into a slot, and the object which it replaces there gives back its
own; a nested call arms a governor before its steps and disarms it after them; and whatever else a
command does lets the process drift.

## Main definitions

* `SessionKeeps` — a computation with a session which keeps account.

## Main results

* `sessionKeeps_perform`, `sessionKeeps_performAll` — every command keeps account.
-/

namespace GovernedSat

open Process

variable {E : Type} {p₀ : Process}

namespace Session

/-- What a session owns when its slots are sound. -/
def Owns (s : Session E) (left : List Governor) : Prop :=
  left = s.slots.governors ∧ s.slots.IsSound

/-- The computation turns the governors of the slots into those of the slots which it leaves, and
these are sound. -/
def SessionKeeps {α : Type} (p₀ : Process) (x : SessionM E α) : Prop :=
  ∀ s : Session E, s.slots.IsSound →
    Keeps p₀ (x.run s) s.slots.governors fun r left => r.2.Owns left

/-! ### Computations with a session -/

section Computations

variable {α β : Type}

theorem sessionKeeps_pure (a : α) : SessionKeeps p₀ (pure a : SessionM E α) :=
  fun _ hs => keeps_pure ⟨rfl, hs⟩

theorem SessionKeeps.bind {x : SessionM E α} {f : α → SessionM E β} (hx : SessionKeeps p₀ x)
    (hf : ∀ a, SessionKeeps p₀ (f a)) : SessionKeeps p₀ (x >>= f) := by
  intro s hs
  rw [StateT.run_bind]
  refine (hx s hs).bind ?_
  rintro ⟨a, s'⟩ _ ⟨rfl, hs'⟩
  exact hf a s' hs'

theorem sessionKeeps_get : SessionKeeps p₀ (get : SessionM E (Session E)) :=
  fun _ hs => keeps_pure ⟨rfl, hs⟩

/-- What concerns the process alone, and leaves no governor. -/
theorem sessionKeeps_of_keeps {y : ProcessM α} (hy : Keeps p₀ y [] fun _ left => left = []) :
    SessionKeeps p₀ (liftM y : SessionM E α) := by
  intro s hs
  change Keeps p₀ (y >>= fun a => pure (a, s)) _ _
  refine (hy.frame _).bind ?_
  rintro a _ ⟨_, rfl, rfl⟩
  exact keeps_pure ⟨rfl, hs⟩

/-- What concerns the process alone, and lets it drift. -/
theorem sessionKeeps_process (h₀ : p₀.IsPristine) {y : ProcessM α}
    (hy : Drifts y fun _ => True) : SessionKeeps p₀ (liftM y : SessionM E α) :=
  sessionKeeps_of_keeps ((hy.keeps h₀ []).mono fun _ _ hleft => hleft.1)

/-- A command which is answered by something which lets the process drift. -/
theorem sessionKeeps_answer (h₀ : p₀.IsPristine) {y : ProcessM α} (hy : Drifts y fun _ => True)
    (answer : α → β) : SessionKeeps p₀ (do return answer (← y) : SessionM E β) :=
  (sessionKeeps_process h₀ hy).bind fun _ => sessionKeeps_pure _

end Computations

/-! ### Questions -/

theorem drifts_timeLimitHolds (g : Governor) : Drifts g.timeLimitHolds fun _ => True :=
  lulls_readUsage.drifts.bind fun _ _ => moves_pure trivial

theorem drifts_memoryLimitHolds (g : Governor) : Drifts g.memoryLimitHolds fun _ => True :=
  lulls_readUsage.drifts.bind fun _ _ => moves_pure trivial

theorem drifts_limitsHold (g : Governor) : Drifts g.limitsHold fun _ => True := by
  refine (drifts_timeLimitHolds g).bind fun holds _ => ?_
  split
  · exact drifts_memoryLimitHolds g
  · exact moves_pure trivial

theorem drifts_queryGovernor (g : Governor) : Drifts (queryGovernor g) fun _ => True :=
  (drifts_timeLimitHolds g).bind fun _ _ => (drifts_memoryLimitHolds g).bind fun _ _ =>
    (drifts_limitsHold g).bind fun _ _ =>
    Moves.bind (P := fun _ => True) ((drifts_limitsHold g).bind fun _ _ => moves_pure trivial)
    fun _ _ => lulls_readUsage.drifts.bind fun _ _ => moves_pure trivial

theorem drifts_pollRepeatedly (times : Nat) : Drifts (pollRepeatedly times) fun _ => True := by
  induction times with
  | zero => exact moves_pure trivial
  | succ n ih =>
    exact lulls_stopRequested.drifts.bind fun _ _ => ih.bind fun _ _ => moves_pure trivial

/-! ### Using objects -/

theorem sessionKeeps_withGovernor (h₀ : p₀.IsPristine) (name : String)
    {use : Governor → ProcessM Answer} (huse : ∀ g, Drifts (use g) fun _ => True) :
    SessionKeeps p₀ (withGovernor name use : SessionM E Answer) := by
  refine sessionKeeps_get.bind fun s => ?_
  split
  · exact sessionKeeps_process h₀ (huse _)
  · exact sessionKeeps_pure _

/-- An object which is used is put back into its slot. -/
theorem keeps_putBack {α : Type} {s : Session E} (hs : s.slots.IsSound) {name : String}
    {x : Slot E} (hx : s.slots.get? name = some x) {use : ProcessM (α × Slot E)}
    (huse : Keeps p₀ use x.governors fun r left => left = r.2.governors ∧ r.2.IsTame) :
    Keeps p₀ (use >>= fun r => pure (r.1, ({ s with slots := s.slots.put name r.2 } : Session E)))
      s.slots.governors fun r left => r.2.Owns left := by
  refine ((huse.frame _).of_perm (Slots.perm_erase hs hx).symm).bind ?_
  rintro ⟨a, y⟩ _ ⟨_, rfl, rfl, hy⟩
  exact (keeps_pure ⟨rfl, hs.put hy⟩).of_perm (Slots.perm_put_of_get? hs hx y).symm

theorem sessionKeeps_withStream (name : String) {use : StreamM E Answer}
    (huse : ∀ m : ModelStream E, m.IsTame →
      Keeps p₀ (use.run m) m.governors fun r left => r.2.Owns left) :
    SessionKeeps p₀ (withStream name use) := by
  intro s hs
  rw [withStream, StateT.run_bind, StateT.run_get, pure_bind]
  dsimp only
  split
  · next m hm =>
    have hput : Keeps p₀ (use.run m >>= fun r => pure (r.1, Slot.stream r.2)) m.governors
        fun r left => left = r.2.governors ∧ r.2.IsTame :=
      (huse m (hs.isTame_of_get? hm)).bind fun _ _ hleft => keeps_pure hleft
    exact keeps_putBack hs hm hput
  · exact keeps_pure ⟨rfl, hs⟩

theorem sessionKeeps_withSolverIn (h₀ : p₀.IsPristine) (name : String) {use : SolverM E Answer}
    (huse : ∀ s : Solver E, s.IsTame → Drifts (use.run s) fun r => r.2.IsTame) :
    SessionKeeps p₀ (withSolverIn name use) := by
  intro s hs
  rw [withSolverIn, StateT.run_bind, StateT.run_get, pure_bind]
  dsimp only
  split
  · next t ht =>
    have hput : Keeps p₀ (use.run t >>= fun r => pure (r.1, Slot.solver r.2)) []
        fun r left => left = r.2.governors ∧ r.2.IsTame :=
      ((huse t (hs.isTame_of_get? ht)).keeps h₀ []).bind fun _ _ hleft => keeps_pure hleft
    exact keeps_putBack hs ht hput
  · exact keeps_pure ⟨rfl, hs⟩

/-! ### Making and disposing of objects -/

variable [Engine E]

/-- An object is owned by the slot into which it is put, and what was there is disposed of. -/
theorem keeps_place (h₀ : p₀.IsPristine) {s : Session E} (hs : s.slots.IsSound) (name : String)
    {x : Slot E} (hx : x.IsTame) :
    Keeps p₀ ((place name x).run s) (x.governors ++ s.slots.governors)
      fun r left => r.2.Owns left := by
  have hdispose : Keeps p₀ ((s.slots.get? name).elim (pure ()) Slot.dispose)
      ((s.slots.get? name).elim [] Slot.governors) fun _ left => left = [] := by
    cases s.slots.get? name with
    | none => exact keeps_pure rfl
    | some y => exact keeps_dispose h₀ y
  have hrun : (place name x).run s = (do
      (s.slots.get? name).elim (pure ()) Slot.dispose
      return ((), { s with slots := s.slots.put name x })) := by
    rw [place, StateT.run_bind, StateT.run_get, pure_bind]
    dsimp only
    rw [StateT.run_bind]
    cases s.slots.get? name <;> rfl
  rw [hrun]
  refine ((hdispose.frame _).of_perm (Slots.perm_put hs name x).symm).bind ?_
  rintro _ _ ⟨_, rfl, rfl⟩
  exact keeps_pure ⟨rfl, hs.put hx⟩

/-- The object which was made is put into a slot, and when none was made the slot stays. -/
theorem keeps_placeMade (h₀ : p₀.IsPristine) {α : Type} {s : Session E} (hs : s.slots.IsSound)
    (name : String) (toSlot : α → Slot E) {r : Except Halt α}
    (hr : ∀ a, r = .ok a → (toSlot a).IsTame) :
    Keeps p₀ ((placeMade name toSlot r).run s)
      (r.toOption.elim [] (fun a => (toSlot a).governors) ++ s.slots.governors)
      fun r left => r.2.Owns left := by
  cases r with
  | error halt => exact keeps_pure ⟨rfl, hs⟩
  | ok a =>
    change Keeps p₀ ((place name (toSlot a)).run s >>= fun r => pure (Answer.done, r.2)) _ _
    exact (keeps_place h₀ hs name (hr a rfl)).bind fun _ _ hleft => keeps_pure hleft

/-- A command which makes an object and puts it into a slot. -/
theorem sessionKeeps_make (h₀ : p₀.IsPristine) {α β : Type} (name : String)
    (toSlot : α → Slot E) (make : ProcessM β) (made : β → Except Halt α)
    (hmake : Keeps p₀ make [] fun b left =>
      left = (made b).toOption.elim [] (fun a => (toSlot a).governors) ∧
        ∀ a, made b = .ok a → (toSlot a).IsTame) :
    SessionKeeps p₀ (do placeMade name toSlot (made (← make)) : SessionM E Answer) := by
  intro s hs
  change Keeps p₀ (make >>= fun b => (placeMade name toSlot (made b)).run s) _ _
  refine (hmake.frame _).bind ?_
  rintro r _ ⟨_, rfl, rfl, hr⟩
  exact keeps_placeMade h₀ hs name toSlot hr

/-- What is in a slot is disposed of. -/
theorem sessionKeeps_dropSlot (h₀ : p₀.IsPristine) (name : String) :
    SessionKeeps p₀ (dropSlot name : SessionM E Answer) := by
  intro s hs
  rw [dropSlot, StateT.run_bind, StateT.run_get, pure_bind]
  dsimp only
  cases hx : s.slots.get? name with
  | none => exact keeps_pure ⟨rfl, hs⟩
  | some x =>
    refine Keeps.of_perm ?_ (Slots.perm_erase hs hx).symm
    change Keeps p₀ (x.dispose >>= fun _ =>
      pure (Answer.done, ({ s with slots := s.slots.erase name } : Session E))) _ _
    refine ((keeps_dispose h₀ x).frame _).bind ?_
    rintro _ _ ⟨_, rfl, rfl⟩
    exact keeps_pure ⟨rfl, hs.erase name⟩

/-! ### Commands -/

mutual

/-- **Every command keeps account of governors.** -/
theorem sessionKeeps_perform [Engine.IsTame E] (h₀ : p₀.IsPristine) (command : Command) :
    SessionKeeps p₀ (perform command : SessionM E Answer) := by
  cases command with
  | unreadable => exact sessionKeeps_pure _
  | configure l convention =>
    change SessionKeeps p₀ (configure l convention : SessionM E Answer)
    unfold configure
    split
    · exact fun s hs => keeps_pure ⟨rfl, hs⟩
    · exact sessionKeeps_pure _
  | arm slot l =>
    refine sessionKeeps_make h₀ slot Slot.governor (Governor.arm l)
      (·.mapError fun e => .error (.limit e)) ((keeps_arm h₀ l).mono ?_)
    rintro (e | g) _ rfl
    · exact ⟨rfl, nofun⟩
    · exact ⟨rfl, fun _ _ => trivial⟩
  | query slot => exact sessionKeeps_withGovernor h₀ slot drifts_queryGovernor
  | checkpoint =>
    refine (sessionKeeps_process h₀ drifts_checkpoint).bind fun r => ?_
    cases r <;> exact sessionKeeps_pure _
  | terminate times => exact sessionKeeps_answer h₀ (drifts_pollRepeatedly times) _
  | signal s => exact sessionKeeps_answer h₀ (lulls_deliver s).drifts _
  | reserve megabytes => exact sessionKeeps_answer h₀ (lulls_reserve megabytes).drifts _
  | unreserve =>
    have hunreserve : Drifts Process.unreserve fun _ => True :=
      moves_modify fun _ => .of_eq rfl rfl rfl rfl List.prefix_rfl
    exact sessionKeeps_answer h₀ hunreserve fun _ => Answer.done
  | allocate bytes => exact sessionKeeps_answer h₀ (lulls_allocate bytes).drifts _
  | write offset length => exact sessionKeeps_answer h₀ (lulls_writeFile offset length).drifts _
  | softLimits =>
    exact sessionKeeps_process h₀ (moves_get.bind fun _ _ => moves_pure trivial)
  | usage =>
    exact sessionKeeps_process h₀ (lulls_readUsage.drifts.bind fun _ _ => moves_pure trivial)
  | governed steps stopAtError =>
    refine sessionKeeps_get.bind fun s => SessionKeeps.bind (fun s hs => ?_) fun r => ?_
    · refine keeps_governed_run h₀ (P := Owns) ⟨rfl, hs⟩ ?_
      exact (sessionKeeps_performAll h₀ stopAtError steps s hs).bind fun _ _ h => keeps_pure h
    · split <;> exact sessionKeeps_pure _
  | run kind f atoms =>
    exact sessionKeeps_get.bind fun s =>
      (sessionKeeps_of_keeps (keeps_runProcedure (E := E) h₀ s.config f atoms kind)).bind fun _ =>
      sessionKeeps_pure _
  | stream slot f projection bare =>
    refine sessionKeeps_get.bind fun s => sessionKeeps_make h₀ slot Slot.stream _ id ?_
    have hmade : Keeps p₀ (if bare then ModelStream.start f projection s.config.convention
        else ModelStream.startUnder s.config f projection : ProcedureM (ModelStream E)).run []
        ModelStream.OwnsMade := by
      split
      · exact ModelStream.keeps_start h₀
      · exact ModelStream.keeps_startUnder h₀ s.config
    refine hmade.mono ?_
    rintro (halt | m) _ h
    · exact ⟨h, nofun⟩
    · refine ⟨h.1, ?_⟩
      rintro _ ⟨⟩
      exact h.2
  | next slot =>
    exact sessionKeeps_withStream slot fun m hm =>
      Keeps.bind (ModelStream.streamKeeps_next h₀ m hm) fun _ _ h => keeps_pure h
  | take slot count =>
    exact sessionKeeps_withStream slot fun m hm =>
      Keeps.bind (ModelStream.streamKeeps_take h₀ count m hm) fun _ _ h => keeps_pure h
  | close slot =>
    exact sessionKeeps_withStream slot fun m _ =>
      (ModelStream.keeps_close h₀ m).bind fun _ _ h => keeps_pure h.2
  | exhausted slot => exact sessionKeeps_withStream slot fun m hm => keeps_pure ⟨rfl, hm⟩
  | make slot =>
    refine sessionKeeps_make h₀ slot Slot.solver Solver.make
      (·.mapError fun e => .error (.solver e))
      (((Solver.drifts_make (E := E)).keeps h₀ []).mono ?_)
    rintro (e | s) _ ⟨rfl, hs⟩
    · exact ⟨rfl, nofun⟩
    · refine ⟨rfl, ?_⟩
      rintro _ ⟨⟩
      exact Solver.isTame_of_none (hs s rfl)
  | add slot l =>
    exact sessionKeeps_withSolverIn h₀ slot fun s hs =>
      (Solver.drifts_add hs l).bind fun _ h => moves_pure h
  | addClause slot c =>
    exact sessionKeeps_withSolverIn h₀ slot fun s hs =>
      (Solver.drifts_addClause hs c).bind fun _ h => moves_pure h
  | addFormula slot f =>
    exact sessionKeeps_withSolverIn h₀ slot fun s hs =>
      (Solver.drifts_addFormula hs f).bind fun _ h => moves_pure h
  | assume slot l =>
    exact sessionKeeps_withSolverIn h₀ slot fun s hs =>
      (Solver.drifts_assume hs l).bind fun _ h => moves_pure h
  | solve slot =>
    exact sessionKeeps_withSolverIn h₀ slot fun s hs =>
      (Solver.drifts_solve hs).bind fun _ h => moves_pure h
  | values slot atoms => exact sessionKeeps_withSolverIn h₀ slot fun s hs => moves_pure hs
  | setTerminate slot on =>
    refine sessionKeeps_withSolverIn h₀ slot fun s _ =>
      (Solver.drifts_setTerminate s ?_).bind fun _ h => moves_pure h
    split
    · exact Callback.tame_stopRequested
    · exact Callback.tame_none
  | script steps =>
    have hreplace : Keeps p₀ (replaceScript steps) [] fun _ left => left = [] :=
      keeps_of_eq fun _ => ⟨rfl, rfl, rfl, rfl⟩
    exact (sessionKeeps_of_keeps hreplace).bind fun _ => sessionKeeps_pure Answer.done
  | remaining =>
    exact sessionKeeps_answer h₀ moves_get fun p => Answer.count p.script.length
  | drop slot => exact sessionKeeps_dropSlot h₀ slot

theorem sessionKeeps_performAll [Engine.IsTame E] (h₀ : p₀.IsPristine) (stopAtError : Bool)
    (commands : List Command) :
    SessionKeeps p₀ (performAll stopAtError commands :
      SessionM E (List Reply × Except Error Unit)) := by
  cases commands with
  | nil => exact sessionKeeps_pure _
  | cons command commands =>
    have hobserve : Keeps p₀ observe [] fun _ left => left = [] :=
      keeps_of_eq fun _ => ⟨rfl, rfl, rfl, rfl⟩
    have hrest := sessionKeeps_performAll h₀ stopAtError commands
    refine (sessionKeeps_perform h₀ command).bind fun answer =>
      (sessionKeeps_of_keeps hobserve).bind fun observed => ?_
    split
    · exact sessionKeeps_pure _
    · exact hrest.bind fun _ => sessionKeeps_pure _

end

end Session

end GovernedSat
