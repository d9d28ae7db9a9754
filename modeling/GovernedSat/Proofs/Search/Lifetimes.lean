import GovernedSat.Proofs.Process.Lifetimes
import GovernedSat.Proofs.Search.Keeping
import GovernedSat.Proofs.Search.Moves
import GovernedSat.Proofs.Search.Streams

/-!
# The lifetimes of solvers in searches

A search calls the solver at hand, which is the one made last. A solver which is made for a search
is released in the end, and one which a stream of models owns is released when the stream is
exhausted or closed, so the process stays in order under the procedures and under every request to a
stream.

## Main definitions

* `Orderly` — computations under which a process stays in order.
* `Process.KeepsOrder` — the changes of a process which are possible while a solver is at hand.
* `ModelStream.Leaves` — what a request leaves of a stream.

## Main results

* `orderly_withSolver`, `orderly_procedureBody` — procedures.
* `ModelStream.orderly_start`, `ModelStream.orderly_next`, `ModelStream.orderly_close` — streams.
-/

namespace GovernedSat

open Process

variable {E : Type} [Engine E] {α β : Type} {start : Process} {most : Nat} {held rest : List Nat}

/-! ### Orderly computations -/

/-- In a process which is in order, where the solvers `held` are alive, the computation makes
orderly calls, and then `post` is true of the result and of the solvers alive. -/
def Orderly (start : Process) (most : Nat) (x : ProcessM α) (held : List Nat)
    (post : α → List Nat → Prop) : Prop :=
  ∀ p, InOrder start most held p →
    ∃ held', post (x.run p).1 held' ∧ InOrder start most held' (x.run p).2

section Orderly

variable {x : ProcessM α} {P Q : α → List Nat → Prop}

theorem orderly_pure {a : α} (h : P a held) : Orderly start most (pure a) held P :=
  fun _ hp => ⟨held, h, hp⟩

theorem Orderly.mono (hx : Orderly start most x held P) (h : ∀ a held', P a held' → Q a held') :
    Orderly start most x held Q := by
  intro p hp
  obtain ⟨held', ha, hp'⟩ := hx p hp
  exact ⟨held', h _ _ ha, hp'⟩

theorem Orderly.bind {f : α → ProcessM β} {S : β → List Nat → Prop}
    (hx : Orderly start most x held P)
    (hf : ∀ a held', P a held' → Orderly start most (f a) held' S) :
    Orderly start most (x >>= f) held S := by
  intro p hp
  obtain ⟨held', ha, hp'⟩ := hx p hp
  rw [StateT.run_bind]
  exact hf _ held' ha _ hp'

/-- What never halts early comes before the rest of a procedure. -/
theorem Orderly.bind_process {f : α → ProcedureM β} {S : Except Halt β → List Nat → Prop}
    (hx : Orderly start most x held P)
    (hf : ∀ a held', P a held' → Orderly start most (f a).run held' S) :
    Orderly start most (liftM x >>= f).run held S := by
  change Orderly start most ((x >>= fun a => pure (Except.ok a)) >>= ExceptT.bindCont f) held S
  rw [bind_assoc]
  exact hx.bind fun a held' ha => hf a held' ha

/-- What makes no call leaves the solvers alive. -/
theorem Moves.orderly {R : α → Prop} (hx : Moves Mute x R) :
    Orderly start most x held fun a held' => held' = held ∧ R a :=
  fun p hp => ⟨held, ⟨rfl, (hx p).2⟩, hp.mute (hx p).1⟩

theorem orderly_logEvent (e : LogEvent) :
    Orderly start most (Process.logEvent e) held fun _ held' => held' = held :=
  fun _ hp => ⟨held, rfl, hp.mute ⟨rfl, rfl, rfl⟩⟩

theorem orderly_disarm (g : Governor) :
    Orderly start most g.disarm held fun _ held' => held' = held :=
  (AdmitsNoting.mute.moves_disarm g).orderly.mono fun _ _ h => h.1

end Orderly

/-! ### Searches -/

/-- What keeps a process in order in which the solvers `held` are alive. -/
def Process.KeepsOrder (start : Process) (most : Nat) (held : List Nat) (p q : Process) : Prop :=
  InOrder start most held p → InOrder start most held q

instance : Std.Refl (KeepsOrder start most held) := ⟨fun _ => id⟩

instance : Trans (KeepsOrder start most held) (KeepsOrder start most held)
    (KeepsOrder start most held) := ⟨fun h h' => h' ∘ h⟩

/-- What makes no call keeps a process in order. -/
theorem Moves.keepsOrder {x : ProcessM α} {P : α → Prop} (hx : Moves Mute x P) :
    Moves (KeepsOrder start most held) x P := hx.of_imp fun _ _ hm hp => hp.mute hm

variable [Engine.IsPassive E]

/-- Searches only call the solver at hand, which is the latest one alive. -/
theorem admitsSearch_keepsOrder (start : Process) (most i : Nat) (rest : List Nat) :
    AdmitsSearch (KeepsOrder start most (i :: rest)) (· = i) E where
  engine := Engine.IsPassive.obeys _
    { deliver := fun s => (AdmitsNoting.mute.moves_deliver s).keepsOrder
      script := fun _ _ hp => hp.mute ⟨rfl, rfl, rfl⟩ }
  call hi hc _ hp := hp.use hc hi
  stopRequested := AdmitsNoting.mute.moves_stopRequested.keepsOrder
  checkpoint := AdmitsNoting.mute.moves_checkpoint.keepsOrder
  logEvent _ _ hp := hp.mute ⟨rfl, rfl, rfl⟩

theorem callback_obeys_keepsOrder :
    Callback.Obeys (KeepsOrder start most held) (some stopRequested) :=
  Callback.obeys_some AdmitsNoting.mute.moves_stopRequested.keepsOrder

/-- The search keeps a process in order whose latest solver alive is the one at hand, and whose
others are `rest`. -/
def SearchIsOrderly (start : Process) (most : Nat) (rest : List Nat) (x : SearchM E α) : Prop :=
  ∀ i, SearchMoves (KeepsOrder start most (i :: rest)) (· = i) x

omit [Engine E] [Engine.IsPassive E] in
theorem SearchIsOrderly.run {x : SearchM E α} (hx : SearchIsOrderly start most rest x)
    {s : Solver E}
    (hs : s.terminate = some stopRequested) :
    Orderly start most (x.run.run s) (s.id :: rest) fun r held' =>
      s.Persists r.2 ∧ held' = s.id :: rest := by
  have hobeys : Callback.Obeys (KeepsOrder start most (s.id :: rest)) s.terminate := by
    rw [hs]
    exact callback_obeys_keepsOrder
  intro p hp
  obtain ⟨hkeeps, hpersists⟩ := hx s.id s rfl hobeys p
  exact ⟨s.id :: rest, ⟨hpersists, rfl⟩, hkeeps hp⟩

/-! ### Solvers made and released -/

omit [Engine.IsPassive E] in
theorem orderly_announced {p : Process} (e : String → LogEvent) (h : InOrder start most held p) :
    InOrder start most held (Solver.announced E p e) := by
  unfold Solver.announced
  split
  · exact h.mute ⟨rfl, rfl, rfl⟩
  · exact h

/-- A solver is made if there is room for it, or none is made. -/
theorem orderly_make (hroom : held.length < most) :
    Orderly start most (Solver.make (E := E)) held fun r held' =>
      match r with
      | .ok s => s.terminate = none ∧ held' = s.id :: held
      | .error _ => held' = held := by
  intro p hp
  have hcreate : Moves Mute (Engine.create (E := E)) fun _ => True :=
    (Engine.IsPassive.obeys Mute
      { deliver := AdmitsNoting.mute.moves_deliver
        script := fun _ _ => ⟨rfl, rfl, rfl⟩ }).create
  have hmute := (hcreate p).1
  obtain ⟨⟨r, q⟩, hrun⟩ : ∃ r, (Engine.create (E := E)).run p = r := ⟨_, rfl⟩
  rw [hrun] at hmute
  cases r with
  | error e =>
    rw [Solver.run_make_error hrun]
    exact ⟨held, rfl, hp.mute hmute⟩
  | ok engine =>
    rw [Solver.run_make_ok hrun]
    exact ⟨_, ⟨rfl, rfl⟩, orderly_announced _ ((hp.mute hmute).make hroom)⟩

omit [Engine.IsPassive E] in
theorem orderly_release (s : Solver E) :
    Orderly start most s.release (s.id :: rest) fun _ held' => held' = rest := by
  intro p hp
  rw [Solver.run_release]
  exact ⟨rest, rfl, orderly_announced _ hp.release⟩

/-- A new solver is given the clauses, and then the callback. -/
theorem orderly_load (f : Formula) {s : Solver E} (hs : s.terminate = none) :
    Orderly start most ((do Solver.addFormula f; Solver.setTerminate (some stopRequested) :
      SolverM E Unit).run s) (s.id :: rest) fun r held' =>
      r.2.id = s.id ∧ r.2.terminate = some stopRequested ∧ held' = s.id :: rest := by
  intro p hp
  obtain ⟨hkeeps, hid, hstop⟩ :=
    (admitsSearch_keepsOrder (E := E) start most s.id rest).moves_load f rfl hs p
  exact ⟨s.id :: rest, ⟨hid, hstop, rfl⟩, hkeeps hp⟩

theorem orderly_freshSolver (f : Formula) (hroom : held.length < most) :
    Orderly start most (freshSolver (E := E) f).run held fun r held' =>
      match r with
      | .ok s => s.terminate = some stopRequested ∧ held' = s.id :: held
      | .error _ => held' = held := by
  refine (orderly_make hroom).bind_process ?_
  rintro (e | s) held' h
  · exact orderly_pure h
  · obtain ⟨hs, rfl⟩ := h
    rw [orSolverError_ok, pure_bind]
    refine (orderly_load f hs).bind_process ?_
    rintro r _ ⟨hid, hstop, rfl⟩
    refine (orderly_logEvent _).bind_process ?_
    rintro _ _ rfl
    exact orderly_pure ⟨hstop, by rw [hid]⟩

/-- The solver is released in the end. -/
theorem orderly_withSolver (f : Formula) {body : SearchM E α}
    (h : SearchIsOrderly start most held body) (hroom : held.length < most) :
    Orderly start most (withSolver f body).run held fun _ held' => held' = held := by
  rw [run_withSolver]
  refine (orderly_freshSolver f hroom).bind ?_
  rintro (halt | s) held' hs
  · exact orderly_pure hs
  · obtain ⟨hs, rfl⟩ := hs
    refine (h.run hs).bind ?_
    rintro r _ ⟨hr, rfl⟩
    rw [← hr.id]
    exact (orderly_release r.2).bind fun _ _ hheld => orderly_pure hheld

/-! ### The searches of the procedures -/

section Searches

variable {f : Formula} {inputs : List Atom} {convention : ValueConvention}

theorem searchIsOrderly_findModel (projection : List Atom) (convention : ValueConvention) :
    SearchIsOrderly start most rest (ModelStream.findModel (E := E) projection convention) :=
  fun i => (admitsSearch_keepsOrder start most i rest).law.findModel projection convention

/-- The minimiser is released before the search with the enumerator goes on. -/
theorem searchIsOrderly_minimise (hroom : rest.length + 1 < most) (model : SparseValuation) :
    SearchIsOrderly start most rest
      (ExceptT.mk (liftM (minimise E f inputs convention model).run) : SearchM E (List Atom)) := by
  refine fun i => searchMoves_procedure fun p => ⟨fun hp => ?_, trivial⟩
  have hrun : Orderly start most (minimise E f inputs convention model).run (i :: rest)
      fun _ held' => held' = i :: rest :=
    orderly_withSolver [] (fun j =>
      (admitsSearch_keepsOrder start most j (i :: rest)).law.minimiserBody f model) hroom
  obtain ⟨_, rfl, hp'⟩ := hrun p hp
  exact hp'

end Searches

/-! ### Streams of models -/

namespace ModelStream

/-- What a computation with a stream leaves: the solver of the stream is alive, and polite. -/
def Leaves (rest : List Nat) (m : ModelStream E) (held : List Nat) : Prop :=
  held = m.solvers ++ rest ∧ m.IsPolite

variable {m : ModelStream E} {f : Formula} {projection : List Atom}

omit [Engine.IsPassive E] in
/-- What a stream owns is given back when it is closed. -/
theorem orderly_close (m : ModelStream E) (rest : List Nat) :
    Orderly start most (close.run m) (m.solvers ++ rest) fun r held' =>
      r.2.isExhausted = true ∧ r.2.Leaves rest held' := by
  have hrelease : Orderly start most (m.solver.elim (pure ()) Solver.release) (m.solvers ++ rest)
      fun _ held' => held' = rest := by
    rw [solvers]
    cases m.solver with
    | none => exact orderly_pure rfl
    | some s => exact orderly_release s
  have hdisarm : Orderly start most (m.governor.elim (pure ()) Governor.disarm) rest
      fun _ held' => held' = rest := by
    cases m.governor with
    | none => exact orderly_pure rfl
    | some g => exact orderly_disarm g
  rw [run_close]
  refine hrelease.bind ?_
  rintro _ _ rfl
  refine hdisarm.bind ?_
  rintro _ _ rfl
  exact orderly_pure ⟨rfl, rfl, nofun⟩

omit [Engine.IsPassive E] in
/-- What is found is logged, and after anything but a model the solver is released. -/
theorem orderly_settle (m : ModelStream E) {s : Solver E} (hs : s.terminate = some stopRequested)
    (found : Except Halt (Option Clause)) :
    Orderly start most ((settle m s found).run.run { m with solver := some s }) (s.id :: rest)
      fun r held' => r.2.Leaves rest held' := by
  have hpolite : ({ m with solver := some s } : ModelStream E).IsPolite := by
    rintro _ ⟨⟩
    exact hs
  have hend : ∀ e : LogEvent, Orderly start most (do
      logEvent e
      let r ← close.run { m with solver := some s }
      return (found, r.2)) (s.id :: rest) fun r held' => r.2.Leaves rest held' := by
    intro e
    refine (orderly_logEvent e).bind ?_
    rintro _ _ rfl
    exact (orderly_close { m with solver := some s } rest).bind fun _ _ h => orderly_pure h.2
  obtain halt | _ | model := found
  · cases halt with
    | error e => exact hend (.modelsStopped m.count e)
    | overflow => exact orderly_pure ⟨rfl, hpolite⟩
    | outOfAllowance => exact orderly_pure ⟨rfl, hpolite⟩
  · exact hend (.modelsExhausted m.count)
  · change Orderly start most (logEvent (.modelFound (m.count + 1) model) >>= fun _ =>
      pure (Except.ok (some model), ({ m with solver := some s, count := m.count + 1 } :
        ModelStream E))) _ _
    refine (orderly_logEvent _).bind ?_
    rintro _ _ rfl
    exact orderly_pure ⟨rfl, hpolite⟩

/-- The solver of a stream is released when there is no further model. -/
theorem orderly_next (hm : m.IsPolite) (rest : List Nat) :
    Orderly start most ((next (E := E)).run.run m) (m.solvers ++ rest)
      fun r held' => r.2.Leaves rest held' := by
  cases h : m.solver with
  | none =>
    rw [run_next_none h]
    exact orderly_pure ⟨rfl, hm⟩
  | some s =>
    have hheld : m.solvers ++ rest = s.id :: rest := by
      rw [solvers, h]
      rfl
    rw [run_next_some h, hheld]
    refine ((searchIsOrderly_findModel _ _).run (hm s h)).bind ?_
    rintro r _ ⟨hr, rfl⟩
    rw [← hr.id]
    exact orderly_settle m (hr.terminate.trans (hm s h)) r.1

theorem orderly_restWithin (rest : List Nat) (allowance : Nat) (hm : m.IsPolite) :
    Orderly start most ((restWithin (E := E) allowance).run.run m) (m.solvers ++ rest)
      fun r held' => r.2.Leaves rest held' := by
  induction allowance generalizing m with
  | zero => exact orderly_pure ⟨rfl, hm⟩
  | succ allowance ih =>
    rw [run_restWithin_succ]
    refine (orderly_next hm rest).bind ?_
    rintro ⟨found, m'⟩ _ ⟨rfl, hm'⟩
    obtain halt | _ | model := found
    · exact orderly_pure ⟨rfl, hm'⟩
    · exact orderly_pure ⟨rfl, hm'⟩
    · exact (ih hm').bind fun r _ h => orderly_pure h

/-- Every request leaves the solver of a stream alive or releases it. -/
theorem orderly_ask (hm : m.IsPolite) (rest : List Nat) (r : Request) :
    Orderly start most (m.ask r) (m.solvers ++ rest) fun a held' => a.2.Leaves rest held' := by
  cases r with
  | next => exact orderly_next hm rest
  | close => exact (orderly_close m rest).bind fun _ _ h => orderly_pure h.2

theorem orderly_drain (hm : m.IsPolite) (rest : List Nat) :
    Orderly start most m.drain.run (m.solvers ++ rest) fun _ held' => held' = rest := by
  have hallowance : Orderly start most (currentAllowance E m.projection.length) (m.solvers ++ rest)
      fun _ held' => held' = m.solvers ++ rest := fun _ hp => ⟨_, rfl, hp⟩
  rw [run_drain]
  refine hallowance.bind ?_
  rintro allowance _ rfl
  refine (orderly_restWithin rest allowance hm).bind ?_
  rintro r _ ⟨rfl, -⟩
  refine (orderly_close r.2 rest).bind ?_
  rintro r' _ ⟨hexhausted, rfl, -⟩
  refine orderly_pure ?_
  rw [solvers, Option.isNone_iff_eq_none.mp hexhausted]
  rfl

/-- A stream is started if there is room for its solver. -/
theorem orderly_start (f : Formula) (projection : List Atom) (convention : ValueConvention)
    (hroom : held.length < most) :
    Orderly start most (ModelStream.start (E := E) f projection convention).run held fun r held' =>
      match r with
      | .ok m => m.governor = none ∧ m.isExhausted = false ∧ m.Leaves held held'
      | .error _ => held' = held := by
  cases hf : f.validate projection with
  | error e =>
    rw [ModelStream.start, hf]
    exact orderly_pure rfl
  | ok u =>
    rw [run_start hf]
    refine (orderly_freshSolver f hroom).bind ?_
    rintro (halt | s) held' hs
    · exact orderly_pure hs
    · refine orderly_pure ⟨rfl, rfl, hs.2, ?_⟩
      rintro _ ⟨⟩
      exact hs.1

end ModelStream

end GovernedSat
