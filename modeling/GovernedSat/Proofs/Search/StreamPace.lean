import GovernedSat.Proofs.Search.Keeping
import GovernedSat.Proofs.Search.Pace
import GovernedSat.Proofs.Search.Streams

/-!
# Streams of models under limits and without

A stream of models drives its solver by searches, so its runs stay in pace or are cut with these.
What is then done with the model, or with the reason for which there is none, is the same in any
case: it is logged, and the solver is released unless a model was found.

## Main definitions

* `ModelStream.AtHand` — a stream whose solver is the latest one alive.

## Main results

* `ModelStream.streamPaced_next`, `ModelStream.streamPaced_restWithin` — finding models.
* `ModelStream.procedurePaced_startDrain` — finding all models.
-/

namespace GovernedSat

open Process

namespace ModelStream

/-! ### Closing -/

section Closing

variable {form : AnswerForm}

/-- The stream was left with the solver, or was closed. -/
def IsLeftBy (m : ModelStream (Scripted form)) (s : Solver (Scripted form)) : Prop :=
  m.governor = none ∧ (m.solver = none ∨ m.solver = some s)

/-- A stream without a governor releases its solver when it is closed. -/
theorem steady_close {m : ModelStream (Scripted form)} (hm : m.governor = none)
    (rest : List Nat) :
    Steady (close.run m) (m.solvers ++ rest) (fun r => r.2.governor = none ∧ r.2.solver = none)
      fun r held' => (r.2.governor = none ∧ r.2.solver = none) ∧ held' = rest := by
  obtain ⟨solver, projection, convention, count, governor⟩ := m
  subst hm
  cases solver with
  | none => exact steady_pure ⟨rfl, rfl⟩ ⟨⟨rfl, rfl⟩, rfl⟩
  | some s =>
    refine (Solver.steady_release s rest).bind (fun _ _ => moves_pure ⟨rfl, rfl⟩) ?_
    rintro _ _ rfl
    exact steady_pure ⟨rfl, rfl⟩ ⟨⟨rfl, rfl⟩, rfl⟩

end Closing

/-! ### Finding models -/

section Pace

variable {form : AnswerForm} {m : ModelStream (Scripted form)}

/-- The result is the one found. -/
theorem steady_settle (hm : m.governor = none) (s : Solver (Scripted form))
    (found : Except Halt (Option Clause)) (rest : List Nat) :
    Steady ((settle m s found).run.run { m with solver := some s }) (s.id :: rest)
      (fun r => r.2.IsLeftBy s)
      fun r held' => r.1 = found ∧ r.2.IsLeftBy s ∧ held' = r.2.solvers ++ rest := by
  -- The stream is closed.
  have hend : ∀ e : LogEvent, e.outcome? = none →
      Steady (do logEvent e; let r ← close.run { m with solver := some s }; return (found, r.2))
        (s.id :: rest) (fun r => r.2.IsLeftBy s)
        fun r held' => r.1 = found ∧ r.2.IsLeftBy s ∧ held' = r.2.solvers ++ rest := by
    intro e he
    have hclose : Steady (do let r ← close.run { m with solver := some s }; return (found, r.2))
        (s.id :: rest) (fun r => r.2.IsLeftBy s)
        fun r held' => r.1 = found ∧ r.2.IsLeftBy s ∧ held' = r.2.solvers ++ rest :=
      (steady_close (m := { m with solver := some s }) hm rest).bind
        (fun _ h => moves_pure ⟨h.1, .inl h.2⟩) fun r held' h =>
          steady_pure ⟨h.1.1, .inl h.1.2⟩
            ⟨rfl, ⟨h.1.1, .inl h.1.2⟩, by rw [h.2, solvers, h.1.2]; rfl⟩
    refine (steady_logEvent he _).bind (fun _ _ => hclose.paced.drifts) ?_
    rintro _ _ rfl
    exact hclose
  obtain halt | _ | model := found
  · cases halt with
    | error e => exact hend (.modelsStopped m.count e) rfl
    | overflow => exact steady_pure ⟨hm, .inr rfl⟩ ⟨rfl, ⟨hm, .inr rfl⟩, rfl⟩
    | outOfAllowance => exact steady_pure ⟨hm, .inr rfl⟩ ⟨rfl, ⟨hm, .inr rfl⟩, rfl⟩
  · exact hend (.modelsExhausted m.count) rfl
  · refine (steady_logEvent (e := .modelFound (m.count + 1) model) rfl _).bind
      (fun _ _ => moves_pure ⟨hm, .inr rfl⟩) ?_
    rintro _ _ rfl
    exact steady_pure ⟨hm, .inr rfl⟩ ⟨rfl, ⟨hm, .inr rfl⟩, rfl⟩

/-- A stream without a governor, whose solver is the latest one alive and asks the governor whether
to stop. -/
def AtHand (rest : List Nat) : PaceInvariant (ModelStream (Scripted form)) where
  tame m := m.governor = none ∧ m.IsTame
  holds m held := m.governor = none ∧ (∀ s ∈ m.solver, s.terminate = some stopRequested) ∧
    held = m.solvers ++ rest
  tame_of_holds h := ⟨h.1, fun s hs => by
    rw [Solver.IsTame, h.2.1 s hs]
    exact Callback.tame_stopRequested⟩

namespace IsLeftBy

variable {s : Solver (Scripted form)} {rest held : List Nat}

theorem tame (h : m.IsLeftBy s) (hs : s.IsTame) : (AtHand rest).tame m := by
  refine ⟨h.1, fun t ht => ?_⟩
  rcases h.2 with hn | hn <;> rw [hn] at ht <;> cases ht
  exact hs

theorem holds (h : m.IsLeftBy s) (hs : s.terminate = some stopRequested)
    (hheld : held = m.solvers ++ rest) : (AtHand rest).holds m held := by
  refine ⟨h.1, fun t ht => ?_, hheld⟩
  rcases h.2 with hn | hn <;> rw [hn] at ht <;> cases ht
  exact hs

end IsLeftBy

theorem streamPaced_next (rest : List Nat) :
    StaysPaced (AtHand rest) (next (E := Scripted form)) := by
  have hsettle : ∀ m : ModelStream (Scripted form), m.governor = none →
      ∀ r : Except Halt (Option Clause) × Solver (Scripted form), r.2.IsTame →
      Drifts ((settle m r.2 r.1).run.run { m with solver := some r.2 }) fun r' =>
        (AtHand rest).tame r'.2 := fun m hm r hr =>
    (steady_settle hm r.2 r.1 rest).paced.drifts.mono fun _ h => h.tame hr
  refine ⟨fun m hm => ?_, fun m held hm => ?_⟩
  · cases h : m.solver with
    | none =>
      rw [run_next_none h]
      exact moves_pure hm
    | some s =>
      rw [run_next_some h]
      exact (searchDrifts_findModel _ _ s (hm.2 s h)).bind (hsettle m hm.1)
  · cases h : m.solver with
    | none =>
      rw [run_next_none h]
      exact paced_pure ((AtHand rest).tame_of_holds hm) hm
    | some s =>
      rw [run_next_some h]
      have hs : (Solver.AtHand s.id rest).holds s held :=
        ⟨hm.2.1 s h, rfl, by rw [hm.2.2, solvers, h]; rfl⟩
      refine ((paceLaw.findModel _ _ s.id rest).paced s held hs).bind (hsettle m hm.1) ?_ ?_
      · rintro ⟨found, t⟩ _ ⟨ht, hid, rfl⟩
        rw [← hid]
        exact (steady_settle hm.1 t found rest).paced.mono
          (fun _ h' => h'.tame ((Solver.AtHand t.id rest).tame_of_holds ⟨ht, rfl, rfl⟩))
          (fun _ _ h' => h'.2.1.holds ht h'.2.2) fun _ _ _ => nofun
      · rintro b ⟨_, t⟩ _ ⟨rfl, ht, hid, rfl⟩
        rw [← hid]
        exact ((steady_settle hm.1 t _ rest).mono (fun _ => id)
          fun _ _ h' => ⟨h'.1, h'.2.1.holds ht h'.2.2⟩).finishes b

theorem streamPaced_restWithin (rest : List Nat) (allowance : Nat) :
    StaysPaced (AtHand rest) (restWithin (E := Scripted form) allowance) := by
  induction allowance with
  | zero => exact staysPaced_throw _
  | succ allowance ih =>
    refine (streamPaced_next rest).bind fun found => ?_
    cases found with
    | none => exact staysPaced_pure []
    | some model => exact ih.bind fun models => staysPaced_pure (model :: models)

/-! ### Finding all models -/

variable {held rest : List Nat} {allowance : Nat}

/-- The stream is closed, whatever was found. -/
theorem steady_drained {r : Except Halt (List Clause) × ModelStream (Scripted form)}
    (hr : (AtHand rest).tame r.2) :
    Steady (do let _ ← close.run r.2; return r.1) (r.2.solvers ++ rest) (fun _ => True)
      fun a held' => a = r.1 ∧ held' = rest :=
  (steady_close hr.1 rest).bind (fun _ _ => moves_pure trivial)
    fun _ _ h => steady_pure trivial ⟨rfl, h.2⟩

theorem drifts_drainWithin (hm : (AtHand rest).tame m) :
    Drifts (drainWithin allowance m) fun _ => True :=
  ((streamPaced_restWithin rest allowance).drifts m hm).bind
    fun _ hr => (steady_drained hr).paced.drifts

theorem paced_drainWithin (hm : (AtHand rest).holds m held) :
    Paced (drainWithin allowance m) held (fun _ => True) (fun _ held' => held' = rest)
      fun b r held' => r = .error (.error (.limit b.toError)) ∧ held' = rest := by
  refine ((streamPaced_restWithin rest allowance).paced m held hm).bind
    (fun _ hr => (steady_drained hr).paced.drifts) ?_ ?_
  · intro r held' hr
    rw [hr.2.2]
    exact (steady_drained ((AtHand rest).tame_of_holds hr)).paced.mono (fun _ => id)
      (fun _ _ => And.right) fun _ _ _ => nofun
  · rintro b r held' ⟨he, hr⟩
    rw [hr.2.2, ← he]
    exact (steady_drained ((AtHand rest).tame_of_holds hr)).finishes b

theorem drifts_drain (hm : (AtHand rest).tame m) : Drifts m.drain.run fun _ => True := by
  rw [run_drain]
  exact (paced_currentAllowance _ []).drifts.bind fun _ _ => drifts_drainWithin hm

theorem paced_drain (hm : (AtHand rest).holds m held) :
    Paced m.drain.run held (fun _ => True) (fun _ held' => held' = rest)
      fun b r held' => r = .error (.error (.limit b.toError)) ∧ held' = rest := by
  rw [run_drain]
  refine (paced_currentAllowance _ held).bind
    (fun _ _ => drifts_drainWithin ((AtHand rest).tame_of_holds hm)) ?_ nofun
  rintro allowance _ rfl
  exact paced_drainWithin hm

theorem procedurePaced_startDrain {f : Formula} {projection : List Atom}
    (convention : ValueConvention) (hf : f.validate projection = .ok ()) :
    ProcedurePaced (do
      let m : ModelStream (Scripted form) ← start f projection convention
      m.drain) := by
  intro held
  rw [run_start_bind hf]
  refine (paced_freshSolver f held).bind ?_ ?_ nofun
  · rintro (halt | s) hs
    · exact moves_pure trivial
    · have htame : (AtHand held).tame { solver := some s, projection, convention } := by
        refine ⟨rfl, ?_⟩
        rintro _ ⟨⟩
        exact hs s rfl
      exact drifts_drain htame
  · rintro (halt | s) held' hs
    · exact paced_pure trivial hs
    · refine paced_drain ⟨rfl, ?_, hs.2.2⟩
      rintro _ ⟨⟩
      exact hs.1

end Pace

end ModelStream

end GovernedSat
