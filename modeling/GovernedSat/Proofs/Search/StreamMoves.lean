import GovernedSat.Proofs.Search.Keeping
import GovernedSat.Proofs.Search.Moves
import GovernedSat.Proofs.Search.Streams

/-!
# How streams and procedures change a process

What allows solvers to be made, searches to be run and solvers to be released also allows a stream
without limits to be started, asked for models and closed, and the body of every procedure.

## Main definitions

* `ModelStream.IsUnlimited` — streams without limits.

## Main results

* `AdmitsSolvers.moves_start`, `AdmitsSolvers.moves_ask` — streams.
* `AdmitsSolvers.moves_procedureBody` — procedures.
-/

namespace GovernedSat

open Process

variable {E : Type}

/-- The solver of the stream asks the governor whether to stop, and a governor which the stream owns
has no limits. -/
structure ModelStream.IsUnlimited (m : ModelStream E) : Prop where
  isPolite : m.IsPolite
  governor : ∀ g ∈ m.governor, g.saved = none

/-- There is nothing to be restored. -/
theorem Governor.disarm_of_saved_eq_none {g : Governor} (hg : g.saved = none) :
    g.disarm = pure () := by
  rw [disarm, hg]

/-! ### Giving back -/

section Releases

open ModelStream

variable {R : Process → Process → Prop} [Engine E] [Std.Refl R] [Trans R R R]
  {m : ModelStream E}

namespace AdmitsReleases

variable (hR : AdmitsReleases R)
include hR

theorem moves_close (hm : ∀ g ∈ m.governor, g.saved = none) :
    Moves R (close.run m) fun r => r.2.IsUnlimited := by
  have hrelease : Moves R (m.solver.elim (pure ()) Solver.release) fun _ => True := by
    cases m.solver with
    | none => exact moves_pure trivial
    | some s => exact hR.moves_release s
  have hdisarm : m.governor.elim (pure ()) Governor.disarm = pure () := by
    cases hg : m.governor with
    | none => rfl
    | some g => exact Governor.disarm_of_saved_eq_none (hm g hg)
  rw [run_close, hdisarm]
  exact hrelease.bind fun _ _ => moves_pure ⟨nofun, nofun⟩

theorem moves_settle (hm : ∀ g ∈ m.governor, g.saved = none) {s : Solver E}
    (hs : s.terminate = some stopRequested) (found : Except Halt (Option Clause)) :
    Moves R ((settle m s found).run.run { m with solver := some s }) fun r => r.2.IsUnlimited := by
  have hbare : ({ m with solver := some s } : ModelStream E).IsUnlimited := by
    refine ⟨?_, hm⟩
    rintro _ ⟨⟩
    exact hs
  have hend : ∀ e : LogEvent, e.target ≠ .governor → Moves R (do
      Process.logEvent e
      let r ← close.run { m with solver := some s }
      return (found, r.2)) fun r => r.2.IsUnlimited := fun e he =>
    Moves.bind (P := fun _ => True) (moves_modify (hR.logEvent he)) fun _ _ =>
      (hR.moves_close hbare.governor).bind fun _ h => moves_pure h
  obtain halt | _ | model := found
  · cases halt with
    | error e => exact hend (.modelsStopped m.count e) nofun
    | overflow => exact moves_pure hbare
    | outOfAllowance => exact moves_pure hbare
  · exact hend (.modelsExhausted m.count) nofun
  · exact Moves.bind (P := fun _ => True)
      (moves_modify (hR.logEvent (e := .modelFound (m.count + 1) model) nofun))
      fun _ _ => moves_pure ⟨hbare.isPolite, hm⟩

end AdmitsReleases

end Releases

namespace AdmitsSolvers

variable {R : Process → Process → Prop} [Engine E] [Std.Refl R] [Trans R R R]
  (hR : AdmitsSolvers R E)
include hR

/-! ### Streams without limits -/

section Streams

open ModelStream

variable {m : ModelStream E} {f : Formula} {projection : List Atom}

theorem moves_next (hm : m.IsUnlimited) :
    Moves R ((next (E := E)).run.run m) fun r => r.2.IsUnlimited := by
  cases h : m.solver with
  | none =>
    rw [run_next_none h]
    exact moves_pure hm
  | some s =>
    have hs : s.terminate = some stopRequested := hm.isPolite s h
    have hobeys : Callback.Obeys R s.terminate := by
      rw [hs]
      exact Callback.obeys_some hR.stopRequested
    rw [run_next_some h]
    exact (hR.law.findModel _ _ s trivial hobeys).bind fun r hr =>
      hR.releases.moves_settle hm.governor (hr.terminate.trans hs) r.1

theorem moves_ask (hm : m.IsUnlimited) (r : Request) :
    Moves R (m.ask r) fun a => a.2.IsUnlimited := by
  cases r with
  | next => exact hR.moves_next hm
  | close => exact (hR.releases.moves_close hm.governor).bind fun _ h => moves_pure h

theorem moves_restWithin (allowance : Nat) (hm : m.IsUnlimited) :
    Moves R ((restWithin (E := E) allowance).run.run m) fun r => r.2.IsUnlimited := by
  induction allowance generalizing m with
  | zero => exact moves_pure hm
  | succ allowance ih =>
    rw [run_restWithin_succ]
    refine (hR.moves_next hm).bind ?_
    rintro ⟨found, m'⟩ hm'
    obtain halt | _ | model := found
    · exact moves_pure hm'
    · exact moves_pure hm'
    · exact (ih hm').bind fun r h => moves_pure h

theorem moves_drain (hm : m.IsUnlimited) : Moves R m.drain.run fun _ => True := by
  rw [run_drain]
  refine (moves_get.bind fun _ _ => moves_pure trivial :
    Moves R (currentAllowance E m.projection.length) fun _ => True).bind fun allowance _ => ?_
  exact (hR.moves_restWithin allowance hm).bind fun r hr =>
    (hR.releases.moves_close hr.governor).bind fun _ _ => moves_pure trivial

theorem moves_start (f : Formula) (projection : List Atom) (convention : ValueConvention) :
    Moves R (start (E := E) f projection convention).run fun r =>
      ∀ m, r = .ok m → m.IsUnlimited := by
  cases hf : f.validate projection with
  | error e =>
    rw [start, hf]
    exact moves_pure (by rintro _ ⟨⟩)
  | ok u =>
    rw [run_start hf]
    refine (hR.moves_freshSolver f).bind fun r hr => ?_
    cases r with
    | error halt => exact moves_pure (by rintro _ ⟨⟩)
    | ok s =>
      refine moves_pure ?_
      rintro _ ⟨⟩
      refine ⟨?_, by rintro _ ⟨⟩⟩
      rintro _ ⟨⟩
      exact hr s rfl

end Streams

/-! ### The bodies of procedures -/

theorem moves_procedureBody (v : ValueConvention) (f : Formula) (atoms : List Atom)
    (kind : ProcedureKind) :
    Moves R (Session.procedureBody E v f atoms kind).run fun _ => True := by
  cases kind with
  | enumerate =>
    exact (hR.moves_start f atoms v).bind_procedure (fun m hm => hR.moves_drain (hm m rfl))
      fun _ => trivial
  | single =>
    exact hR.moves_withSolver f (hR.law.allWithin hR.law.implicantsWithin _)
  | dual =>
    exact hR.moves_withSolver f (hR.law.allWithin
      (hR.law.dualImplicantsWithin (hR.searchMoves_minimise f atoms v)) _)

end AdmitsSolvers

end GovernedSat
