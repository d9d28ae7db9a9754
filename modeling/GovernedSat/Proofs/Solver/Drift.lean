import GovernedSat.Proofs.Solver.Moves

/-!
# What solvers do to a process

A solver makes calls to the journal, logs, and asks its callback; a scripted one also has signals
delivered. So a process drifts under every operation of a solver whose callback lets it drift, and
the callback stays the one which was set. A kind of solver of which this is true is *tame*, as both
kinds of this library are.

## Main definitions

* `Callback.Tame`, `Engine.IsTame`, `Solver.IsTame`.

## Main results

* `Solver.drifts_make`, `Solver.drifts_solve`, `Solver.drifts_release` — the operations.
-/

namespace GovernedSat

open Process

/-! ### Tame kinds of solvers -/

/-- The callback, if there is one, lets a process drift. -/
def Callback.Tame (callback : Option Callback) : Prop :=
  ∀ ask, callback = some ask → Drifts ask fun _ => True

theorem Callback.tame_none : Callback.Tame none := nofun

theorem Callback.tame_stopRequested : Callback.Tame (some stopRequested) := by
  rintro _ ⟨⟩
  exact lulls_stopRequested.drifts

/-- A kind of solver under which a process drifts, as long as it does under the callback. -/
class Engine.IsTame (E : Type) [Engine E] : Prop where
  /-- A solver is made. -/
  create : Drifts (Engine.create (E := E)) fun _ => True
  /-- A solver solves. -/
  solve : ∀ (e : E) (callback : Option Callback), Callback.Tame callback →
    Drifts (Engine.solve e callback) fun _ => True

theorem Engine.IsTame.obeys {E : Type} [Engine E] [Engine.IsTame E] : Engine.Obeys Drift E where
  create := create
  solve e _ h := solve e _ h

theorem admitsScripts_drift : AdmitsScripts Drift where
  deliver s := (lulls_deliver s).drifts
  script _ _ := .of_eq rfl rfl rfl rfl List.prefix_rfl

/-- What a passive kind of solver does by itself is to follow a script. -/
instance {E : Type} [Engine E] [Engine.IsPassive E] : Engine.IsTame E where
  create := (Engine.IsPassive.obeys Drift admitsScripts_drift).create
  solve e _ h := (Engine.IsPassive.obeys Drift admitsScripts_drift).solve e h

/-! ### Operations on a solver -/

namespace Solver

variable {E : Type} [Engine E]

/-- The callback of the solver is tame. -/
def IsTame (s : Solver E) : Prop := Callback.Tame s.terminate

/-- A solver has no callback at first. -/
theorem drifts_make [Engine.IsTame E] :
    Drifts (make (E := E)) fun r => ∀ s, r = .ok s → s.terminate = none :=
  moves_make Engine.IsTame.create drift_afterMake fun _ p => (drifts_logEvent _ p).1

omit [Engine E] in
theorem isTame_of_none {s : Solver E} (h : s.terminate = none) : s.IsTame := by
  rw [IsTame, h]
  exact Callback.tame_none

variable {s : Solver E}

theorem drifts_release : Drifts s.release fun _ => True :=
  moves_release drift_afterRelease (fun p => (drifts_logEvent _ p).1) s

theorem drifts_add (h : s.IsTame) (l : Literal) : Drifts ((add l).run s) fun r => r.2.IsTame := by
  by_cases hl : l = 0
  · subst hl
    exact fun p => ⟨(drifts_record (.clause s.id s.openClause) p).1, h⟩
  · simp only [add, if_neg hl]
    exact moves_pure h

theorem drifts_assume (h : s.IsTame) (l : Literal) :
    Drifts ((assume l).run s) fun r => r.2.IsTame :=
  fun p => ⟨(drifts_record (.assume s.id l) p).1, h⟩

omit [Engine E] in
theorem drifts_setTerminate (s : Solver E) {callback : Option Callback}
    (h : Callback.Tame callback) : Drifts ((setTerminate callback).run s) fun r => r.2.IsTame :=
  moves_pure h

theorem drifts_solve [Engine.IsTame E] (h : s.IsTame) :
    Drifts (solve.run s) fun r => r.2.IsTame := fun p =>
  ⟨(drifts_record (.solve s.id) p).1.trans (Engine.IsTame.solve s.engine s.terminate h _).1, h⟩

end Solver

end GovernedSat
