import GovernedSat.Proofs.Process.Pace
import GovernedSat.Proofs.Solver.Drift

/-!
# Scripted solvers under limits and without

What a scripted solver does is decided by the script, the signals and its callback, so in two
processes in pace it does the same until a breach is noted. The calls which make, feed and release
it are the same in both.

## Main definitions

* `Solver.Alike` — solvers with the same number and the same callback.
* `Solver.KeepsPace` — operations which keep processes in pace.

## Main results

* `Scripted.follows_solve` — a solve, unless a breach is noted.
* `Solver.paced_make`, `Solver.steady_release` — making and releasing.
* `Solver.keepsPace_add`, `Solver.keepsPace_assume` — clauses and assumptions.
-/

namespace GovernedSat

open Process

variable {form : AnswerForm} {α : Type}

/-! ### The script -/

namespace Scripted

theorem follows_create : Follows (@create form) := by
  refine follows_get_bind (fun p => ?_) fun p q h => by simp only [h]
  split
  · exact (follows_setScript _).bind fun _ => follows_pure _
  · exact follows_pure _

theorem follows_deliverBefore : Follows deliverBefore := by
  refine follows_get_bind (fun p => ?_) fun p q h => by simp only [h]
  split
  · split
    · exact (follows_setScript _).bind fun _ => follows_deliver _
    · exact follows_pure _
  · exact follows_pure _

theorem follows_takeStep (s : Scripted form) : Follows s.takeStep := by
  refine follows_get_bind (fun p => ?_) fun p q h => by simp only [h]
  split
  · exact follows_pure _
  · refine (follows_setScript _).bind fun _ => ?_
    split <;> split
    · exact (follows_deliver _).bind fun _ => follows_pure _
    · exact follows_pure _
    · exact (follows_deliver _).bind fun _ => follows_pure _
    · exact follows_pure _

/-- A solve which asks the governor whether to stop does the same under limits as without, unless a
breach is noted. -/
theorem follows_solve (s : Scripted form) : Follows (s.solve (some stopRequested)) := by
  refine follows_deliverBefore.bind fun _ => follows_stopRequested.bind fun stop => ?_
  split
  · exact follows_pure _
  · exact s.follows_takeStep

end Scripted

/-! ### Making and releasing -/

theorem Scripted.governance_create (p : Process) :
    ((@create form).run p).2.governance = p.governance := by
  rw [Scripted.create, StateT.run_bind, StateT.run_get, pure_bind]
  split <;> rfl

namespace Solver

variable {held : List Nat}

/-- A solver is made in both processes, or in none. -/
theorem paced_make : Paced (make (E := Scripted form)) held
    (fun r => ∀ s, r = .ok s → s.terminate = none)
    (fun r held' => match r with
      | .ok s => s.terminate = none ∧ held' = s.id :: held
      | .error _ => held' = held) NeverCut := by
  refine ⟨drifts_make, fun start p p₀ hp => .inl ?_⟩
  obtain ⟨he, _, hheld, hp'⟩ | ⟨_, _, ⟨⟩, -⟩ := (Scripted.follows_create.paced
    Scripted.governance_create held).paced start p p₀ hp
  rw [hheld] at hp'
  rw [make, StateT.run_bind, StateT.run_bind]
  -- The processes after the script was read, which tells whether a solver is made.
  generalize (@Scripted.create form).run p = r at he hp'
  generalize (@Scripted.create form).run p₀ = r₀ at he hp'
  obtain ⟨made, q⟩ := r
  obtain ⟨made₀, q₀⟩ := r₀
  obtain rfl : made = made₀ := he
  cases made with
  | error e => exact ⟨rfl, held, rfl, hp'⟩
  | ok engine =>
    have hid : (⟨q.made + 1, [], none, engine⟩ : Solver (Scripted form)) =
        ⟨q₀.made + 1, [], none, engine⟩ := by rw [show q.made = q₀.made from hp'.agrees.made]
    cases form with
    | report => exact ⟨congrArg Except.ok hid, _, ⟨rfl, rfl⟩, hp'.make⟩
    | code => exact ⟨congrArg Except.ok hid, _, ⟨rfl, rfl⟩, hp'.make.logEvent rfl⟩

/-- The latest solver is released. -/
theorem steady_release (s : Solver (Scripted form)) (held : List Nat) :
    Steady s.release (s.id :: held) (fun _ => True) fun _ held' => held' = held where
  paced := by
    refine ⟨drifts_release, fun start p p₀ hp => .inl ⟨rfl, held, rfl, ?_⟩⟩
    cases form with
    | report => exact hp.release
    | code => exact hp.release.logEvent rfl
  finishes _ _ _ _ hp := by
    refine ⟨held, rfl, ?_⟩
    cases form with
    | report => exact hp.release
    | code => exact hp.release.logEvent rfl

/-! ### Clauses and assumptions -/

/-- Both solvers have the same number and the same callback. -/
def Alike (s t : Solver (Scripted form)) : Prop := t.id = s.id ∧ t.terminate = s.terminate

/-- The operation keeps processes in pace and has the solver as it was, but for its clauses and
assumptions. -/
def KeepsPace (x : SolverM (Scripted form) α) : Prop :=
  ∀ (s : Solver (Scripted form)) (held : List Nat), s.IsTame →
    Paced (x.run s) held (fun r => r.2.IsTame) (fun r held' => s.Alike r.2 ∧ held' = held) NeverCut

theorem Alike.isTame {s t : Solver (Scripted form)} (h : s.Alike t) (hs : s.IsTame) :
    t.IsTame := by
  rw [IsTame, h.2]
  exact hs

theorem keepsPace_pure (a : α) : KeepsPace (pure a : SolverM (Scripted form) α) :=
  fun _ _ h => paced_pure h ⟨⟨rfl, rfl⟩, rfl⟩

theorem KeepsPace.bind {β : Type} {x : SolverM (Scripted form) α}
    {f : α → SolverM (Scripted form) β} (hx : KeepsPace x) (hf : ∀ a, KeepsPace (f a)) :
    KeepsPace (x >>= f) := by
  intro s held h
  refine (hx s held h).bind (fun r hr => (hf r.1 r.2 held hr).drifts) ?_ nofun
  rintro r held' ⟨hr, hheld⟩
  refine (hf r.1 r.2 held' (hr.isTame h)).mono (fun _ h => h) ?_ fun _ _ _ => nofun
  exact fun r' held'' hr' =>
    ⟨⟨hr'.1.1.trans hr.1, hr'.1.2.trans hr.2⟩, hr'.2.trans hheld⟩

theorem keepsPace_add (l : Literal) : KeepsPace (add (E := Scripted form) l) := by
  intro s held h
  refine ⟨drifts_add h l, fun start p p₀ hp => .inl ?_⟩
  by_cases hl : l = 0
  · subst hl
    obtain ⟨-, held', hheld, hp'⟩ | ⟨_, _, ⟨⟩, -⟩ := (paced_record (c := .clause s.id s.openClause)
      rfl held).paced start p p₀ hp
    exact ⟨rfl, held', ⟨⟨rfl, rfl⟩, hheld⟩, hp'⟩
  · simp only [add, if_neg hl]
    exact ⟨rfl, held, ⟨⟨rfl, rfl⟩, rfl⟩, hp⟩

theorem keepsPace_assume (l : Literal) : KeepsPace (assume (E := Scripted form) l) := by
  refine fun s held h => ⟨drifts_assume h l, fun start p p₀ hp => .inl ?_⟩
  obtain ⟨-, held', hheld, hp'⟩ | ⟨_, _, ⟨⟩, -⟩ := (paced_record (c := .assume s.id l)
    rfl held).paced start p p₀ hp
  exact ⟨rfl, held', ⟨⟨rfl, rfl⟩, hheld⟩, hp'⟩

end Solver

end GovernedSat
