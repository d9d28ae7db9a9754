import GovernedSat.Proofs.Search.Lifetimes

/-!
# The lifetimes of solvers in calls

Whatever the solvers answer, and whatever breaches are noted, a call of a procedure releases every
solver it makes, and so does a stream of models by the time it is exhausted or closed. This is done
before the governor of the call, or of the stream, is disarmed.

## Main definitions

* `ProcedureKind.mostSolvers` — how many solvers a procedure uses at a time.
* `ModelStream.Reaches` — the states of a stream under requests.

## Main results

* `Session.isSettled_calls` — calls and streams release their solvers.
-/

namespace GovernedSat

open Process

/-- The number of solvers which a procedure uses at a time, at most. -/
def ProcedureKind.mostSolvers : ProcedureKind → Nat
  | enumerate | single => 1
  | dual => 2

variable {E : Type} [Engine E] [Engine.IsPassive E] {start p q : Process} {most : Nat}

/-! ### Procedures -/

namespace Session

variable {f : Formula} {atoms : List Atom}

theorem orderly_procedureBody (v : ValueConvention) (kind : ProcedureKind)
    (hf : f.validate atoms = .ok ()) :
    Orderly start kind.mostSolvers (procedureBody E v f atoms kind).run [] fun _ held' =>
      held' = [] := by
  cases kind with
  | enumerate =>
    rw [procedureBody, ModelStream.run_start_bind hf]
    refine (orderly_freshSolver f Nat.one_pos).bind ?_
    rintro (halt | s) held' hs
    · exact orderly_pure hs
    · obtain ⟨hs, rfl⟩ := hs
      let m : ModelStream E := { solver := some s, projection := atoms, convention := v }
      have hm : m.IsPolite := by
        rintro _ ⟨⟩
        exact hs
      exact ModelStream.orderly_drain hm []
  | single =>
    exact orderly_withSolver f (fun i => (admitsSearch_keepsOrder start 1 i []).law.allWithin
      (admitsSearch_keepsOrder start 1 i []).law.implicantsWithin _) Nat.one_pos
  | dual =>
    refine orderly_withSolver f (fun i => ?_) Nat.two_pos
    exact (admitsSearch_keepsOrder start 2 i []).law.allWithin
      ((admitsSearch_keepsOrder start 2 i []).law.dualImplicantsWithin fun model =>
        searchIsOrderly_minimise Nat.one_lt_two model i) _

end Session

/-! ### Streams -/

namespace ModelStream

/-- The states of a stream and of its process which are reached from `m₀` and `p₀` when the stream
is asked for something any number of times. Between the requests anything may happen to the process
by which no solver is called. -/
inductive Reaches (m₀ : ModelStream E) (p₀ : Process) : ModelStream E → Process → Prop
  /-- Nothing was asked for. -/
  | start : Reaches m₀ p₀ m₀ p₀
  /-- Something else happens. -/
  | mute {m : ModelStream E} {p q : Process} (h : Reaches m₀ p₀ m p) (hq : p.Mute q) :
      Reaches m₀ p₀ m q
  /-- The stream is asked for something. -/
  | ask {m : ModelStream E} {p : Process} (h : Reaches m₀ p₀ m p) (r : Request) :
      Reaches m₀ p₀ ((m.ask r).run p).1.2 ((m.ask r).run p).2

/-- The solver of a stream is alive and no other one, and the stream owns no governor without
it. -/
structure IsKept (start : Process) (m : ModelStream E) (p : Process) : Prop where
  inOrder : InOrder start 1 m.solvers p
  isPolite : m.IsPolite
  governor : m.isExhausted = true → m.governor = none

namespace IsKept

variable {m : ModelStream E}

omit [Engine E] [Engine.IsPassive E] in
theorem ungoverned (h : IsKept start m p) : IsKept start m.ungoverned p where
  inOrder := h.inOrder
  isPolite := h.isPolite
  governor _ := rfl

theorem ask (h : IsKept start m p) (r : Request) :
    IsKept start ((m.ask r).run p).1.2 ((m.ask r).run p).2 := by
  have hleft := isLeftWith_ask m h.governor r p
  obtain ⟨_, ⟨rfl, hpolite⟩, horder⟩ :=
    orderly_ask h.isPolite [] r p ((List.append_nil m.solvers).symm ▸ h.inOrder)
  rw [List.append_nil] at horder
  refine ⟨horder, hpolite, fun hx => ?_⟩
  rw [hleft.governor, ← hleft.isExhausted, if_pos hx]

theorem reaches {m₀ : ModelStream E} {p₀ : Process} (h₀ : IsKept start m₀ p₀)
    (h : Reaches m₀ p₀ m p) : IsKept start m p := by
  induction h with
  | start => exact h₀
  | mute _ hq ih => exact ⟨ih.inOrder.mute hq, ih.isPolite, ih.governor⟩
  | ask _ r ih => exact ih.ask r

end IsKept

omit [Engine E] [Engine.IsPassive E] in
theorem mute_disarmIfExhausted {α : Type} (g : Governor) (a : α × ModelStream E) :
    Moves Mute (disarmIfExhausted g a) fun _ => True := by
  unfold disarmIfExhausted
  split
  · exact (AdmitsNoting.mute.moves_disarm g).bind fun _ _ => moves_pure trivial
  · exact moves_pure trivial

end ModelStream

namespace Session

variable {c : Config} {f : Formula} {projection : List Atom}

/-- What is left when a stream is started: the stream, or nothing. -/
def StartLeaves (start : Process) (r : Except Halt (ModelStream E) × Process) : Prop :=
  match r.1 with
  | .ok m => m.IsKept start r.2 ∧ m.isExhausted = false
  | .error _ => InOrder start 1 [] r.2

theorem startLeaves_start (hp : InOrder start 1 [] p) (v : ValueConvention) :
    StartLeaves start ((ModelStream.start (E := E) f projection v).run.run p) := by
  obtain ⟨held, hleft, hp'⟩ := ModelStream.orderly_start (E := E) f projection v Nat.one_pos p hp
  unfold StartLeaves
  split
  · next m hm =>
    rw [hm] at hleft
    obtain ⟨hg, hx, rfl, hpolite⟩ := hleft
    exact ⟨⟨List.append_nil m.solvers ▸ hp', hpolite, fun _ => hg⟩, hx⟩
  · next halt hhalt =>
    rw [hhalt] at hleft
    exact hleft ▸ hp'

/-- When no stream is started, no solver is left. -/
theorem startLeaves_startAs (bare : Bool) (c : Config) (f : Formula) (projection : List Atom)
    (p : Process) : StartLeaves p ((ModelStream.startAs E bare c f projection).run.run p) := by
  cases bare with
  | true => exact startLeaves_start (.init p 1) c.convention
  | false =>
    change StartLeaves p ((ModelStream.startUnder (E := E) c f projection).run.run p)
    cases hf : f.validate projection with
    | error e =>
      rw [ModelStream.startUnder, hf]
      exact .init p 1
    | ok u =>
      have harm := (AdmitsNoting.mute.moves_arm c.limits p).1
      obtain ⟨⟨armed, q⟩, hrun⟩ : ∃ r, (Governor.arm c.limits).run p = r := ⟨_, rfl⟩
      rw [hrun] at harm
      have hq : InOrder p 1 [] q := (InOrder.init p 1).mute harm
      cases armed with
      | error e =>
        rw [ModelStream.run_startUnder_refused hf hrun]
        exact hq
      | ok g =>
        have hstart : StartLeaves p
          ((ModelStream.start (E := E) f projection c.convention).run.run q) :=
            startLeaves_start hq c.convention
        obtain ⟨⟨r, q'⟩, hrun'⟩ : ∃ r,
          (ModelStream.start (E := E) f projection c.convention).run.run q = r := ⟨_, rfl⟩
        rw [hrun'] at hstart
        cases r with
        | ok m =>
          rw [ModelStream.run_startUnder_ok hf hrun hrun']
          obtain ⟨hkept, hx⟩ := hstart
          refine ⟨⟨hkept.inOrder, hkept.isPolite, fun hx' => ?_⟩, hx⟩
          cases hx.symm.trans hx'
        | error halt =>
          rw [ModelStream.run_startUnder_error hf hrun hrun']
          exact InOrder.mute hstart (AdmitsNoting.mute.moves_disarm g q').1

/-! ### Calls and streams -/

/-- The solvers of a procedure are released before its governor is disarmed. -/
theorem isSettled_runProcedure (c : Config) (f : Formula) (atoms : List Atom)
    (kind : ProcedureKind) (p : Process) :
    let r := (runProcedure (E := E) c f atoms kind).run.run p
    IsSettled p kind.mostSolvers [] r.2 ∧
      ∀ g q, f.validate atoms = .ok () → (Governor.arm c.limits).run p = pure (.ok g, q) →
        let ended := ((procedureBody E c.convention f atoms kind).run.run q).2
        IsSettled p kind.mostSolvers [] ended ∧ r.2 = (g.disarm.run ended).2 ∧ ended.Mute r.2 := by
  have hnone : IsSettled p kind.mostSolvers [] p := (InOrder.init p _).isSettled
  rw [runProcedure_eq]
  cases hf : f.validate atoms with
  | error e => exact ⟨hnone, nofun⟩
  | ok u =>
    rw [orFormulaError_ok, pure_bind]
    have harm := (AdmitsNoting.mute.moves_arm c.limits p).1
    obtain ⟨⟨armed, q⟩, hrun⟩ : ∃ r, (Governor.arm c.limits).run p = r := ⟨_, rfl⟩
    rw [hrun] at harm ⊢
    cases armed with
    | error e =>
      rw [run_governed_error hrun]
      refine ⟨hnone.mute harm, ?_⟩
      rintro g q' - ⟨⟩
    | ok g =>
      rw [run_governed_ok hrun]
      obtain ⟨_, rfl, hended⟩ := orderly_procedureBody (E := E) c.convention kind hf q
        ((InOrder.init p kind.mostSolvers).mute harm)
      have hdisarm := (AdmitsNoting.mute.moves_disarm g
        ((procedureBody E c.convention f atoms kind).run.run q).2).1
      refine ⟨hended.isSettled.mute hdisarm, ?_⟩
      rintro g' q' - ⟨⟩
      exact ⟨hended.isSettled, rfl, hdisarm⟩

/-- The solver of a stream is released by the request which exhausts the stream, and before the
governor is disarmed. -/
theorem isSettled_ask {m : ModelStream E} (h : m.IsKept start q) (r : ModelStream.Request) :
    let a := (m.ask r).run q
    (r = .close ∨ ModelStream.isFinal a.1.1 = true → a.1.2.solvers = []) ∧
      ∀ g, m.governor = some g →
        let ended := (m.ungoverned.ask r).run q
        IsSettled start 1 ended.1.2.solvers ended.2 ∧
          a = (ModelStream.disarmIfExhausted g ended.1).run ended.2 ∧ ended.2.Mute a.2 := by
  intro a
  have hleft := ModelStream.isLeftWith_ask m h.governor r q
  refine ⟨fun hr => ?_, fun g hg => ?_⟩
  · have hfinal : ModelStream.isFinal a.1.1 = true := by
      rcases hr with rfl | hr
      · rfl
      · exact hr
    rw [ModelStream.solvers, Option.isNone_iff_eq_none.mp (hleft.isExhausted.trans hfinal)]
    rfl
  · have hx : m.isExhausted = false := by
      by_contra hx
      rw [h.governor (eq_true_of_ne_false hx)] at hg
      cases hg
    have hrun : a = (m.ungoverned.ask r >>= ModelStream.disarmIfExhausted g).run q := by
      rw [← ModelStream.run_ask_governed hg hx]
    refine ⟨(h.ungoverned.ask r).inOrder.isSettled, hrun, ?_⟩
    rw [hrun]
    exact (ModelStream.mute_disarmIfExhausted g _ _).1

/-- **No solver is leaked, released twice or called after its release.** Since a call of a procedure
began, every solver made was released once and called in between, one of them at a time, or two for
the variant with two solvers, and as many solvers are alive as before. This is so by the time the
governor of the call is disarmed. It is also true since a stream was started, once the solver which
the stream still owns is released; the stream releases it when it is closed or does not find a
model, and disarms its governor after that. -/
theorem isSettled_calls (E : Type) [Engine E] [Engine.IsPassive E] (c : Config) (f : Formula)
    (atoms : List Atom) (p : Process) :
    (∀ kind : ProcedureKind,
      let r := (runProcedure (E := E) c f atoms kind).run.run p
      IsSettled p kind.mostSolvers [] r.2 ∧
        ∀ g q, f.validate atoms = .ok () → (Governor.arm c.limits).run p = pure (.ok g, q) →
          let ended := ((procedureBody E c.convention f atoms kind).run.run q).2
          IsSettled p kind.mostSolvers [] ended ∧ r.2 = (g.disarm.run ended).2 ∧
            ended.Mute r.2) ∧
    ∀ bare : Bool,
      (∀ halt q, (ModelStream.startAs E bare c f atoms).run.run p = pure (.error halt, q) →
        IsSettled p 1 [] q) ∧
      ∀ m₀ p₀, (ModelStream.startAs E bare c f atoms).run.run p = pure (.ok m₀, p₀) →
        ∀ m q, m₀.Reaches p₀ m q → IsSettled p 1 m.solvers q ∧
          ∀ request : ModelStream.Request,
            let a := (m.ask request).run q
            (request = .close ∨ ModelStream.isFinal a.1.1 = true → a.1.2.solvers = []) ∧
              ∀ g, m.governor = some g →
                let ended := (m.ungoverned.ask request).run q
                IsSettled p 1 ended.1.2.solvers ended.2 ∧
                  a = (ModelStream.disarmIfExhausted g ended.1).run ended.2 ∧
                  ended.2.Mute a.2 := by
  refine ⟨fun kind => isSettled_runProcedure c f atoms kind p, fun bare => ?_⟩
  have hstart := startLeaves_startAs (E := E) bare c f atoms p
  refine ⟨fun halt q hr => ?_, fun m₀ p₀ hr m q h => ?_⟩
  · rw [hr] at hstart
    exact InOrder.isSettled hstart
  · rw [hr] at hstart
    have hkept := hstart.1.reaches h
    exact ⟨hkept.inOrder.isSettled, fun request => isSettled_ask hkept request⟩

/-- A signal about CPU time is delivered in the course of the second solve of the variant with two
solvers, and both solvers are released before the governor is disarmed. A stream under the same
limits is asked for a model and is then closed, and its solver is released before the governor of
the stream is disarmed. -/
theorem isSettled_calls_signalled :
    let p : Process := {
      host := .steady { cpuTime := 0, resident := 1, addressSpace := 1 }
      script := [{ answer := .sat [1, 2] },
        { answer := .sat [1], after := some .cpuTimeExceeded }, { answer := .unsat }] }
    let c : Config := .ofLimits { time := 5 } .dontCareAsTrue
    ∃ g q m₀ p₀ g', Formula.validate [[1, 2]] [1, 2] = .ok () ∧
      (Governor.arm c.limits).run p = pure (.ok g, q) ∧
      IsSettled p 2 []
        ((procedureBody (Scripted .report) c.convention [[1, 2]] [1, 2] .dual).run.run q).2 ∧
      (ModelStream.startAs (Scripted .report) false c [[1, 2]] [1, 2]).run.run p =
        pure (.ok m₀, p₀) ∧
      m₀.governor = some g' ∧
      let a := (m₀.ask .next).run p₀
      let a' := (a.1.2.ask .close).run a.2
      IsSettled p 1 ((m₀.ungoverned.ask .next).run p₀).1.2.solvers
        ((m₀.ungoverned.ask .next).run p₀).2 ∧
        IsSettled p 1 a.1.2.solvers a.2 ∧ a'.1.2.solvers = [] ∧
        IsSettled p 1 a'.1.2.solvers a'.2 := by
  intro p c
  have h := isSettled_calls (Scripted .report) c [[1, 2]] [1, 2] p
  obtain ⟨g, q, harm⟩ : ∃ g q, (Governor.arm c.limits).run p = pure (.ok g, q) := ⟨_, _, rfl⟩
  obtain ⟨m₀, p₀, g', hstart, hg⟩ : ∃ m₀ p₀ g',
      (ModelStream.startAs (Scripted .report) false c [[1, 2]] [1, 2]).run.run p =
        pure (.ok m₀, p₀) ∧
        m₀.governor = some g' := ⟨_, _, _, rfl, rfl⟩
  have hreached := (h.2 false).2 m₀ p₀ hstart
  have hfirst := hreached _ _ (.ask .start .next)
  have hsecond := hreached _ _ (.ask (.ask .start .next) .close)
  exact ⟨g, q, m₀, p₀, g', rfl, harm, ((h.1 .dual).2 g q rfl harm).1, hstart, hg,
    (((hreached _ _ .start).2 .next).2 g' hg).1, hfirst.1, (hfirst.2 .close).1 (.inl rfl),
    hsecond.1⟩

end Session

end GovernedSat
