import GovernedSat.Proofs.Governor.Restoring
import GovernedSat.Proofs.Process.Occasions
import GovernedSat.Proofs.Search.StreamMoves
import GovernedSat.Proofs.Session.Cut

/-!
# The first breach stands

In the history of a process governors are armed and disarmed, there are occasions on which breaches
are noted, and many other things happen. From the time a governor with limits is armed until it is
disarmed, the first breach which there is to be noted stands: it is what every checkpoint tells of,
and because of it every poll asks to stop. Governors without limits, and attempts to arm another one
with limits, make no difference. While no governor with limits is armed, every checkpoint is passed
and no poll asks to stop.

All of this is true on whatever host, whether limits can be installed there or not.

## Main definitions

* `Process.History` — the histories, with the governor which has limits in force and the breaches
  which there were to be noted since it was armed.
* `Process.Latches` — what the process keeps of these.
* `ModelStream.StandsUnder` — the streams which may be asked for models under the limits in force.

## Main results

* `Process.History.latches` — the first breach is kept.
* `Process.History.runProcedure`, `Process.History.startAs`, `Process.History.ask` — procedures and
  streams are parts of histories.
* `Process.History.first_breach_stands` — what checkpoints and polls tell.
-/

namespace GovernedSat

open Process

/-! ### Streams under limits -/

namespace ModelStream

variable {E : Type} {m : ModelStream E}

/-- The solver of the stream asks the governor whether to stop, and a governor which the stream owns
is the one with limits in force or has no limits. -/
structure StandsUnder (g : Option Governor) (m : ModelStream E) : Prop where
  isPolite : m.IsPolite
  governor : ∀ g' ∈ m.governor, g = some g' ∨ g'.saved = none

/-- A stream without limits stands under those of any governor. -/
theorem IsUnlimited.standsUnder (h : m.IsUnlimited) (g : Option Governor) : m.StandsUnder g :=
  ⟨h.isPolite, fun g' hg' => .inr (h.governor g' hg')⟩

/-- A stream stands under the limits which it owns. -/
theorem IsPolite.standsUnder {g : Governor} (h : m.IsPolite) (hg : m.governor = some g) :
    m.StandsUnder (some g) :=
  ⟨h, fun _ hg' => .inl (hg.symm.trans hg')⟩

end ModelStream

namespace Process

variable {p₀ p q : Process} {g : Option Governor} {noted : List Breach}

/-! ### Histories -/

/-- The histories of a process, up to some state: the governor with limits in force, if there is
one, and the breaches which there were to be noted since it was armed, in their order. -/
inductive History (p₀ : Process) : Option Governor → List Breach → Process → Prop
  /-- Nothing has happened. -/
  | start : History p₀ none [] p₀
  /-- There is an occasion on which a breach may be noted. -/
  | pass {g : Option Governor} {noted : List Breach} {p : Process} (o : Occasion)
      (h : History p₀ g noted p) :
      History p₀ g (noted ++ (o.breach? p).toList) (o.pass.run p).2
  /-- Something happens which has nothing to do with signals and governors. -/
  | elsewhere {g : Option Governor} {noted : List Breach} {p q : Process}
      (h : History p₀ g noted p) (hq : p.SetsActions p.actions q) : History p₀ g noted q
  /-- A governor with limits is armed. -/
  | arm {g : Option Governor} {noted : List Breach} {p q : Process} {g' : Governor} {l : Limits}
      (h : History p₀ g noted p) (hl : l.isUnbounded = false)
      (armed : (Governor.arm l).run p = pure (.ok g', q)) : History p₀ (some g') [] q
  /-- A governor is not armed. -/
  | refuse {g : Option Governor} {noted : List Breach} {p q : Process} {e : LimitError} {l : Limits}
      (h : History p₀ g noted p) (refused : (Governor.arm l).run p = pure (.error e, q)) :
      History p₀ g noted q
  /-- A governor without limits is armed. -/
  | armUnlimited {g : Option Governor} {noted : List Breach} {p : Process} {l : Limits}
      (h : History p₀ g noted p) (hl : l.isUnbounded = true) :
      History p₀ g noted ((Governor.arm l).run p).2
  /-- A governor without limits is disarmed. -/
  | disarmUnlimited {g : Option Governor} {noted : List Breach} {p : Process} {g' : Governor}
      (h : History p₀ g noted p) (hg : g'.saved = none) : History p₀ g noted (g'.disarm.run p).2
  /-- The governor with limits is disarmed. -/
  | disarm {noted : List Breach} {p : Process} {g : Governor} (h : History p₀ (some g) noted p) :
      History p₀ none [] (g.disarm.run p).2

/-! ### What is kept -/

/-- What a process keeps of the governor with limits in force and of the breaches which there were
to be noted. -/
inductive Latches (p : Process) : Option Governor → List Breach → Prop
  /-- No governor has limits in force, and there was nothing to be noted. -/
  | unarmed (h : p.IsUnarmed) : Latches p none []
  /-- The first breach is kept, and the governor can restore the actions on signals. -/
  | armed {g : Governor} {noted : List Breach} {saved : List SavedLimit}
      (armed : p.governance.armed = true) (breach : p.governance.breach = noted.head?)
      (hg : g.saved = some saved) (h : p.CanRestore saved) : Latches p (some g) noted

namespace Latches

/-- The first breach is kept. -/
theorem breach_eq (h : p.Latches g noted) : p.governance.breach = noted.head? := by
  cases h with
  | unarmed h => exact h.idle.breach
  | armed _ hb => exact hb

theorem armed_eq (h : p.Latches g noted) : p.governance.armed = g.isSome := by
  cases h with
  | unarmed h => exact h.armed
  | armed ha => exact ha

/-- It is a matter of signals and governors. -/
theorem elsewhere (h : p.Latches g noted) (hq : p.SetsActions p.actions q) : q.Latches g noted := by
  obtain ⟨hh, hg, ha⟩ := hq
  cases h with
  | unarmed h =>
    exact .unarmed
      { idle := by
          rw [IsIdle, hg]
          exact h.idle
        memoryHook := hg ▸ h.memoryHook
        action := ha ▸ h.action
        armed := hg ▸ h.armed }
  | armed harmed hb hs h => exact .armed (hg ▸ harmed) (hg ▸ hb) hs (h.of_eq hh ha)

/-- The first breach is kept on every occasion. -/
theorem pass (h : p.Latches g noted) (o : Occasion) :
    ((o.pass.run p).2 : Process).Latches g (noted ++ (o.breach? p).toList) := by
  have hd := (o.drifts_pass p).1
  have hb := o.breach_pass p
  have harmed := Governance.armed_eq_of_setup hd.setup
  cases h with
  | unarmed h =>
    rw [o.breach?_eq_none h.toIsUnwatched]
    exact .unarmed ⟨hd.isUnwatched h.toIsUnwatched, harmed.trans h.armed⟩
  | armed ha hn hs h =>
    refine .armed (harmed.trans ha) ?_ hs (h.of_eq hd.host hd.actions)
    rw [hb, hn, List.head?_append]
    cases o.breach? p <;> rfl

/-- No governor with limits is armed while one has limits in force. -/
theorem arm {l : Limits} {g' : Governor} (h : p.Latches g noted) (hl : l.isUnbounded = false)
    (harm : (Governor.arm l).run p = pure (.ok g', q)) :
    g = none ∧ noted = [] ∧ q.Latches (some g') [] := by
  cases h with
  | unarmed h =>
    have hcases := Governor.arm_cases h hl
    rw [harm] at hcases
    obtain ⟨e, he, -⟩ | ⟨_, saved, hok, hs, hr, ha, hb⟩ := hcases
    · cases he
    · cases hok
      exact ⟨rfl, rfl, .armed ha hb hs hr⟩
  | armed ha =>
    cases (Governor.run_arm_refused ha hl).symm.trans harm

theorem refuse {l : Limits} {e : LimitError} (h : p.Latches g noted)
    (harm : (Governor.arm l).run p = pure (.error e, q)) : q.Latches g noted := by
  have hl : l.isUnbounded = false := by
    by_contra hl
    obtain ⟨baseline, hrun⟩ := run_arm p (eq_true_of_ne_false hl)
    cases hrun.symm.trans harm
  cases h with
  | unarmed h =>
    have hcases := Governor.arm_cases h hl
    rw [harm] at hcases
    obtain ⟨_, -, hq⟩ | ⟨_, _, hok, -⟩ := hcases
    · exact .unarmed hq
    · cases hok
  | armed ha hb hs h =>
    cases (Governor.run_arm_refused ha hl).symm.trans harm
    exact (Latches.armed ha hb hs h).elsewhere ⟨rfl, rfl, rfl⟩

theorem disarm {g : Governor} (h : p.Latches (some g) noted) :
    ((g.disarm.run p).2 : Process).Latches none [] := by
  cases h with
  | armed _ _ hs h => exact .unarmed (Governor.isUnarmed_disarm hs h)

end Latches

/-- **The first breach is kept**, throughout every history which starts where no governor has limits
in force. -/
theorem History.latches (h₀ : p₀.IsUnarmed) (h : p₀.History g noted p) : p.Latches g noted := by
  induction h with
  | start => exact .unarmed h₀
  | pass o _ ih => exact ih.pass o
  | elsewhere _ hq ih => exact ih.elsewhere hq
  | arm _ hl harm ih => exact (ih.arm hl harm).2.2
  | refuse _ harm ih => exact ih.refuse harm
  | @armUnlimited g noted p l _ hl ih =>
    obtain ⟨baseline, hrun⟩ := run_arm p hl
    rw [hrun]
    exact ih.elsewhere ⟨rfl, rfl, rfl⟩
  | disarmUnlimited _ hg ih =>
    rw [Governor.disarm_of_saved_eq_none hg]
    exact ih
  | disarm _ ih => exact ih.disarm

/-! ### Solvers, procedures and streams -/

/-- Every history goes on from `p` to `q` while what is in force stays. -/
def Continues (p q : Process) : Prop :=
  ∀ (p₀ : Process) (g : Option Governor) (noted : List Breach), p₀.History g noted p →
    ∃ later, p₀.History g (noted ++ later) q

instance : Std.Refl Continues := ⟨fun _ _ _ _ h => ⟨[], by rwa [List.append_nil]⟩⟩

instance : Trans Continues Continues Continues where
  trans h h' _ _ _ hp := by
    obtain ⟨later, hq⟩ := h _ _ _ hp
    obtain ⟨later', hr⟩ := h' _ _ _ hq
    exact ⟨later ++ later', by rwa [← List.append_assoc]⟩

theorem continues_elsewhere (hq : p.SetsActions p.actions q) : p.Continues q :=
  fun _ _ _ h => ⟨[], by rw [List.append_nil]; exact h.elsewhere hq⟩

theorem continues_pass (o : Occasion) (p : Process) : p.Continues (o.pass.run p).2 :=
  fun _ _ _ h => ⟨_, h.pass o⟩

/-- What a solver does is a part of every history. -/
theorem admitsSolvers_continues (E : Type) [Engine E] [Engine.IsPassive E] :
    AdmitsSolvers Continues E where
  engine := Engine.IsPassive.obeys _
    { deliver := fun s p => ⟨continues_pass (.signal s) p, trivial⟩
      script := fun _ _ => continues_elsewhere ⟨rfl, rfl, rfl⟩ }
  call _ _ _ := continues_elsewhere ⟨rfl, rfl, rfl⟩
  stopRequested p := ⟨continues_pass .poll p, trivial⟩
  checkpoint p := ⟨continues_pass .checkpoint p, trivial⟩
  logEvent _ _ := continues_elsewhere ⟨rfl, rfl, rfl⟩
  make _ := continues_elsewhere ⟨rfl, rfl, rfl⟩
  release _ _ := continues_elsewhere ⟨rfl, rfl, rfl⟩

namespace History

variable {E : Type} [Engine E] [Engine.IsPassive E]

/-- A computation under a governor is a part of a history, whether the governor can be armed or
not. -/
theorem governed (h₀ : p₀.IsUnarmed) (h : p₀.History g noted p) (l : Limits) {α : Type}
    {body : ProcedureM α} (hbody : Moves Continues body.run fun _ => True) :
    ∃ later, p₀.History g (noted ++ later) ((GovernedSat.governed l body).run.run p).2 := by
  cases hl : l.isUnbounded with
  | true =>
    obtain ⟨baseline, harm⟩ := run_arm p hl
    have harmed := h.armUnlimited hl
    rw [harm] at harmed
    obtain ⟨later, hend⟩ := (hbody _).1 _ _ _ harmed
    rw [run_governed_ok harm]
    exact ⟨later, hend.disarmUnlimited rfl⟩
  | false =>
    obtain ⟨⟨armed, q⟩, harm⟩ : ∃ r, (Governor.arm l).run p = pure r := ⟨_, rfl⟩
    cases armed with
    | error e =>
      rw [run_governed_error harm]
      exact ⟨[], by rw [List.append_nil]; exact h.refuse harm⟩
    | ok g' =>
      obtain ⟨rfl, rfl, -⟩ := (h.latches h₀).arm hl harm
      obtain ⟨later, hend⟩ := (hbody q).1 _ _ _ (h.arm hl harm)
      rw [run_governed_ok harm]
      exact ⟨[], hend.disarm⟩

/-- **A procedure is a part of a history**, with whatever solvers and limits. -/
theorem runProcedure (h₀ : p₀.IsUnarmed) (h : p₀.History g noted p) (c : Config) (f : Formula)
    (atoms : List Atom) (kind : ProcedureKind) :
    ∃ later, p₀.History g (noted ++ later)
      ((Session.runProcedure (E := E) c f atoms kind).run.run p).2 := by
  rw [Session.runProcedure_eq]
  cases hf : f.validate atoms with
  | error e => exact ⟨[], by rw [List.append_nil]; exact h⟩
  | ok u =>
    rw [orFormulaError_ok, pure_bind]
    exact h.governed h₀ c.limits ((admitsSolvers_continues E).moves_procedureBody c.convention f
      atoms kind)

/-- A stream is started without limits, or fails to be started, and what is in force stays. Or else
it is started under a governor with limits, which are in force then and were not before. -/
theorem startAs_cases (h₀ : p₀.IsUnarmed) (h : p₀.History g noted p) (bare : Bool) (c : Config)
    (f : Formula) (P : List Atom) :
    let r := (ModelStream.startAs E bare c f P).run.run p
    (∃ later, p₀.History g (noted ++ later) r.2 ∧ ∀ m, r.1 = .ok m → m.IsUnlimited) ∨
      g = none ∧ ∃ m g' later, r.1 = .ok m ∧ m.governor = some g' ∧ m.IsPolite ∧
        p₀.History (some g') later r.2 := by
  have hstart := (admitsSolvers_continues E).moves_start f P c.convention
  have hstay : ∃ later, p₀.History g (noted ++ later) p :=
    ⟨[], by rw [List.append_nil]; exact h⟩
  intro r
  cases bare with
  | true =>
    obtain ⟨later, hend⟩ := (hstart p).1 _ _ _ h
    exact .inl ⟨later, hend, (hstart p).2⟩
  | false =>
    cases hf : f.validate P with
    | error e =>
      have hr : r = pure (.error (.error (.formula e)), p) := by
        change (ModelStream.startUnder c f P).run.run p = _
        rw [ModelStream.startUnder, hf]
        rfl
      obtain ⟨later, hend⟩ := hstay
      rw [hr]
      exact .inl ⟨later, hend, by rintro _ ⟨⟩⟩
    | ok u =>
      obtain ⟨⟨armed, q⟩, harm⟩ : ∃ a, (Governor.arm c.limits).run p = pure a := ⟨_, rfl⟩
      cases armed with
      | error e =>
        have hr : r = pure (.error (.error (.limit e)), q) :=
          ModelStream.run_startUnder_refused hf harm
        rw [hr]
        exact .inl ⟨[], by rw [List.append_nil]; exact h.refuse harm, by rintro _ ⟨⟩⟩
      | ok g' =>
        obtain ⟨⟨started, q'⟩, hrun⟩ :
          ∃ a, (ModelStream.start (E := E) f P c.convention).run.run q = pure a := ⟨_, rfl⟩
        have hmoves := hstart q
        rw [hrun] at hmoves
        obtain ⟨hcontinues, hunlimited⟩ := hmoves
        cases hl : c.limits.isUnbounded with
        | true =>
          obtain ⟨baseline, harm'⟩ := run_arm p hl
          have harmed := h.armUnlimited hl
          cases harm.symm.trans harm'
          rw [harm] at harmed
          obtain ⟨later, hend⟩ := hcontinues _ _ _ harmed
          cases started with
          | error halt =>
            have hr : r = pure (.error halt, q') := ModelStream.run_startUnder_error hf harm hrun
            rw [hr]
            exact .inl ⟨later, hend, by rintro _ ⟨⟩⟩
          | ok m =>
            have hr : r = pure (.ok { m with governor := some _ }, q') :=
              ModelStream.run_startUnder_ok hf harm hrun
            rw [hr]
            refine .inl ⟨later, hend, ?_⟩
            rintro _ ⟨⟩
            refine ⟨(hunlimited m rfl).isPolite, ?_⟩
            rintro _ ⟨⟩
            rfl
        | false =>
          obtain ⟨rfl, rfl, -⟩ := (h.latches h₀).arm hl harm
          obtain ⟨later, hend⟩ := hcontinues _ _ _ (h.arm hl harm)
          cases started with
          | error halt =>
            have hr : r = pure (.error halt, (g'.disarm.run q').2) :=
              ModelStream.run_startUnder_error hf harm hrun
            rw [hr]
            exact .inl ⟨[], hend.disarm, by rintro _ ⟨⟩⟩
          | ok m =>
            have hr : r = pure (.ok { m with governor := some g' }, q') :=
              ModelStream.run_startUnder_ok hf harm hrun
            rw [hr]
            exact .inr ⟨rfl, _, g', later, rfl, rfl, (hunlimited m rfl).isPolite, hend⟩

/-- **The start of a stream is a part of a history**, in which the limits of the stream are in force
from then on when it has any. -/
theorem startAs (h₀ : p₀.IsUnarmed) (h : p₀.History g noted p) (bare : Bool) (c : Config)
    (f : Formula) (P : List Atom) :
    let r := (ModelStream.startAs E bare c f P).run.run p
    ∃ g' noted', p₀.History g' noted' r.2 ∧ (∀ m, r.1 = .ok m → m.StandsUnder g') ∧
      (g' = g ∧ noted <+: noted' ∨ g = none ∧ g'.isSome = true) := by
  obtain ⟨later, hend, hm⟩ | ⟨hg, m, g', later, hm, hg', hpolite, hend⟩ :=
    h.startAs_cases (E := E) h₀ bare c f P
  · exact ⟨g, _, hend, fun m h => (hm m h).standsUnder g, .inl ⟨rfl, List.prefix_append _ _⟩⟩
  · refine ⟨some g', later, hend, fun m' hm' => ?_, .inr ⟨hg, rfl⟩⟩
    cases hm.symm.trans hm'
    exact hpolite.standsUnder hg'

/-- A stream which owns the limits in force does what it does without them until it is exhausted,
and gives them up then. -/
theorem ask_owner {m : ModelStream E} {g : Governor} (h : p₀.History (some g) noted p)
    (hm : m.IsPolite) (hg : m.governor = some g) (hx : m.isExhausted = false)
    (r : ModelStream.Request) :
    let a := (m.ask r).run p
    (a.1.2.IsUnlimited ∧ a.1.2.isExhausted = true ∧ p₀.History none [] a.2) ∨
      a.1.2.IsPolite ∧ a.1.2.governor = some g ∧
        ∃ later, p₀.History (some g) (noted ++ later) a.2 := by
  have hbare : m.ungoverned.IsUnlimited := ⟨hm, nofun⟩
  have hasked := (admitsSolvers_continues E).moves_ask hbare r p
  obtain ⟨⟨b, q⟩, hrun⟩ : ∃ b, (m.ungoverned.ask r).run p = pure b := ⟨_, rfl⟩
  rw [hrun] at hasked
  obtain ⟨hcontinues, hunlimited⟩ := hasked
  obtain ⟨later, hend⟩ := hcontinues _ _ _ h
  intro a
  have ha : a = (ModelStream.disarmIfExhausted g b).run q := by
    change (m.ask r).run p = _
    rw [ModelStream.run_ask_governed hg hx, StateT.run_bind, hrun, pure_bind]
  cases hq : b.2.isExhausted with
  | true =>
    have ha : a = pure (b, (g.disarm.run q).2) := by
      rw [ha, ModelStream.disarmIfExhausted_eq_of_isExhausted hq]
      rfl
    rw [ha]
    exact .inl ⟨hunlimited, hq, hend.disarm⟩
  | false =>
    have ha : a = pure ((b.1, { b.2 with governor := some g }), q) := by
      rw [ha, ModelStream.disarmIfExhausted_eq_of_not hq]
      rfl
    rw [ha]
    exact .inr ⟨hunlimited.isPolite, rfl, later, hend⟩

/-- **A request to a stream is a part of a history.** The limits of the stream are in force no
longer when it is exhausted. -/
theorem ask {m : ModelStream E} (h : p₀.History g noted p) (hm : m.StandsUnder g)
    (hx : m.isExhausted = false) (r : ModelStream.Request) :
    let a := (m.ask r).run p
    ∃ g' noted', p₀.History g' noted' a.2 ∧ a.1.2.StandsUnder g' ∧
      (g' = g ∧ noted <+: noted' ∨
        m.governor = g ∧ g' = none ∧ a.1.2.isExhausted = true) := by
  by_cases hlimits : ∀ g' ∈ m.governor, g'.saved = none
  · obtain ⟨hcontinues, hunlimited⟩ :=
      (admitsSolvers_continues E).moves_ask ⟨hm.isPolite, hlimits⟩ r p
    obtain ⟨later, hend⟩ := hcontinues _ _ _ h
    exact ⟨g, _, hend, hunlimited.standsUnder g, .inl ⟨rfl, List.prefix_append _ _⟩⟩
  · obtain ⟨g', hg', hsaved⟩ : ∃ g' ∈ m.governor, g'.saved ≠ none := by simpa using hlimits
    obtain rfl := (hm.governor g' hg').resolve_right hsaved
    obtain ⟨hunlimited, hx', hend⟩ | ⟨hpolite, hg, later, hend⟩ :=
      h.ask_owner hm.isPolite hg' hx r
    · exact ⟨none, [], hend, hunlimited.standsUnder none, .inr ⟨hg', rfl, hx'⟩⟩
    · exact ⟨some g', _, hend, hpolite.standsUnder hg, .inl ⟨rfl, List.prefix_append _ _⟩⟩

/-! ### The law -/

/-- **The first breach stands.** Once there was a breach to be noted while limits are in force,
every checkpoint fails with the error of the first one and every poll asks to stop; until then they
tell of what they find themselves, if anything. No other governor with limits can be armed
meanwhile. While no governor has limits in force, every checkpoint is passed and no poll asks to
stop. Whatever a procedure or a stream does, it does in the course of a history, and a stream which
owns the limits in force gives them up when it is exhausted. -/
theorem first_breach_stands (h₀ : p₀.IsUnarmed) (h : p₀.History g noted p) :
    (∀ b, noted.head? = some b →
      (checkpoint.run p).1 = .error b.toError ∧ (stopRequested.run p).1 = true) ∧
    (noted = [] →
      (checkpoint.run p).1 = passed (Occasion.checkpoint.breach? p) ∧
        (stopRequested.run p).1 = (Occasion.poll.breach? p).isSome) ∧
    (g.isSome → ∀ l : Limits, l.isUnbounded = false →
      ((Governor.arm l).run p).1 = .error .governorArmed) ∧
    (g = none →
      noted = [] ∧ (checkpoint.run p).1 = .ok () ∧ (stopRequested.run p).1 = false) ∧
    (∀ (E : Type) [Engine E] [Engine.IsPassive E] (c : Config) (f : Formula) (atoms : List Atom)
      (kind : ProcedureKind), ∃ later, p₀.History g (noted ++ later)
        ((Session.runProcedure (E := E) c f atoms kind).run.run p).2) ∧
    (∀ (E : Type) [Engine E] [Engine.IsPassive E] (bare : Bool) (c : Config) (f : Formula)
      (atoms : List Atom),
      let r := (ModelStream.startAs E bare c f atoms).run.run p
      ∃ g' noted', p₀.History g' noted' r.2 ∧ (∀ m, r.1 = .ok m → m.StandsUnder g') ∧
        (g' = g ∧ noted <+: noted' ∨ g = none ∧ g'.isSome = true)) ∧
    ∀ (E : Type) [Engine E] [Engine.IsPassive E] (m : ModelStream E), m.StandsUnder g →
      m.isExhausted = false → ∀ request : ModelStream.Request,
      let a := (m.ask request).run p
      ∃ g' noted', p₀.History g' noted' a.2 ∧ a.1.2.StandsUnder g' ∧
        (g' = g ∧ noted <+: noted' ∨
          m.governor = g ∧ g' = none ∧ a.1.2.isExhausted = true) := by
  have hkept := h.latches h₀
  obtain ⟨q, hcheckpoint, -⟩ := exists_run_checkpoint p
  obtain ⟨q', hpoll, -⟩ := exists_run_stopRequested p
  rw [hkept.breach_eq] at hcheckpoint hpoll
  rw [hcheckpoint, hpoll]
  refine ⟨fun b hb => ?_, ?_, fun hg l hl => ?_, ?_,
    fun E _ _ c f atoms kind => h.runProcedure h₀ c f atoms kind,
    fun E _ _ bare c f atoms => h.startAs h₀ bare c f atoms,
    fun E _ _ m hm hx request => h.ask hm hx request⟩
  · rw [hb]
    exact ⟨rfl, rfl⟩
  · rintro rfl
    exact ⟨rfl, rfl⟩
  · rw [Governor.run_arm_refused (hkept.armed_eq.trans hg) hl]
    rfl
  · rintro rfl
    cases hkept with
    | unarmed hp =>
      have hnone := fun o : Occasion => o.breach?_eq_none hp.toIsUnwatched
      rw [hnone, hnone]
      exact ⟨rfl, rfl, rfl⟩

/-- Under a limit on CPU time the signal about it is delivered, and then an allocation fails, which
is not noted. The checkpoint fails with the error of the signal, before and after a procedure is
run, and is passed once the governor is disarmed. -/
theorem first_breach_stands_signalled :
    let p₀ : Process := { host := .steady { cpuTime := 0, resident := 1, addressSpace := 1 } }
    ∃ g p, p₀.History (some g) [.time] p ∧
      (checkpoint.run p).1 = .error .timeLimitExceeded ∧ (stopRequested.run p).1 = true ∧
      let q := ((Session.runProcedure (E := Backtracking .full) {} [[1, 2]] [1]
        .single).run.run p).2
      (checkpoint.run q).1 = .error .timeLimitExceeded ∧
        let r := (g.disarm.run q).2
        (checkpoint.run r).1 = .ok () ∧ (stopRequested.run r).1 = false := by
  intro p₀
  have h₀ : p₀.IsUnarmed := isUnarmed_new _
  obtain ⟨g, p, harm⟩ : ∃ g p, (Governor.arm { time := 5 }).run p₀ = pure (.ok g, p) :=
    ⟨_, _, rfl⟩
  let q : Process := (Occasion.allocationFailed.pass.run
    ((Occasion.signal .cpuTimeExceeded).pass.run p).2).2
  have h : p₀.History (some g) [.time] q := by
    have h := ((History.start.arm rfl harm).pass (.signal .cpuTimeExceeded)).pass .allocationFailed
    cases harm
    exact h
  obtain ⟨hnoted, -, -, -, hprocedure, -⟩ := first_breach_stands h₀ h
  obtain ⟨later, hlater⟩ := hprocedure (Backtracking .full) {} [[1, 2]] [1] .single
  obtain ⟨hnoted', -⟩ := first_breach_stands h₀ hlater
  obtain ⟨-, -, -, hnone, -⟩ := first_breach_stands h₀ hlater.disarm
  obtain ⟨hcheckpoint, hpoll⟩ := hnoted .time rfl
  exact ⟨g, q, h, hcheckpoint, hpoll, (hnoted' .time rfl).1, (hnone rfl).2⟩

end History

end Process

end GovernedSat
