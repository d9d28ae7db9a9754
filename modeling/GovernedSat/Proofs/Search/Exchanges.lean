import GovernedSat.Proofs.Process.Lifetimes
import GovernedSat.Proofs.Search.Answers
import GovernedSat.Proofs.Search.Laziness

/-!
# Exchanges with scripted solvers

What passes between a procedure and its solvers is a list of *exchanges*: the calls, in order, where
a solve comes with the answer which the script gave to it. The exchanges of a sequence are those of
its parts, one after another. Whatever else happens to the process in the meantime, breaches and
signals included, is no exchange. A computation which is broken off by an error may have taken an
answer of the script of which nothing is known.

## Main definitions

* `Exchange` — a call and its answer.
* `Exchange.clausesGiven` — the clauses which a solver is given.
* `Process.Exchanged`, `Process.BrokenOff` — the exchanges between two states of a process.
* `Scripted.after` — the solver after an answer.

## Main results

* `freshSolver_cases`, `exchanged_release` — solvers which are made and released.
* `run_addFormula_scripted`, `exchanged_afterClauses` — the clauses given to a solver.
* `isSatisfiable_cases` — a solve with its checkpoint.
-/

namespace GovernedSat

open Process

/-! ### Exchanges -/

/-- A call to a solver, with the answer of the script to it if it is a solve. -/
structure Exchange where
  /-- The call. -/
  call : Call
  /-- The answer, as far as it is known. -/
  answer? : Option ScriptAnswer := none
  deriving DecidableEq, Repr

/-- The clause which a call gives to a solver. -/
def Call.given? (i : Nat) : Call → Option Clause
  | clause j c => if j = i then some c else none
  | init _ | assume .. | solve _ | release _ => none

namespace Exchange

/-- The calls, in order. -/
def calls (xs : List Exchange) : List Call := xs.map call

/-- The answers, in order. -/
def answers (xs : List Exchange) : List ScriptAnswer := xs.filterMap answer?

/-- Clauses are given to a solver. -/
def load (i : Nat) (f : Formula) : List Exchange := f.map fun c => { call := .clause i c }

variable {xs ys : List Exchange} {x : Exchange} {i : Nat} {f : Formula}

@[simp] theorem calls_nil : calls [] = [] := rfl

@[simp] theorem calls_cons : calls (x :: xs) = x.call :: calls xs := rfl

@[simp] theorem calls_append : calls (xs ++ ys) = calls xs ++ calls ys := List.map_append

@[simp] theorem calls_load : calls (load i f) = f.map (.clause i) := List.map_map

@[simp] theorem answers_nil : answers [] = [] := rfl

@[simp] theorem answers_cons : answers (x :: xs) = x.answer?.toList ++ answers xs := by
  cases hx : x.answer? <;> simp [answers, hx]

@[simp] theorem answers_append : answers (xs ++ ys) = answers xs ++ answers ys :=
  List.filterMap_append

@[simp] theorem answers_load : answers (load i f) = [] := by
  simp [answers, load, List.filterMap_map]

/-! ### What a solver is given -/

/-- The clauses given to a solver, in order. -/
def clausesGiven (i : Nat) (xs : List Exchange) : Formula := xs.filterMap fun x => x.call.given? i

/-- An exchange with a solver which is no assumption. -/
inductive IsPlain (i : Nat) : Exchange → Prop
  /-- The solver is made. -/
  | init : IsPlain i { call := .init i }
  /-- It is given a clause. -/
  | clause (c : Clause) : IsPlain i { call := .clause i c }
  /-- It is asked. -/
  | solve (answer? : Option ScriptAnswer) : IsPlain i ⟨.solve i, answer?⟩
  /-- It is released. -/
  | release : IsPlain i { call := .release i }

theorem isPlain_load (i : Nat) (f : Formula) : ∀ x ∈ load i f, x.IsPlain i :=
  List.forall_mem_map.mpr fun c _ => .clause c

theorem IsPlain.ne_assume (h : x.IsPlain i) {j : Nat} {l : Literal} : x.call ≠ .assume j l := by
  cases h <;> nofun

@[simp] theorem clausesGiven_nil : clausesGiven i [] = [] := rfl

@[simp] theorem clausesGiven_cons :
    clausesGiven i (x :: xs) = (x.call.given? i).toList ++ clausesGiven i xs := by
  cases hx : x.call.given? i <;> simp [clausesGiven, hx]

@[simp] theorem clausesGiven_append :
    clausesGiven i (xs ++ ys) = clausesGiven i xs ++ clausesGiven i ys := List.filterMap_append

theorem clausesGiven_load : clausesGiven i (load i f) = f := by
  induction f with
  | nil => rfl
  | cons c f ih =>
    rw [load, List.map_cons, ← load, clausesGiven_cons, ih, Call.given?, if_pos rfl]
    rfl

/-- Exchanges with another solver give it nothing. -/
theorem clausesGiven_eq_nil {j : Nat} (h : ∀ x ∈ xs, x.IsPlain j) (hi : i ≠ j) :
    clausesGiven i xs = [] := by
  refine List.filterMap_eq_nil_iff.mpr fun x hx => ?_
  cases h x hx with
  | clause c => exact if_neg (Ne.symm hi)
  | init | solve _ | release => rfl

end Exchange

namespace Process

/-- Between the two states of the process these calls were made and no other. -/
structure Called (p : Process) (xs : List Exchange) (q : Process) : Prop where
  /-- The calls are added to the journal. -/
  journal : q.journal.toList = p.journal.toList ++ Exchange.calls xs
  /-- Solvers are numbered as they are made. -/
  made : q.made = p.made + solversMade (Exchange.calls xs)

/-- These exchanges took place and no other. -/
structure Exchanged (p : Process) (xs : List Exchange) (q : Process) : Prop
    extends Called p xs q where
  /-- The answers were taken from the script. -/
  answers : p.answers = Exchange.answers xs ++ q.answers

/-- These exchanges took place, but the script may have answered more than is known. -/
structure BrokenOff (p : Process) (xs : List Exchange) (q : Process) : Prop
    extends Called p xs q where
  /-- The answers were those of the script. -/
  answers : Exchange.answers xs <+: p.answers

variable {p q r : Process} {xs ys : List Exchange}

theorem solversMade_append (cs ds : List Call) :
    solversMade (cs ++ ds) = solversMade cs + solversMade ds := List.countP_append

theorem solversMade_cons (d : Call) (ds : List Call) :
    solversMade (d :: ds) = solversMade ds + if d.isInit then 1 else 0 := List.countP_cons

theorem solversMade_load (i : Nat) (g : Formula) :
    solversMade (Exchange.calls (Exchange.load i g)) = 0 := by
  simp [solversMade, Call.isInit]

theorem Called.trans (h : p.Called xs q) (h' : q.Called ys r) : p.Called (xs ++ ys) r where
  journal := by rw [h'.journal, h.journal, Exchange.calls_append, List.append_assoc]
  made := by rw [h'.made, h.made, Exchange.calls_append, solversMade_append, Nat.add_assoc]

theorem Called.nil {q : Process} (hj : q.journal = p.journal) (hm : q.made = p.made) :
    p.Called [] q where
  journal := by rw [hj, Exchange.calls_nil, List.append_nil]
  made := hm

theorem Exchanged.brokenOff (h : p.Exchanged xs q) : p.BrokenOff xs q :=
  ⟨h.toCalled, _, h.answers.symm⟩

theorem Exchanged.trans (h : p.Exchanged xs q) (h' : q.Exchanged ys r) :
    p.Exchanged (xs ++ ys) r where
  toCalled := h.toCalled.trans h'.toCalled
  answers := by rw [h.answers, h'.answers, Exchange.answers_append, List.append_assoc]

theorem Exchanged.trans_brokenOff (h : p.Exchanged xs q) (h' : q.BrokenOff ys r) :
    p.BrokenOff (xs ++ ys) r where
  toCalled := h.toCalled.trans h'.toCalled
  answers := by
    rw [h.answers, Exchange.answers_append]
    exact (List.prefix_append_right_inj _).mpr h'.answers

/-- Where something was answered, the script has become shorter. -/
theorem Exchanged.length_answers_lt (h : p.Exchanged xs q) {x : Exchange} (hx : x ∈ xs)
    {a : ScriptAnswer} (ha : x.answer? = some a) : q.answers.length < p.answers.length := by
  have hpos : 0 < (Exchange.answers xs).length :=
    List.length_pos_of_mem (List.mem_filterMap.mpr ⟨x, hx, ha⟩)
  rw [h.answers, List.length_append]
  omega

/-- Calls may follow which are not answered. -/
theorem BrokenOff.trans (h : p.BrokenOff xs q) (h' : q.Exchanged ys r)
    (hys : Exchange.answers ys = []) : p.BrokenOff (xs ++ ys) r where
  toCalled := h.toCalled.trans h'.toCalled
  answers := by
    rw [Exchange.answers_append, hys, List.append_nil]
    exact h.answers

/-- The last answer may be left out. -/
theorem BrokenOff.forget {c : Call} {answer? : Option ScriptAnswer}
    (h : p.BrokenOff (xs ++ [⟨c, answer?⟩]) q) : p.BrokenOff (xs ++ [⟨c, none⟩]) q where
  journal := by simpa using h.journal
  made := by simpa using h.made
  answers := by
    have hanswers := h.answers
    rw [Exchange.answers_append] at hanswers ⊢
    exact ((List.prefix_append_right_inj _).mpr List.nil_prefix).trans hanswers

theorem Exchanged.nil (p : Process) : p.Exchanged [] p := ⟨.nil rfl rfl, rfl⟩

/-- What makes no call and leaves the script as it is exchanges nothing. -/
theorem Mute.exchanged (h : p.Mute q) (hs : q.script = p.script) : p.Exchanged [] q where
  toCalled := .nil h.journal h.made
  answers := by rw [Process.answers, Process.answers, hs]; rfl

/-- What makes no call may use up the script. -/
theorem Mute.brokenOff (h : p.Mute q) : p.BrokenOff [] q where
  toCalled := .nil h.journal h.made
  answers := List.nil_prefix

/-- Events are no exchanges. -/
theorem Exchanged.logEvent (h : p.Exchanged xs q) (e : LogEvent) :
    p.Exchanged xs { q with log := q.log.push e } :=
  ⟨⟨h.journal, h.made⟩, h.answers⟩

theorem BrokenOff.logEvent (h : p.BrokenOff xs q) (e : LogEvent) :
    p.BrokenOff xs { q with log := q.log.push e } :=
  ⟨⟨h.journal, h.made⟩, h.answers⟩

/-- Governors exchange nothing with solvers. -/
theorem exchanged_arm (l : Limits) (p : Process) : p.Exchanged [] ((Governor.arm l).run p).2 :=
  Mute.exchanged (AdmitsNoting.mute.moves_arm l p).1 (AdmitsNoting.keepsScript.moves_arm l p).1

theorem exchanged_disarm (g : Governor) (p : Process) : p.Exchanged [] (g.disarm.run p).2 :=
  Mute.exchanged (AdmitsNoting.mute.moves_disarm g p).1
    (AdmitsNoting.keepsScript.moves_disarm g p).1

theorem exchanged_afterClauses (p : Process) (i : Nat) (f : Formula) :
    p.Exchanged (Exchange.load i f) (p.afterClauses i f) := by
  induction f generalizing p with
  | nil => exact Mute.exchanged ⟨rfl, rfl, rfl⟩ rfl
  | cons c f ih =>
    have hc : p.Exchanged [{ call := .clause i c }] (p.journaled (.clause i c)) :=
      ⟨⟨Array.toList_push, rfl⟩, rfl⟩
    exact hc.trans (ih (p.journaled (.clause i c)))

theorem exchanged_afterMake (p : Process) :
    p.Exchanged [{ call := .init (p.made + 1) }] p.afterMake :=
  ⟨⟨Array.toList_push, rfl⟩, rfl⟩

theorem exchanged_afterRelease (p : Process) (i : Nat) :
    p.Exchanged [{ call := .release i }] (p.afterRelease i) :=
  ⟨⟨Array.toList_push, rfl⟩, rfl⟩

end Process

/-! ### Scripted solvers -/

namespace Scripted

variable {form : AnswerForm}

/-- The solver after an answer: a model takes the place of the last one. -/
def after (s : Scripted form) : ScriptAnswer → Scripted form
  | .sat model => { model }
  | _ => s

theorem run_finishStep (s : Scripted form) (step : ScriptStep) (p : Process) :
    ((s.finishStep step).run p).1 = (step.report form, s.after step.answer) := by
  obtain ⟨answer, before, after, code⟩ := step
  cases answer <;> cases after <;> rfl

/-- A solve which is not interrupted takes the answer of the first step of the script. -/
theorem exists_answer (s : Scripted .report) (p : Process)
    (h : ((s.solve (some stopRequested)).run p).1.1 ≠ .interrupted) :
    ∃ answer, p.answers = answer :: ((s.solve (some stopRequested)).run p).2.answers ∧
      ((s.solve (some stopRequested)).run p).1 = (answer.report, s.after answer) := by
  let asked := stopRequested.run (deliverBefore.run p).2
  have hasked : asked.2.answers = p.answers := by
    have hkept := (AdmitsNoting.keepsScript.moves_stopRequested (deliverBefore.run p).2).1
    rw [← answers_deliverBefore p]
    exact congrArg (List.map ScriptStep.answer) hkept
  have hrun : (s.solve (some stopRequested)).run p =
      (if asked.1 then pure (.interrupted, s) else s.takeStep : ProcessM _).run asked.2 := rfl
  rw [hrun] at h ⊢
  rw [← hasked]
  split at h
  · exact absurd rfl h
  · next hstop =>
    rw [if_neg hstop]
    rw [answers, answers, script_takeStep]
    cases hscript : asked.2.script with
    | nil =>
      have htake : s.takeStep.run asked.2 = pure ((.interrupted, s), asked.2) := by
        simp [takeStep, hscript]
      rw [htake] at h
      exact absurd rfl h
    | cons step rest =>
      have htake : s.takeStep.run asked.2 =
          (s.finishStep step).run { asked.2 with script := rest } := by
        rw [takeStep_eq, StateT.run_bind, StateT.run_get, pure_bind]
        dsimp only
        rw [hscript]
        rfl
      rw [htake, run_finishStep]
      exact ⟨step.answer, rfl, rfl⟩

theorem foldl_insert (s : Scripted form) (g : Formula) : g.foldl Engine.insert s = s := by
  induction g with
  | nil => rfl
  | cons c g ih => exact ih

end Scripted

/-! ### Calls -/

section Calls

variable {s : Solver (Scripted .report)} {p : Process} {f : Formula}

/-- A scripted solver is made, unless the script refuses it. -/
theorem freshSolver_cases (hf : ∀ c ∈ f, 0 ∉ c) (p : Process) :
    (∃ q, (freshSolver (E := Scripted .report) f).run.run p =
        pure (.error (.error (.solver .initialisation)), q) ∧ p.Mute q ∧
      p.answers.head? = some .refuse) ∨
    ∃ q, (freshSolver (E := Scripted .report) f).run.run p =
        pure (.ok (.fresh (p.made + 1) {} f), q) ∧
      p.Exchanged ({ call := .init (p.made + 1) } :: Exchange.load (p.made + 1) f) q := by
  obtain ⟨step, rest, hscript, hstep, hcreate⟩ | hcreate := @Scripted.create_cases .report p
  · refine .inl ⟨_, run_freshSolver_error f hcreate, ⟨rfl, rfl, rfl⟩, ?_⟩
    rw [answers, hscript, List.map_cons, hstep, List.head?_cons]
  · exact .inr ⟨_, run_freshSolver_eq hf hcreate, (exchanged_afterMake p).trans
      ((exchanged_afterClauses p.afterMake (p.made + 1) f).logEvent (.loaded f.length))⟩

theorem exchanged_release (s : Solver (Scripted .report)) (p : Process) :
    p.Exchanged [{ call := .release s.id }] (s.release.run p).2 := by
  rw [Solver.run_release]
  exact exchanged_afterRelease p s.id

/-- Clauses leave a scripted solver as it is. -/
theorem run_addFormula_scripted (hf : ∀ c ∈ f, 0 ∉ c) (ho : s.openClause = []) (p : Process) :
    ((Solver.addFormula f).run s).run p = (((), s), p.afterClauses s.id f) := by
  rw [Solver.run_addFormula s p hf ho, Scripted.foldl_insert]

theorem run_addClause_scripted {c : Clause} (hc : 0 ∉ c) (ho : s.openClause = []) (p : Process) :
    ((Solver.addClause c).run s).run p = (((), s), p.afterClauses s.id [c]) := by
  rw [Solver.run_addClause s p hc, ho]
  obtain ⟨id, _, terminate, engine⟩ := s
  cases ho
  rfl

/-- A search is allowed one solve more than the script has answers. -/
theorem run_currentAllowance_scripted (atoms : Nat) (s : Solver (Scripted .report)) (p : Process) :
    ((liftM (currentAllowance (Scripted .report) atoms) :
      SearchM (Scripted .report) Nat).run.run s).run p =
        pure ((.ok (p.answers.length + 1), s), p) := by
  rw [answers, List.length_map]
  rfl

/-- **A solve with its checkpoint** finds a model, or finds none, or is broken off. -/
theorem isSatisfiable_cases (hs : s.terminate = some stopRequested) (p : Process) :
    (∃ model q, ((isSatisfiable : SearchM (Scripted .report) Bool).run.run s).run p =
        pure ((.ok true, { s with engine := { model } }), q) ∧
      p.Exchanged [⟨.solve s.id, some (.sat model)⟩] q) ∨
    (∃ q, ((isSatisfiable : SearchM (Scripted .report) Bool).run.run s).run p =
        pure ((.ok false, s), q) ∧ p.Exchanged [⟨.solve s.id, some .unsat⟩] q) ∨
    ∃ e s' q, ((isSatisfiable : SearchM (Scripted .report) Bool).run.run s).run p =
        pure ((.error (.error e), s'), q) ∧ s'.id = s.id ∧
      p.BrokenOff [⟨.solve s.id, none⟩] q := by
  let begun := p.journaled (.solve s.id)
  have hmute : begun.Mute ((s.engine.solve (some stopRequested)).run begun).2 :=
    (Scripted.moves_solve { deliver := AdmitsNoting.mute.moves_deliver
                            script := fun _ _ => ⟨rfl, rfl, rfl⟩ } s.engine
      (Callback.obeys_some AdmitsNoting.mute.moves_stopRequested) begun).1
  have hanswer := s.engine.exists_answer begun
  have hsolve : (Solver.solve.run s).run p =
      (let r := (s.engine.solve (some stopRequested)).run begun
      pure ((some r.1.1, { s with engine := r.1.2 }), r.2)) := by
    rw [Solver.run_solve, hs]
    rfl
  generalize (s.engine.solve (some stopRequested)).run begun = r at hmute hanswer hsolve
  obtain ⟨⟨report, engine⟩, q⟩ := r
  obtain ⟨q', hlull, hagrees, hcheckpoint⟩ := checkpoint_cases q
  have hjournal : q'.journal.toList = p.journal.toList ++ [.solve s.id] := by
    rw [hlull.calls, hmute.journal]
    exact Array.toList_push
  have hmade : q'.made = p.made := hagrees.made.trans hmute.made
  have hcut : p.BrokenOff [⟨.solve s.id, none⟩] q' := ⟨⟨hjournal, hmade⟩, List.nil_prefix⟩
  obtain ⟨b, -, hc⟩ | ⟨-, hc⟩ := hcheckpoint
  · exact .inr (.inr ⟨_, _, _, run_isSatisfiable_error hsolve hc, rfl, hcut.logEvent _⟩)
  · have hrun := run_isSatisfiable_ok hsolve hc
    by_cases hi : report = .interrupted
    · subst hi
      exact .inr (.inr ⟨_, _, _, hrun, rfl, hcut.logEvent _⟩)
    · obtain ⟨answer, hanswers, hr⟩ := hanswer hi
      obtain ⟨rfl, rfl⟩ := Prod.mk.inj hr
      have hscript : q.answers = q'.answers :=
        congrArg (List.map ScriptStep.answer) hagrees.script.symm
      have hx : p.Exchanged [⟨.solve s.id, some answer⟩] q' :=
        ⟨⟨hjournal, hmade⟩, (hscript ▸ hanswers : p.answers = answer :: q'.answers)⟩
      cases answer with
      | sat model => exact .inl ⟨model, _, hrun, hx.logEvent _⟩
      | unsat => exact .inr (.inl ⟨_, hrun, hx.logEvent _⟩)
      | interrupted => exact absurd rfl hi
      | refuse => exact absurd rfl hi

end Calls

end GovernedSat
