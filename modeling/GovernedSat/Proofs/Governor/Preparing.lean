import GovernedSat.Proofs.Governor.Moves

/-!
# Arming and disarming beside the calls to solvers

Arming and disarming a governor changes limits, actions and the state of governance, and logs what
is done. It neither calls a solver nor passes a checkpoint, takes no step of a script, and notes no
breach, on whatever host and whether it succeeds or not.

## Main definitions

* `Process.Prepares` — what arming and disarming leave as it is.

## Main results

* `Governor.prepares_arm`, `Governor.prepares_disarm`.
-/

namespace GovernedSat

open Process

/-! ### Preparing -/

/-- Neither a call nor a checkpoint is made, and no breach is noted. -/
structure Process.Prepares (p q : Process) : Prop where
  /-- The scripts and the number of the next solver stay. -/
  agrees : q.Agrees p
  /-- No call is made. -/
  journal : q.journal = p.journal
  /-- No breach is noted. -/
  breach : p.governance.breach = none → q.governance.breach = none
  /-- No event says anything of a checkpoint. -/
  log : ∃ events, q.log.toList = p.log.toList ++ events ∧ checkpointOutcomes events = []

namespace Process.Prepares

variable {p q r : Process}

/-- Nothing but the limits, the actions and the count of readings changes. -/
theorem of_eq (hs : q.script = p.script) (hm : q.made = p.made) (hj : q.journal = p.journal)
    (hb : p.governance.breach = none → q.governance.breach = none) (hl : q.log = p.log) :
    p.Prepares q :=
  ⟨⟨hs, hm⟩, hj, hb, [], by rw [hl, List.append_nil], rfl⟩

theorem refl (p : Process) : p.Prepares p := .of_eq rfl rfl rfl id rfl

theorem trans (h : p.Prepares q) (h' : q.Prepares r) : p.Prepares r where
  agrees := ⟨h'.agrees.script.trans h.agrees.script, h'.agrees.made.trans h.agrees.made⟩
  journal := h'.journal.trans h.journal
  breach := h'.breach ∘ h.breach
  log := by
    obtain ⟨events, hl, ho⟩ := h.log
    obtain ⟨events', hl', ho'⟩ := h'.log
    exact ⟨events ++ events', by rw [hl', hl, List.append_assoc],
      by rw [checkpointOutcomes_append, ho, ho']; rfl⟩

instance : Std.Refl Prepares := ⟨refl⟩

instance : Trans Prepares Prepares Prepares := ⟨trans⟩

end Process.Prepares

/-! ### Arming and disarming -/

theorem admitsArming_prepares : AdmitsArming Prepares where
  readings _ _ := .of_eq rfl rfl rfl id rfl
  limits _ _ := .of_eq rfl rfl rfl id rfl
  actions _ _ := .of_eq rfl rfl rfl id rfl
  governance _ _ hf := .of_eq rfl rfl rfl hf rfl
  event := fun {e} _ he _ =>
    ⟨⟨rfl, rfl⟩, rfl, id, [e], Array.toList_push, checkpointOutcomes_concat he []⟩

theorem Governor.prepares_arm (l : Limits) : Moves Prepares (arm l) fun _ => True :=
  admitsArming_prepares.moves_arm l

theorem Governor.prepares_disarm (g : Governor) : Moves Prepares g.disarm fun _ => True :=
  admitsArming_prepares.moves_disarm g

end GovernedSat
