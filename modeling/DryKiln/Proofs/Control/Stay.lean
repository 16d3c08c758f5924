-- How a controller has come into the step in which it is: by a tick that looked for the next step.
-- Since that tick it has kept its stage, its position and the second of that tick, and as long as
-- no other tick has followed, its regulators are new.
import DryKiln.Proofs.Control.Position

namespace DryKiln

/-- A regulator is used for the regulation that it was made for. -/
theorem Regulator.MadeFor.regulation {regulation : Regulation} {regulator : Regulator}
    (h : regulator.MadeFor regulation) : regulator.regulation = regulation := by
  induction h with
  | fresh => rfl
  | @update regulator setpoint oven material previous now _ ih =>
    rw [← ih, Regulator.update]
    split <;> rfl

namespace Controller

/-! ## Any history -/

/-- Only a start and a tick change the stage. -/
theorem stage_handle (c : Controller) {event : ControlEvent} (hstart : event.isStart = false)
    (htick : event.isTick = false) : (c.handle event).1.stage = c.stage := by
  cases event with
  | start now => cases hstart
  | tick now => cases htick
  | temperatures reading received => rfl
  | power reading received => rfl
  | shutdown => rw [handle, shutdown_eq]

/-- A controller that is not at its start fits its position, whatever has happened. -/
theorem placed_or_start (program : Program) (past : List ControlEvent) :
    ((new program).after past).stage = .start ∨ Placed ((new program).after past) := by
  refine after_invariant (P := fun c => c.stage = .start ∨ Placed c) (A := fun _ => True) ?_
    (new program) past (fun _ _ => trivial) (Or.inl rfl)
  intro c event _ hc
  rcases hc with hstart | hplaced
  · cases event with
    | start now => exact Or.inl rfl
    | tick now => exact Or.inr (placed_tick now (Or.inl hstart))
    | temperatures reading received | power reading received | shutdown =>
      exact Or.inl ((c.stage_handle rfl rfl).trans hstart)
  · cases event with
    | start now => exact Or.inl rfl
    | _ => exact Or.inr (placed_handle rfl hplaced)

/-- What is known of a controller in the middle of a step. -/
theorem inside_step (program : Program) (past : List ControlEvent)
    (h : ((new program).after past).stage.isStep = true) :
    ∃ step table, ((new program).after past).step? = some step ∧ step ∈ program.steps ∧
      ((new program).after past).stage = .ofKind step.kind ∧
      ((new program).after past).regulators = some table ∧
      ∀ channel, (table.get channel).MadeFor (step.phase channel) := by
  have hplaced : Placed ((new program).after past) := by
    apply (placed_or_start program past).resolve_left
    intro hstart
    rw [hstart] at h
    cases h
  obtain ⟨i, step, table, hi, hstep, hstage, htable, hmade⟩ := hplaced.inside h
  have hfound : ((new program).after past).step? = some step := by
    rw [step?, hi]
    exact hstep
  rw [after_program] at hstep
  exact ⟨step, table, hfound, List.mem_of_getElem? hstep, hstage, htable, hmade⟩

/-! ## One event -/

/-- What a controller keeps as long as it is in a step. -/
structure SameStep (c d : Controller) : Prop where
  stage : d.stage = c.stage
  entered : d.stepStartedAt = c.stepStartedAt
  step : d.step? = c.step?

theorem SameStep.refl (c : Controller) : SameStep c c := ⟨rfl, rfl, rfl⟩

theorem SameStep.trans {c d e : Controller} (h : SameStep c d) (hnext : SameStep d e) :
    SameStep c e :=
  ⟨hnext.stage.trans h.stage, hnext.entered.trans h.entered, hnext.step.trans h.step⟩

theorem sameStep_regulate (c : Controller) (now : Int) : SameStep c (c.regulate now).1.refreshed := by
  rcases c.regulate_cases now with heq | ⟨step, table, _, heq⟩
  · rw [heq]
    exact ⟨rfl, rfl, rfl⟩
  · rw [heq]
    exact ⟨rfl, rfl, rfl⟩

/-- What a tick makes of a controller that is in a step, and what it sends. -/
inductive TickedInStep (c : Controller) (now : Int) : Controller → List Command → Prop where
  | overran (late : c.overdue now = true) :
      TickedInStep c now { c.changedTo .failed now with stopped := true } c.offCommands
  | left (inTime : c.overdue now = false) (complete : c.StepOver now) :
      TickedInStep c now (c.changedTo .nextStep now) []
  | gaveUp (inTime : c.overdue now = false) (late : c.StepFailed now) :
      TickedInStep c now { c.changedTo .failed now with stopped := true } c.offCommands
  | regulated (inTime : c.overdue now = false) (goesOn : ¬ c.StepOver now)
      (holds : ¬ c.StepFailed now) :
      TickedInStep c now (c.regulate now).1.refreshed (c.regulate now).2

theorem tickedInStep {c : Controller} (now : Int) (h : c.stage.isStep = true) :
    TickedInStep c now (c.tick now).1 (c.tick now).2 := by
  have ht := c.ticked now
  generalize (c.tick now).1 = next, (c.tick now).2 = commands at ht
  cases ht with
  | overran _ _ late => exact .overran late
  | left _ inTime complete => exact .left inTime complete
  | gaveUp inTime late => exact .gaveUp inTime late
  | regulated _ inTime goesOn holds => exact .regulated inTime goesOn holds
  | ended stage =>
    rw [Stage.not_isTerminal_of_isStep h] at stage
    cases stage
  | begun stage | waited stage | warmed stage | lagged stage | heated stage | caughtUp stage
  | entered _ stage | finished stage =>
    rw [stage] at h
    cases h

/-- A tick after which the controller is still in a step has regulated. -/
theorem tick_in_step {c : Controller} {now : Int} (hbefore : c.stage.isStep = true)
    (hafter : (c.tick now).1.stage.isStep = true) :
    (c.tick now).1 = (c.regulate now).1.refreshed ∧ (c.tick now).2 = (c.regulate now).2 := by
  have ht := tickedInStep now hbefore
  generalize (c.tick now).1 = next, (c.tick now).2 = commands at ht hafter
  cases ht with
  | regulated => exact ⟨rfl, rfl⟩
  | overran | left | gaveUp => cases hafter

/-- An event after which the controller is still in a step has not led into another one. -/
theorem sameStep_handle {c : Controller} {event : ControlEvent} (hbefore : c.stage.isStep = true)
    (hafter : (c.handle event).1.stage.isStep = true) : SameStep c (c.handle event).1 := by
  cases event with
  | start now => cases hafter
  | tick now =>
    rw [handle, (tick_in_step hbefore hafter).1]
    exact c.sameStep_regulate now
  | temperatures reading received => exact ⟨rfl, rfl, rfl⟩
  | power reading received => exact ⟨rfl, rfl, rfl⟩
  | shutdown =>
    rw [handle, shutdown_eq]
    exact ⟨rfl, rfl, rfl⟩

/-- A controller as it enters a step. -/
structure NewIn (step : Step) (now : Int) (c : Controller) : Prop where
  current : c.step? = some step
  stage : c.stage = .ofKind step.kind
  entered : c.stepStartedAt = now
  regulators : c.regulators = some (.ofFn fun channel => .fresh (step.phase channel))
  stepPower : c.stepPower = .fill 0
  used : c.used = c.live

/-- A step is only entered by a tick that looks for the next step. -/
theorem entered_of_isStep {c : Controller} {event : ControlEvent} (hbefore : c.stage.isStep = false)
    (hafter : (c.handle event).1.stage.isStep = true) :
    ∃ now, event = .tick now ∧ c.stage = .nextStep ∧ ∃ step, NewIn step now (c.handle event).1 := by
  cases event with
  | start now => cases hafter
  | temperatures reading received | power reading received | shutdown =>
    rw [c.stage_handle rfl rfl, hbefore] at hafter
    cases hafter
  | tick now =>
    refine ⟨now, rfl, ?_⟩
    rw [handle] at hafter ⊢
    have ht := c.ticked now
    generalize (c.tick now).1 = next, (c.tick now).2 = commands at ht hafter
    cases ht with
    | entered step stage _ found => exact ⟨stage, step, found, rfl, rfl, rfl, rfl, rfl⟩
    | ended =>
      rw [hbefore] at hafter
      cases hafter
    | regulated stage =>
      rw [stage] at hbefore
      cases hbefore
    | waited stage | lagged stage | heated stage =>
      rw [refreshed, stage] at hafter
      cases hafter
    | begun | warmed | caughtUp | overran | finished | left | gaveUp => cases hafter

/-! ## A stay in a step -/

/-- A tick enters a step after the events `before`, and the controller is in a step after each of
the events `within` that follow. -/
structure Stay (c : Controller) (before : List ControlEvent) (entered : Int)
    (within : List ControlEvent) : Prop where
  ahead : (c.after before).stage = .nextStep
  stays : ∀ part, part <+: within →
    (c.after (before ++ .tick entered :: part)).stage.isStep = true

/-- A controller that is in a step has entered it by a tick. -/
theorem exists_stay {c : Controller} (hc : c.stage.isStep = false) {past : List ControlEvent}
    (h : (c.after past).stage.isStep = true) :
    ∃ before entered within, past = before ++ .tick entered :: within ∧
      Stay c before entered within := by
  induction past using List.reverseRecOn with
  | nil =>
    rw [after_nil, hc] at h
    cases h
  | append_singleton past event ih =>
    by_cases hpast : (c.after past).stage.isStep = true
    · obtain ⟨before, entered, within, rfl, hstay⟩ := ih hpast
      refine ⟨before, entered, within ++ [event], by simp, hstay.ahead, ?_⟩
      intro part hpart
      rcases List.prefix_concat_iff.mp hpart with rfl | hpart
      · simpa using h
      · exact hstay.stays part hpart
    · rw [after_concat] at h
      obtain ⟨now, rfl, hahead, _⟩ := entered_of_isStep (by simpa using hpast) h
      refine ⟨past, now, [], rfl, hahead, ?_⟩
      intro part hpart
      rw [List.prefix_nil.mp hpart, after_concat]
      exact h

namespace Stay

variable {c : Controller} {before within : List ControlEvent} {entered : Int}

/-- The events of a stay, but for the last. -/
theorem concat {event : ControlEvent} (h : Stay c before entered (within ++ [event])) :
    Stay c before entered within :=
  ⟨h.ahead, fun part hpart => h.stays part (hpart.trans (List.prefix_append within [event]))⟩

theorem entering (h : Stay c before entered within) :
    ∃ step, NewIn step entered (c.after (before ++ [.tick entered])) := by
  have hafter := h.stays [] List.nil_prefix
  rw [after_concat] at hafter ⊢
  have hbefore : (c.after before).stage.isStep = false := by rw [h.ahead]; rfl
  obtain ⟨now, heq, _, hnew⟩ := entered_of_isStep hbefore hafter
  cases heq
  exact hnew

/-- During a stay the controller is in the step that was entered. -/
theorem sameStep (h : Stay c before entered within) :
    SameStep (c.after (before ++ [.tick entered])) (c.after (before ++ .tick entered :: within)) := by
  induction within using List.reverseRecOn with
  | nil => exact .refl _
  | append_singleton within event ih =>
    have hbefore := h.concat.stays within List.prefix_rfl
    have hafter := h.stays (within ++ [event]) List.prefix_rfl
    rw [← List.cons_append, ← List.append_assoc, after_concat _ _ event] at hafter ⊢
    exact (ih h.concat).trans (sameStep_handle hbefore hafter)

/-- The second at which the step was entered. -/
theorem stepStartedAt (h : Stay c before entered within) :
    (c.after (before ++ .tick entered :: within)).stepStartedAt = entered := by
  obtain ⟨_, hnew⟩ := h.entering
  exact h.sameStep.entered.trans hnew.entered

/-- Until the next tick the regulators are as they were made for the step. -/
theorem regulators_fresh (h : Stay c before entered within)
    (hquiet : ∀ event ∈ within, event.isTick = false) {step : Step}
    (hstep : (c.after (before ++ .tick entered :: within)).step? = some step) :
    (c.after (before ++ .tick entered :: within)).regulators =
      some (.ofFn fun channel => .fresh (step.phase channel)) := by
  obtain ⟨first, hnew⟩ := h.entering
  obtain rfl : first = step :=
    Option.some.inj ((hnew.current.symm.trans h.sameStep.step.symm).trans hstep)
  clear hstep
  induction within using List.reverseRecOn with
  | nil => exact hnew.regulators
  | append_singleton within event ih =>
    have hkept := ih h.concat fun e he => hquiet e (by simp [he])
    have htick := hquiet event (by simp)
    have hafter := h.stays (within ++ [event]) List.prefix_rfl
    rw [← List.cons_append, ← List.append_assoc, after_concat] at hafter ⊢
    cases event with
    | start now => cases hafter
    | tick now => cases htick
    | temperatures reading received => exact hkept
    | power reading received => exact hkept
    | shutdown =>
      rw [handle, shutdown_eq]
      exact hkept

end Stay

/-- The last tick has looked for the next step. -/
def JustEntered (c : Controller) (past : List ControlEvent) : Prop :=
  ∃ before entered within, past = before ++ .tick entered :: within ∧
    (c.after before).stage = .nextStep ∧ ∀ event ∈ within, event.isTick = false

/-- Without a tick no step is entered. -/
theorem isStep_of_quiet {c : Controller} {events : List ControlEvent}
    (hquiet : ∀ event ∈ events, event.isTick = false) (h : (c.after events).stage.isStep = true) :
    c.stage.isStep = true := by
  induction events using List.reverseRecOn with
  | nil => exact h
  | append_singleton events event ih =>
    apply ih fun e he => hquiet e (by simp [he])
    by_contra hbefore
    rw [after_concat] at h
    obtain ⟨now, rfl, _⟩ := entered_of_isStep (by simpa using hbefore) h
    cases hquiet (.tick now) (by simp)

/-- A controller that has just entered the step it is in has new regulators. -/
theorem JustEntered.regulators {c : Controller} {past : List ControlEvent} (h : JustEntered c past)
    (hstage : (c.after past).stage.isStep = true) {step : Step}
    (hstep : (c.after past).step? = some step) :
    (c.after past).regulators = some (.ofFn fun channel => .fresh (step.phase channel)) := by
  obtain ⟨before, entered, within, rfl, hahead, hquiet⟩ := h
  have hstay : Stay c before entered within := by
    refine ⟨hahead, ?_⟩
    rintro part ⟨rest, rfl⟩
    rw [← List.cons_append, ← List.append_assoc, after_append] at hstage
    exact isStep_of_quiet (fun event hevent => hquiet event (by simp [hevent])) hstage
  exact hstay.regulators_fresh hquiet hstep

end Controller
end DryKiln
