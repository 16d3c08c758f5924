-- A restart looks at nothing that the run before it has left behind, except for the live readings.
-- What is left is overwritten before it is looked at: the position and the readings in use by the
-- first tick, the regulators and the percentages by the tick that enters a step.
import DryKiln.Proofs.Control.History

namespace DryKiln
namespace Controller

/-! ## What is left of a step -/

/-- A controller without the regulators and the percentages of a step that is over. -/
def cleared (c : Controller) : Controller :=
  if c.stage.isStep then c else { c with regulators := none, stepPower := .fill 0 }

theorem cleared_of_isStep {c : Controller} (h : c.stage.isStep = true) : c.cleared = c := if_pos h

theorem cleared_of_not_isStep {c : Controller} (h : c.stage.isStep = false) :
    c.cleared = { c with regulators := none, stepPower := .fill 0 } := by
  unfold cleared
  rw [h]
  rfl

@[simp] theorem cleared_stage (c : Controller) : c.cleared.stage = c.stage := by
  unfold cleared
  split <;> rfl

@[simp] theorem cleared_position (c : Controller) : c.cleared.position = c.position := by
  unfold cleared
  split <;> rfl

@[simp] theorem cleared_status (c : Controller) : c.cleared.status = c.status := by
  unfold cleared
  split <;> rfl

/-- Outside a step regulators and percentages make no difference. -/
theorem cleared_eq {c d : Controller} (hstage : c.stage.isStep = false)
    (h : d = { c with regulators := d.regulators, stepPower := d.stepPower }) :
    d.cleared = c.cleared := by
  have hd : d.stage.isStep = false := by
    rw [h]
    exact hstage
  rw [cleared_of_not_isStep hstage, cleared_of_not_isStep hd, h]

/-- Outside a step a tick does not look at regulators and percentages, and if it enters a step, it
makes them anew. -/
theorem Ticked.without_work {c d next : Controller} {now : Int} {sent : List Command}
    (h : Ticked c now next sent) (hstage : c.stage.isStep = false)
    (hd : d = { c with regulators := none, stepPower := .fill 0 }) :
    ∃ other, Ticked d now other sent ∧ other.cleared = next.cleared := by
  subst hd
  cases h with
  | ended stage => exact ⟨_, .ended stage, cleared_eq hstage rfl⟩
  | begun stage => exact ⟨_, .begun stage, cleared_eq rfl rfl⟩
  | overran started active late => exact ⟨_, .overran started active late, cleared_eq rfl rfl⟩
  | waited stage inTime deaf => exact ⟨_, .waited stage inTime deaf, cleared_eq hstage rfl⟩
  | warmed stage inTime heard => exact ⟨_, .warmed stage inTime heard, cleared_eq rfl rfl⟩
  | lagged stage inTime cold heating =>
    exact ⟨_, .lagged stage inTime cold heating, cleared_eq hstage rfl⟩
  | heated stage inTime cold idle =>
    exact ⟨_, .heated stage inTime cold idle, cleared_eq hstage rfl⟩
  | caughtUp stage inTime warm => exact ⟨_, .caughtUp stage inTime warm, cleared_eq rfl rfl⟩
  | entered step stage inTime next => exact ⟨_, .entered step stage inTime next, rfl⟩
  | finished stage inTime past => exact ⟨_, .finished stage inTime past, cleared_eq rfl rfl⟩
  | left stage | regulated stage =>
    rw [hstage] at stage
    cases stage
  | gaveUp inTime late =>
    rw [late.1] at hstage
    cases hstage

theorem handle_cleared (c : Controller) (event : ControlEvent) :
    (c.cleared.handle event).1.cleared = (c.handle event).1.cleared ∧
      (c.cleared.handle event).2 = (c.handle event).2 := by
  by_cases hstep : c.stage.isStep = true
  · rw [cleared_of_isStep hstep]
    exact ⟨rfl, rfl⟩
  · have hstage : c.stage.isStep = false := by simpa using hstep
    have hd := cleared_of_not_isStep hstage
    cases event with
    | start now =>
      rw [hd]
      exact ⟨cleared_eq rfl rfl, rfl⟩
    | tick now =>
      obtain ⟨other, hother, hsame⟩ := (c.ticked now).without_work hstage hd
      rw [handle, handle, hother.tick_eq]
      exact ⟨hsame, rfl⟩
    | temperatures reading received | power reading received =>
      rw [hd]
      exact ⟨cleared_eq hstage rfl, rfl⟩
    | shutdown =>
      rw [hd, handle, handle, shutdown_eq, shutdown_eq]
      exact ⟨cleared_eq hstage rfl, rfl⟩

/-- What is seen of an event is seen of the controller that is cleared behind it. -/
theorem view_eq (c : Controller) (event : ControlEvent) :
    c.view event = ⟨(c.handle event).2, (c.handle event).1.cleared.stage,
      (c.handle event).1.cleared.position, (c.handle event).1.cleared.status⟩ := by
  rw [cleared_stage, cleared_position, cleared_status]
  rfl

/-- Controllers that are the same when they are cleared go on in the same way. -/
theorem same_of_cleared {c d : Controller} (h : d.cleared = c.cleared) (event : ControlEvent) :
    (d.handle event).1.cleared = (c.handle event).1.cleared ∧ d.view event = c.view event := by
  obtain ⟨hc, hcSent⟩ := c.handle_cleared event
  obtain ⟨hd, hdSent⟩ := d.handle_cleared event
  rw [h] at hd hdSent
  have hnext : (d.handle event).1.cleared = (c.handle event).1.cleared := hd.symm.trans hc
  refine ⟨hnext, ?_⟩
  rw [view_eq, view_eq, hnext, ← hcSent, ← hdSent]

theorem views_of_cleared {c d : Controller} (h : d.cleared = c.cleared)
    (events : List ControlEvent) : d.views events = c.views events := by
  induction events generalizing c d with
  | nil => rfl
  | cons event events ih =>
    obtain ⟨hnext, hview⟩ := same_of_cleared h event
    rw [views, views, hview, ih hnext]

/-! ## What is left of a run -/

/-- A controller without anything of the run before, apart from the live readings. -/
def forgetful (c : Controller) : Controller :=
  { c with position := none, used := .nothing, regulators := none, stepPower := .fill 0 }

/-- Two controllers that have been started and have the same ahead of them: either there has been no
tick since the start, or they differ in nothing that will be looked at. -/
inductive SameAhead (c d : Controller) : Prop where
  | untouched (first : c.stage = .start) (second : d.stage = .start)
      (same : d.forgetful = c.forgetful)
  | underWay (same : d.cleared = c.cleared)

/-- What has been forgotten makes no difference before the first tick. -/
theorem handle_forgetful (c : Controller) {event : ControlEvent} (h : event.isTick = false) :
    (c.forgetful.handle event).1 = (c.handle event).1.forgetful ∧
      (c.forgetful.handle event).2 = (c.handle event).2 := by
  cases event with
  | start now | temperatures reading received | power reading received => exact ⟨rfl, rfl⟩
  | tick now => cases h
  | shutdown =>
    rw [handle, handle, shutdown_eq, shutdown_eq]
    exact ⟨rfl, rfl⟩

/-- The first tick after a start forgets the rest. -/
theorem tick_forgetful {c d : Controller} (now : Int) (hc : c.stage = .start) (hd : d.stage = .start)
    (h : d.forgetful = c.forgetful) :
    (d.tick now).1.cleared = (c.tick now).1.cleared ∧ d.view (.tick now) = c.view (.tick now) := by
  have hforgets : ∀ e : Controller, e.stage = .start → (e.tick now).2 = [] ∧
      (e.tick now).1.cleared = { e.forgetful.changedTo .waiting now with position := none } := by
    intro e he
    rw [tick_of_start now he]
    exact ⟨rfl, rfl⟩
  obtain ⟨hcSent, hcNext⟩ := hforgets c hc
  obtain ⟨hdSent, hdNext⟩ := hforgets d hd
  have hnext : (d.tick now).1.cleared = (c.tick now).1.cleared := by rw [hcNext, hdNext, h]
  refine ⟨hnext, ?_⟩
  rw [view_eq, view_eq, handle, handle, hnext, hcSent, hdSent]

/-- An event that is not a tick leaves a controller at its start. -/
theorem stage_of_untouched {c : Controller} {event : ControlEvent} (h : event.isTick = false)
    (hc : c.stage = .start) : (c.handle event).1.stage = .start := by
  cases event with
  | start now => rfl
  | tick now => cases h
  | temperatures reading received | power reading received => exact hc
  | shutdown =>
    rw [handle, shutdown_eq]
    exact hc

/-- Controllers that have the same ahead of them do the same, and still have the same ahead of them
then; from the next tick on they differ in nothing that is seen. -/
theorem SameAhead.handle {c d : Controller} (h : SameAhead c d) (event : ControlEvent) :
    SameAhead (c.handle event).1 (d.handle event).1 ∧
      (d.view event).deed = (c.view event).deed ∧
      (event.isTick = true → (d.handle event).1.cleared = (c.handle event).1.cleared ∧
        d.view event = c.view event) := by
  cases h with
  | underWay same =>
    have hsame := same_of_cleared same event
    exact ⟨.underWay hsame.1, congrArg View.deed hsame.2, fun _ => hsame⟩
  | untouched first second same =>
    by_cases htick : event.isTick = true
    · cases event with
      | tick now =>
        have hsame := tick_forgetful now first second same
        exact ⟨.underWay hsame.1, congrArg View.deed hsame.2, fun _ => hsame⟩
      | _ => cases htick
    · have hother : event.isTick = false := by simpa using htick
      obtain ⟨hcNext, hcSent⟩ := c.handle_forgetful hother
      obtain ⟨hdNext, hdSent⟩ := d.handle_forgetful hother
      rw [same] at hdNext hdSent
      have hc := stage_of_untouched hother first
      have hd := stage_of_untouched hother second
      refine ⟨.untouched hc hd (hdNext.symm.trans hcNext), ?_, fun h => absurd h htick⟩
      simp only [View.deed, view, hc, hd, ← hcSent, ← hdSent]

theorem SameAhead.after {c d : Controller} (h : SameAhead c d) (events : List ControlEvent) :
    SameAhead (c.after events) (d.after events) := by
  induction events using List.reverseRecOn with
  | nil => exact h
  | append_singleton events event ih =>
    rw [after_concat, after_concat]
    exact (ih.handle event).1

theorem SameAhead.deeds {c d : Controller} (h : SameAhead c d) (events : List ControlEvent) :
    (d.views events).map View.deed = (c.views events).map View.deed := by
  induction events generalizing c d with
  | nil => rfl
  | cons event events ih =>
    obtain ⟨hnext, hdeed, -⟩ := h.handle event
    rw [views, views, List.map_cons, List.map_cons, hdeed, ih hnext]

/-! ## The law -/

/-- Whatever has become of a run, when its controller is started again, it sends the same commands
and goes through the same stages as a new controller of the program that has the same live
readings. From the first tick after the start on the position, the name of the step and all else
that is shown are the same, too. -/
theorem restart_forgets (program : Program) (past : List ControlEvent) (now : Int) :
    let used := (new program).after past
    let fresh := { new program with live := used.live }
    (∀ events, (used.views (.start now :: events)).map View.deed =
      (fresh.views (.start now :: events)).map View.deed) ∧
    ∀ early first late,
      (used.after (.start now :: early)).views (.tick first :: late) =
        (fresh.after (.start now :: early)).views (.tick first :: late) := by
  intro used fresh
  have hprogram : fresh.program = used.program := (after_program (new program) past).symm
  have hstart : SameAhead (fresh.start now).1 (used.start now).1 := by
    apply SameAhead.untouched
    · rfl
    · rfl
    · simp only [start, enter, forgetful, hprogram, fresh]
  refine ⟨fun events => ?_, fun early first late => ?_⟩
  · exact congrArg (_ :: ·) (hstart.deeds events)
  · obtain ⟨-, -, hseen⟩ := (hstart.after early).handle (.tick first)
    obtain ⟨hcleared, hview⟩ := hseen rfl
    exact congrArg₂ List.cons hview (views_of_cleared hcleared late)

end Controller
end DryKiln
