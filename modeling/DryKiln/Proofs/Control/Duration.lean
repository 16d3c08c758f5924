-- How long a program goes on whose steps all have a runtime. Once the preheating is over, each tick
-- that comes a second or more after the one before leaves fewer ticks to come, whatever the units
-- report; so the run is over after as many ticks as its runtimes allow. That is so as long as the time
-- since a step was entered fits into a word: after a longer one the step would begin anew.
import DryKiln.Proofs.Control.Label
import DryKiln.Proofs.Control.Limits
import Mathlib.Algebra.GroupWithZero.Nat

namespace DryKiln

/-! ## The ticks that a program may take -/

/-- The step has a runtime, and one that a signed word can hold. -/
def Step.IsTimed (step : Step) : Prop :=
  ∃ limit, step.runtime = some limit ∧ limit.toNat < 2 ^ 63

/-- Every step has a runtime. -/
def Program.IsTimed (program : Program) : Prop := ∀ step ∈ program.steps, step.IsTimed

/-- The seconds of the runtime. -/
def Step.seconds (step : Step) : Nat := (step.runtime.getD 0).toNat

/-- The ticks that a step may take: one that enters it, and one for each second of its runtime, the
last of which leaves it. It takes a tick to leave a step without time as well. -/
def Step.ticks (step : Step) : Nat := max 1 step.seconds + 1

/-- The ticks that several steps may take, with the one that finds that there is no other. -/
def ticksOf (steps : List Step) : Nat := (steps.map Step.ticks).sum + 1

theorem ticksOf_cons (step : Step) (rest : List Step) :
    ticksOf (step :: rest) = step.ticks + ticksOf rest := by
  simp only [ticksOf, List.map_cons, List.sum_cons]
  omega

theorem ticksOf_pos (steps : List Step) : 0 < ticksOf steps := Nat.succ_pos _

theorem ticksOf_drop {steps : List Step} {i : Nat} {step : Step} (h : steps[i]? = some step) :
    ticksOf (steps.drop i) = step.ticks + ticksOf (steps.drop (i + 1)) := by
  obtain ⟨hi, rfl⟩ := List.getElem?_eq_some_iff.mp h
  rw [List.drop_eq_getElem_cons hi, ticksOf_cons]

/-- The stages that come once the preheating is over. -/
def Stage.isPastPreHeat : Stage → Bool
  | .nextStep | .heatUp | .acclimate | .coolDown | .idle | .failed => true
  | _ => false

theorem Stage.isPastPreHeat_of_isStep {stage : Stage} (h : stage.isStep = true) :
    stage.isPastPreHeat = true := by
  cases stage <;> first | rfl | cases h

namespace Controller

/-- The seconds of the runtime of the current step. -/
def stepSeconds (c : Controller) : Nat := c.step?.elim 0 Step.seconds

/-- The ticks that a run may still take, if the last one came at this second. Within a step that is
one tick for each second of its runtime that is left, but one at least. -/
def ticksLeft (c : Controller) (last : Int) : Nat :=
  if c.stage.isTerminal then 0
  else (if c.stage.isStep then (c.stepSeconds - 1 - (last - c.stepStartedAt)).toNat + 1 else 0) +
    ticksOf (c.program.steps.drop c.upcoming)

theorem ticksLeft_of_isTerminal {c : Controller} (last : Int) (h : c.stage.isTerminal = true) :
    c.ticksLeft last = 0 := by
  rw [ticksLeft, if_pos h]

theorem ticksLeft_of_isStep {c : Controller} (last : Int) (h : c.stage.isStep = true) :
    c.ticksLeft last = (c.stepSeconds - 1 - (last - c.stepStartedAt)).toNat + 1 +
      ticksOf (c.program.steps.drop c.upcoming) := by
  rw [ticksLeft, Stage.not_isTerminal_of_isStep h, if_neg (by simp), if_pos h]

theorem ticksLeft_of_nextStep {c : Controller} (last : Int) (h : c.stage = .nextStep) :
    c.ticksLeft last = ticksOf (c.program.steps.drop c.upcoming) := by
  simp [ticksLeft, h, Stage.isTerminal, Stage.isStep]

/-- As long as the run is not over, there are ticks to come. -/
theorem ticksLeft_pos {c : Controller} (last : Int) (h : c.stage.isTerminal = false) :
    0 < c.ticksLeft last := by
  rw [ticksLeft, h]
  exact Nat.add_pos_right _ (ticksOf_pos _)

/-- Nothing else matters to the ticks that are left. -/
theorem ticksLeft_congr {c d : Controller} (last : Int) (hp : d.program = c.program)
    (hs : d.stage = c.stage) (hi : d.position = c.position)
    (he : d.stepStartedAt = c.stepStartedAt) : d.ticksLeft last = c.ticksLeft last := by
  have hseconds : d.stepSeconds = c.stepSeconds := by
    rw [stepSeconds, stepSeconds, step?, step?, hi, hp]
  simp only [ticksLeft, hs, hseconds, he, hp, upcoming_congr hi]

/-! ## One tick -/

theorem elapsed_iff_seconds {c : Controller} {step : Step} (h : step.IsTimed) (now : Int) :
    step.runtime.any (c.elapsed now) = true ↔
      (step.seconds : Int) ≤ secondsSince c.stepStartedAt now := by
  obtain ⟨limit, hruntime, hlimit⟩ := h
  rw [Step.seconds, hruntime, Option.any_some, elapsed, signedSeconds_eq, if_pos hlimit]
  exact decide_eq_true_iff

theorem mem_of_step? {c : Controller} {step : Step} (h : c.step? = some step) :
    step ∈ c.program.steps := by
  obtain ⟨i, _, hstep⟩ := Option.bind_eq_some_iff.mp h
  exact List.mem_of_getElem? hstep

/-- A step in which the controller stays has not had its time. -/
theorem lt_stepSeconds {c : Controller} {now : Int} (htimed : c.program.IsTimed)
    (stage : c.stage.isStep = true) (goesOn : ¬ c.StepOver now) (holds : ¬ c.StepFailed now) :
    secondsSince c.stepStartedAt now < c.stepSeconds := by
  cases hstep : c.step? with
  | none =>
    -- only a rest without settings would be stayed in, and it has no time
    rw [stepSeconds, hstep]
    cases hstage : c.stage with
    | acclimate =>
      have hzero : signedSeconds 0 = 0 := rfl
      simpa [StepOver, hstage, hstep, elapsed, hzero] using goesOn
    | heatUp | coolDown => simp [StepOver, hstage, hstep] at goesOn
    | _ => simp [hstage, Stage.isStep] at stage
  | some step =>
    have hstepTimed := htimed step (mem_of_step? hstep)
    have hearly : ¬ step.runtime.any (c.elapsed now) = true := by
      cases hstage : c.stage with
      | heatUp =>
        have hcold : ¬ step.target.getD 0 ≤ c.used.temperatures.reading.material := by
          simpa [StepOver, hstage, hstep] using goesOn
        exact fun hlate => holds ⟨hstage, step, hstep, hcold, hlate⟩
      | acclimate =>
        obtain ⟨limit, hlimit, _⟩ := hstepTimed
        simpa [StepOver, hstage, hstep, hlimit] using goesOn
      | coolDown =>
        intro hlate
        refine goesOn ?_
        rw [StepOver, hstage]
        rintro other hother
        cases hstep.symm.trans hother
        exact .inl hlate
      | _ => simp [hstage, Stage.isStep] at stage
    rw [elapsed_iff_seconds hstepTimed, Int.not_le] at hearly
    rw [stepSeconds, hstep]
    exact hearly

/-- The tick that enters a step is one of those that the step may take. -/
theorem ticksLeft_of_entered {c d : Controller} {step : Step} {now : Int} (last : Int)
    (stage : c.stage = .nextStep) (found : c.program.steps[c.upcoming]? = some step)
    (hp : d.program = c.program) (hs : d.stage.isStep = true) (hi : d.position = some c.upcoming)
    (he : d.stepStartedAt = now) : d.ticksLeft now ≤ c.ticksLeft last - 1 := by
  have hseconds : d.stepSeconds = step.seconds := by
    rw [stepSeconds, step?, hi, hp, Option.bind_some, found, Option.elim_some]
  rw [ticksLeft_of_nextStep last stage, ticksOf_drop found, ticksLeft_of_isStep now hs, hp,
    upcoming_of_position hi, hseconds, he, Step.ticks]
  omega

/-- A tick that stays in a step takes a second or more of its time. -/
theorem ticksLeft_of_regulated {c : Controller} {last now : Int} (htimed : c.program.IsTimed)
    (hnow : last + 1 ≤ now) (hfits : FitsWord (now - c.stepStartedAt))
    (stage : c.stage.isStep = true) (goesOn : ¬ c.StepOver now) (holds : ¬ c.StepFailed now) :
    (c.regulate now).1.refreshed.ticksLeft now ≤ c.ticksLeft last - 1 := by
  have hlt := lt_stepSeconds htimed stage goesOn holds
  rw [hfits.secondsSince] at hlt
  obtain ⟨hstage, hsince, hstep⟩ := c.sameStep_regulate now
  have hstay : (c.regulate now).1.refreshed.stage.isStep = true := by rw [hstage, stage]
  have hprogram : (c.regulate now).1.refreshed.program = c.program := c.regulate_program now
  have hupcoming : (c.regulate now).1.refreshed.upcoming = c.upcoming :=
    upcoming_congr (c.regulate_position now)
  have hseconds : (c.regulate now).1.refreshed.stepSeconds = c.stepSeconds := by
    rw [stepSeconds, hstep, stepSeconds]
  rw [ticksLeft_of_isStep last stage, ticksLeft_of_isStep now hstay, hprogram, hupcoming,
    hseconds, hsince]
  omega

/-- A tick that comes a second or more after the one before leaves fewer ticks to come. -/
theorem ticksLeft_tick_le {c : Controller} {last now : Int} (htimed : c.program.IsTimed)
    (hpast : c.stage.isPastPreHeat = true) (hnow : last + 1 ≤ now)
    (hfits : FitsWord (now - c.stepStartedAt)) :
    (c.tick now).1.ticksLeft now ≤ c.ticksLeft last - 1 ∧
      (c.tick now).1.stage.isPastPreHeat = true := by
  have ht := c.ticked now
  generalize (c.tick now).1 = next, (c.tick now).2 = commands at ht
  cases ht with
  | ended stage => exact ⟨by simp [ticksLeft_of_isTerminal _ stage], hpast⟩
  | begun stage | waited stage | warmed stage | lagged stage | heated stage | caughtUp stage =>
    rw [stage] at hpast
    cases hpast
  | overran | gaveUp | finished => exact ⟨Nat.zero_le _, rfl⟩
  | entered step stage _ found =>
    have hstep := Stage.isStep_ofKind step.kind
    exact ⟨ticksLeft_of_entered last stage found rfl hstep rfl rfl,
      Stage.isPastPreHeat_of_isStep hstep⟩
  | left stage =>
    have hnext : (c.changedTo .nextStep now).ticksLeft now =
        ticksOf (c.program.steps.drop c.upcoming) := ticksLeft_of_nextStep now rfl
    refine ⟨?_, rfl⟩
    rw [ticksLeft_of_isStep last stage, hnext]
    omega
  | regulated stage _ goesOn holds =>
    have hstay : (c.regulate now).1.refreshed.stage = c.stage := c.regulate_stage now
    exact ⟨ticksLeft_of_regulated htimed hnow hfits stage goesOn holds,
      hstay ▸ Stage.isPastPreHeat_of_isStep stage⟩

/-- Between two ticks there are as many ticks to come as before. -/
theorem ticksLeft_handle {c : Controller} {event : ControlEvent} (last : Int)
    (hstart : event.isStart = false) (htick : event.tick? = none) :
    (c.handle event).1.ticksLeft last = c.ticksLeft last ∧
      (c.handle event).1.stage = c.stage ∧
      (c.handle event).1.stepStartedAt = c.stepStartedAt := by
  cases event with
  | start now => cases hstart
  | tick now => cases htick
  | temperatures reading received => exact ⟨rfl, rfl, rfl⟩
  | power reading received => exact ⟨rfl, rfl, rfl⟩
  | shutdown =>
    simp only [handle, shutdown_eq]
    exact ⟨ticksLeft_congr last rfl rfl rfl rfl, trivial, trivial⟩

/-- A tick is close to the second of the last change that it leaves, if it was to the one before. -/
theorem closeTogether_tick {c : Controller} {now : Int} {later : List Int}
    (h : CloseTogether (c.stepStartedAt :: now :: later)) :
    CloseTogether ((c.tick now).1.stepStartedAt :: later) := by
  apply h.subset
  rcases c.stepStartedAt_handle (.tick now) with hsame | ⟨second, htick, hsecond⟩
  · rw [handle] at hsame
    simp [hsame]
  · obtain ⟨rfl⟩ : now = second := by simpa using htick
    rw [handle] at hsecond
    simp [hsecond]

/-! ## A whole run -/

theorem after_cons (c : Controller) (event : ControlEvent) (rest : List ControlEvent) :
    c.after (event :: rest) = (c.handle event).1.after rest := after_append c [event] rest

/-- A run is over when all ticks have come that were to come. -/
theorem isTerminal_after {c : Controller} {events : List ControlEvent} {last : Int}
    (htimed : c.program.IsTimed) (hpast : c.stage.isPastPreHeat = true)
    (hevents : ∀ event ∈ events, event.isStart = false)
    (hclock : (last :: ticksIn events).IsChain fun before now => before + 1 ≤ now)
    (hclose : CloseTogether (c.stepStartedAt :: ticksIn events))
    (hcount : c.ticksLeft last ≤ (ticksIn events).length) :
    (c.after events).stage.isTerminal = true := by
  induction events generalizing c last with
  | nil =>
    by_contra hactive
    have hpos := ticksLeft_pos last (by simpa using hactive)
    exact absurd hcount (Nat.not_le.mpr hpos)
  | cons event rest ih =>
    obtain ⟨hstart, hrest⟩ := List.forall_mem_cons.mp hevents
    have hprogram : (c.handle event).1.program.IsTimed := by rwa [handle_program]
    rw [after_cons]
    cases htick : event.tick? with
    | none =>
      obtain ⟨hleft, hstage, hsince⟩ := ticksLeft_handle (c := c) last hstart htick
      rw [ticksIn, List.filterMap_cons_none htick] at hclock hclose hcount
      exact ih hprogram (hstage ▸ hpast) hrest hclock (hsince ▸ hclose) (hleft ▸ hcount)
    | some now =>
      obtain rfl : event = .tick now := by cases event <;> cases htick; rfl
      rw [ticksIn, List.filterMap_cons_some htick] at hclock hclose hcount
      obtain ⟨hnow, hlater⟩ := List.isChain_cons_cons.mp hclock
      obtain ⟨hless, hpast⟩ :=
        ticksLeft_tick_le htimed hpast hnow (hclose.fits (by simp) (by simp))
      refine ih hprogram hpast hrest hlater (closeTogether_tick hclose) (hless.trans ?_)
      exact Nat.sub_le_of_le_add hcount

/-! ## The law -/

/-- When a tick ends the preheating, no more ticks are left than the steps may take. -/
theorem left_preHeat {c : Controller} {now : Int} (hplaced : Placed c) (hpre : c.stage = .preHeat)
    (hleft : (c.tick now).1.stage ≠ .preHeat) :
    (c.tick now).1.stage.isPastPreHeat = true ∧
      (c.tick now).1.ticksLeft now ≤ ticksOf c.program.steps ∧
      (c.tick now).1.stepStartedAt = now := by
  have ht := c.ticked now
  generalize (c.tick now).1 = next, (c.tick now).2 = commands at ht hleft
  cases ht with
  | overran => exact ⟨rfl, Nat.zero_le _, rfl⟩
  | caughtUp =>
    have hfirst : (c.changedTo .nextStep now).upcoming = 0 := by
      simp [upcoming, changedTo, refreshed, hplaced.before (.inr hpre)]
    refine ⟨rfl, Nat.le_of_eq ?_, rfl⟩
    rw [ticksLeft_of_nextStep now (c.changedTo_stage .nextStep now), hfirst, List.drop_zero]
    rfl
  | lagged | heated => exact absurd hpre hleft
  | ended stage | begun stage | waited stage | warmed stage | entered _ stage | finished stage
  | left stage | regulated stage =>
    rw [hpre] at stage
    cases stage
  | gaveUp _ late => cases hpre.symm.trans late.1

/-- One step of each kind, with two seconds, none and one second of time. -/
def timedSteps : Program where
  name := "oak"
  steps := [⟨"up", .heating, some 60, some 2, .fill (some (.constant 100))⟩,
    ⟨"rest", .acclimate, some 60, some 0, .fill none⟩,
    ⟨"down", .cooling, none, some 1, .fill (some (.constant 0))⟩]
  maxRuntime := none

/-- A rest of five seconds. -/
def shortRest : Program :=
  ⟨"oak", [⟨"rest", .acclimate, some 40, some 5, .fill (some .off)⟩], none⟩

end Controller
end DryKiln
