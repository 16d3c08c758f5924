-- What one tick of a controller does. `Ticked` lists the outcomes, each with the condition under
-- which it comes about, so that what a tick keeps and what it sends is read off a list of cases.
import DryKiln.Control.Controller

namespace DryKiln

/-- The stages in which a step is carried out. -/
def Stage.isStep : Stage → Bool
  | .heatUp | .acclimate | .coolDown => true
  | _ => false

@[simp] theorem Stage.isStep_ofKind (kind : StepKind) : (ofKind kind).isStep = true := by
  cases kind <;> rfl

@[simp] theorem Stage.isTerminal_ofKind (kind : StepKind) : (ofKind kind).isTerminal = false := by
  cases kind <;> rfl

theorem Stage.not_isTerminal_of_isStep {stage : Stage} (h : stage.isStep = true) :
    stage.isTerminal = false := by
  cases stage <;> simp_all [isStep, isTerminal]

/-- The stages between the first readings after a start and the end of the program. -/
def Stage.isUnderWay : Stage → Bool
  | .preHeat | .nextStep | .heatUp | .acclimate | .coolDown => true
  | _ => false

theorem Stage.isUnderWay_of_isStep {stage : Stage} (h : stage.isStep = true) :
    stage.isUnderWay = true := by
  cases stage <;> first | rfl | cases h

/-- One command for each actuator. -/
def PerChannel.commands (percents : PerChannel UInt8) : List Command :=
  Channel.all.map fun channel => ⟨channel, percents.get channel⟩

theorem PerChannel.commands_ne_nil (percents : PerChannel UInt8) : percents.commands ≠ [] := by
  simp [commands, Channel.all]

/-- The commands that turn every actuator off. -/
def allOff : List Command := (PerChannel.fill 0).commands

namespace Controller

/-- The number of the step that comes next: as many steps have been begun. -/
def upcoming (c : Controller) : Nat :=
  match c.position with
  | none => 0
  | some i => i + 1

/-- Both units have been read since the start. -/
def HeardOfBoth (c : Controller) : Prop :=
  c.startedAt ≤ c.live.power.updated ∧ c.startedAt ≤ c.live.temperatures.updated

/-- The oven is colder than the material. -/
def OvenLags (c : Controller) : Prop :=
  c.live.temperatures.reading.oven < c.live.temperatures.reading.material

/-- The step that is being carried out is over. -/
def StepOver (c : Controller) (now : Int) : Prop :=
  match c.stage with
  | .heatUp => ∀ step, c.step? = some step →
      step.target.getD 0 ≤ c.used.temperatures.reading.material
  | .acclimate => c.elapsed now ((c.step?.bind Step.runtime).getD 0) = true
  | .coolDown => ∀ step, c.step? = some step → step.runtime.any (c.elapsed now) = true ∨
      step.target.any (c.used.temperatures.reading.material ≤ ·) = true
  | _ => False

/-- The time for heating is over, and the material does not have the target temperature. -/
def StepFailed (c : Controller) (now : Int) : Prop :=
  c.stage = .heatUp ∧ ∃ step, c.step? = some step ∧
    ¬ step.target.getD 0 ≤ c.used.temperatures.reading.material ∧
    step.runtime.any (c.elapsed now) = true

/-- The live readings come into use. -/
def refreshed (c : Controller) : Controller := { c with used := c.live }

/-- A change of stage at the end of a tick. -/
def changedTo (c : Controller) (stage : Stage) (now : Int) : Controller :=
  { c.refreshed with stage, stepStartedAt := now }

@[simp] theorem changedTo_stage (c : Controller) (stage : Stage) (now : Int) :
    (c.changedTo stage now).stage = stage := rfl

/-- What is sent to turn the actuators off, unless that has been done. -/
def offCommands (c : Controller) : List Command := if c.stopped then [] else allOff

theorem shutdown_eq (c : Controller) :
    c.shutdown = ({ c with stopped := true }, c.offCommands) := by
  obtain ⟨_, _, _, stopped, _, _, _, _, _, _⟩ := c
  cases stopped <;> rfl

/-! ## The regulation of one tick -/

/-- The three regulators after one update each, and the new percentages. -/
def updates (c : Controller) (step : Step) (table : PerChannel Regulator) (now : Int) :
    PerChannel (Regulator × UInt8) :=
  .ofFn fun channel => (table.get channel).update
    (if channel = .heater then step.target.getD 0 else 0) c.used.temperatures.reading.oven
    c.used.temperatures.reading.material (c.stepPower.get channel) now

/-- There is something to regulate by, and the reading in use is no newer than the live one. -/
def Regulates (c : Controller) (step : Step) (table : PerChannel Regulator) : Prop :=
  c.used.temperatures.updated ≤ c.live.temperatures.updated ∧ c.step? = some step ∧
    c.regulators = some table

theorem regulate_of_regulates {c : Controller} {step : Step} {table : PerChannel Regulator}
    (now : Int) (h : c.Regulates step table) :
    c.regulate now = ({ c with
        regulators := some ((c.updates step table now).map Prod.fst)
        stepPower := (c.updates step table now).map Prod.snd },
      ((c.updates step table now).map Prod.snd).commands) := by
  obtain ⟨hnew, hstep, htable⟩ := h
  simp only [regulate, Int.not_lt.mpr hnew, if_false, hstep, htable]
  rfl

theorem regulate_eq_self {c : Controller} (now : Int) (h : ∀ step table, ¬ c.Regulates step table) :
    c.regulate now = (c, []) := by
  unfold regulate
  split
  · rfl
  · rename_i hnew
    split
    · rename_i step table hstep htable
      exact absurd ⟨Int.not_lt.mp hnew, hstep, htable⟩ (h step table)
    · rfl

/-- A regulation changes nothing but the regulators and the percentages. -/
theorem regulate_cases (c : Controller) (now : Int) :
    c.regulate now = (c, []) ∨
      ∃ step table, c.Regulates step table ∧
        c.regulate now = ({ c with
            regulators := some ((c.updates step table now).map Prod.fst)
            stepPower := (c.updates step table now).map Prod.snd },
          ((c.updates step table now).map Prod.snd).commands) := by
  by_cases h : ∃ step table, c.Regulates step table
  · obtain ⟨step, table, hreg⟩ := h
    exact Or.inr ⟨step, table, hreg, regulate_of_regulates now hreg⟩
  · exact Or.inl (regulate_eq_self now fun step table hreg => h ⟨step, table, hreg⟩)

@[simp] theorem regulate_stage (c : Controller) (now : Int) : (c.regulate now).1.stage = c.stage := by
  rcases c.regulate_cases now with h | ⟨step, table, _, h⟩ <;> rw [h]

@[simp] theorem regulate_program (c : Controller) (now : Int) :
    (c.regulate now).1.program = c.program := by
  rcases c.regulate_cases now with h | ⟨step, table, _, h⟩ <;> rw [h]

@[simp] theorem regulate_startedAt (c : Controller) (now : Int) :
    (c.regulate now).1.startedAt = c.startedAt := by
  rcases c.regulate_cases now with h | ⟨step, table, _, h⟩ <;> rw [h]

@[simp] theorem regulate_position (c : Controller) (now : Int) :
    (c.regulate now).1.position = c.position := by
  rcases c.regulate_cases now with h | ⟨step, table, _, h⟩ <;> rw [h]

@[simp] theorem regulate_stopped (c : Controller) (now : Int) :
    (c.regulate now).1.stopped = c.stopped := by
  rcases c.regulate_cases now with h | ⟨step, table, _, h⟩ <;> rw [h]

@[simp] theorem regulate_live (c : Controller) (now : Int) : (c.regulate now).1.live = c.live := by
  rcases c.regulate_cases now with h | ⟨step, table, _, h⟩ <;> rw [h]

/-! ## The outcomes of a tick -/

/-- What a tick makes of a controller, and what it sends. -/
inductive Ticked (c : Controller) (now : Int) : Controller → List Command → Prop where
  | ended (stage : c.stage.isTerminal = true) : Ticked c now c []
  | begun (stage : c.stage = .start) :
      Ticked c now { c.changedTo .waiting now with position := none } []
  | overran (started : c.stage ≠ .start) (active : c.stage.isTerminal = false)
      (late : c.overdue now = true) :
      Ticked c now { c.changedTo .failed now with stopped := true } c.offCommands
  | waited (stage : c.stage = .waiting) (inTime : c.overdue now = false) (deaf : ¬ c.HeardOfBoth) :
      Ticked c now c.refreshed []
  | warmed (stage : c.stage = .waiting) (inTime : c.overdue now = false) (heard : c.HeardOfBoth) :
      Ticked c now { c.changedTo .preHeat now with stepPower := c.stepPower.set .fan preHeatFan }
        [⟨.fan, preHeatFan⟩]
  | lagged (stage : c.stage = .preHeat) (inTime : c.overdue now = false) (cold : c.OvenLags)
      (heating : c.used.power.reading.heater.percent ≠ 0) : Ticked c now c.refreshed []
  | heated (stage : c.stage = .preHeat) (inTime : c.overdue now = false) (cold : c.OvenLags)
      (idle : c.used.power.reading.heater.percent = 0) :
      Ticked c now { c.refreshed with stepPower := c.stepPower.set .heater fullPower }
        [⟨.heater, fullPower⟩]
  | caughtUp (stage : c.stage = .preHeat) (inTime : c.overdue now = false) (warm : ¬ c.OvenLags) :
      Ticked c now (c.changedTo .nextStep now) []
  | entered (step : Step) (stage : c.stage = .nextStep) (inTime : c.overdue now = false)
      (next : c.program.steps[c.upcoming]? = some step) :
      Ticked c now { c.changedTo (.ofKind step.kind) now with
          position := some c.upcoming
          regulators := some (.ofFn fun channel => .fresh (step.phase channel))
          stepPower := .fill 0 } []
  | finished (stage : c.stage = .nextStep) (inTime : c.overdue now = false)
      (past : c.program.steps.length ≤ c.upcoming) :
      Ticked c now { c.changedTo .idle now with
          position := some c.program.steps.length
          stopped := true } c.offCommands
  | left (stage : c.stage.isStep = true) (inTime : c.overdue now = false) (complete : c.StepOver now) :
      Ticked c now (c.changedTo .nextStep now) []
  | gaveUp (inTime : c.overdue now = false) (late : c.StepFailed now) :
      Ticked c now { c.changedTo .failed now with stopped := true } c.offCommands
  | regulated (stage : c.stage.isStep = true) (inTime : c.overdue now = false)
      (goesOn : ¬ c.StepOver now) (holds : ¬ c.StepFailed now) :
      Ticked c now (c.regulate now).1.refreshed (c.regulate now).2

/-- A tick as what it finds and the change of stage that follows. -/
theorem tick_of_evaluate {c : Controller} {now : Int} {worked : Controller} {sent : List Command}
    {next : Stage} (active : c.stage.isTerminal = false)
    (h : c.evaluate now = ((worked, sent), next)) :
    c.tick now = ((worked.moveTo now next).1.refreshed, sent ++ (worked.moveTo now next).2) := by
  simp only [tick, active, Bool.false_eq_true, if_false, h]
  rfl

theorem moveTo_self {c : Controller} {now : Int} {next : Stage} (h : next = c.stage) :
    c.moveTo now next = (c, []) := by simp [moveTo, h]

theorem moveTo_of_ne {c : Controller} {now : Int} {next : Stage} (h : next ≠ c.stage) :
    c.moveTo now next = enter { c with stage := next, stepStartedAt := now } now := by
  simp [moveTo, h]

/-- Entering the stage of a step makes its regulators. -/
theorem enter_step (c : Controller) (now : Int) (h : c.stage.isStep = true) :
    c.enter now = ({ c with
        regulators := c.step?.map fun step => .ofFn fun channel => .fresh (step.phase channel)
        stepPower := .fill 0 }, []) := by
  cases stage : c.stage <;> simp_all [Stage.isStep, enter]

theorem ticked_overdue {c : Controller} {now : Int} (started : c.stage ≠ .start)
    (active : c.stage.isTerminal = false) (late : c.overdue now = true) :
    Ticked c now (c.tick now).1 (c.tick now).2 := by
  have hne : Stage.failed ≠ c.stage := by
    intro h
    simp [← h, Stage.isTerminal] at active
  have he : c.evaluate now = ((c, []), .failed) := by simp [evaluate, started, late]
  rw [tick_of_evaluate active he, moveTo_of_ne hne]
  simp only [enter, shutdown_eq, List.nil_append]
  exact .overran started active late

/-- The first tick after a start is never too late. -/
theorem tick_of_start {c : Controller} (now : Int) (stage : c.stage = .start) :
    c.tick now = ({ c.changedTo .waiting now with position := none }, []) := by
  have he : c.evaluate now = ((c, []), .waiting) := by simp [evaluate, stage]
  rw [tick_of_evaluate (by simp [stage, Stage.isTerminal]) he, moveTo_of_ne (by simp [stage])]
  rfl

theorem ticked_start {c : Controller} {now : Int} (stage : c.stage = .start) :
    Ticked c now (c.tick now).1 (c.tick now).2 := by
  rw [tick_of_start now stage]
  exact .begun stage

theorem ticked_waiting {c : Controller} {now : Int} (stage : c.stage = .waiting)
    (inTime : c.overdue now = false) : Ticked c now (c.tick now).1 (c.tick now).2 := by
  have active : c.stage.isTerminal = false := by simp [stage, Stage.isTerminal]
  have he : c.evaluate now = c.wait := by simp [evaluate, stage, inTime]
  by_cases heard : c.HeardOfBoth
  · rw [tick_of_evaluate active (he.trans (if_pos heard)), moveTo_of_ne (by simp [stage])]
    exact .warmed stage inTime heard
  · rw [tick_of_evaluate active (he.trans (if_neg heard)), moveTo_self stage.symm]
    exact .waited stage inTime heard

theorem ticked_preHeat {c : Controller} {now : Int} (stage : c.stage = .preHeat)
    (inTime : c.overdue now = false) : Ticked c now (c.tick now).1 (c.tick now).2 := by
  have active : c.stage.isTerminal = false := by simp [stage, Stage.isTerminal]
  have he : c.evaluate now = c.preHeat := by simp [evaluate, stage, inTime]
  by_cases cold : c.OvenLags
  · have hp := he.trans (if_pos cold)
    by_cases idle : c.used.power.reading.heater.percent = 0
    · rw [tick_of_evaluate active (hp.trans (if_pos idle)), moveTo_self (by simp [stage])]
      exact .heated stage inTime cold idle
    · rw [tick_of_evaluate active (hp.trans (if_neg idle)), moveTo_self stage.symm]
      exact .lagged stage inTime cold idle
  · rw [tick_of_evaluate active (he.trans (if_neg cold)), moveTo_of_ne (by simp [stage])]
    exact .caughtUp stage inTime cold

theorem advance_of_step {c : Controller} {now : Int} {step : Step}
    (next : c.program.steps[c.upcoming]? = some step) :
    c.advance now =
      (({ c with stepStartedAt := now, position := some c.upcoming }, []), .ofKind step.kind) := by
  obtain ⟨inside, _⟩ := List.getElem?_eq_some_iff.mp next
  have hmin := Nat.min_eq_left (Nat.le_of_lt inside)
  cases hp : c.position <;> simp_all [advance, upcoming]

theorem advance_past {c : Controller} {now : Int} (past : c.program.steps.length ≤ c.upcoming) :
    c.advance now =
      (({ c with stepStartedAt := now, position := some c.program.steps.length }, []), .idle) := by
  have hmin := Nat.min_eq_right past
  cases hp : c.position <;> simp_all [advance, upcoming]

theorem ticked_nextStep {c : Controller} {now : Int} (stage : c.stage = .nextStep)
    (inTime : c.overdue now = false) : Ticked c now (c.tick now).1 (c.tick now).2 := by
  have active : c.stage.isTerminal = false := by simp [stage, Stage.isTerminal]
  have he : c.evaluate now = c.advance now := by simp [evaluate, stage, inTime]
  cases next : c.program.steps[c.upcoming]? with
  | none =>
    have past := List.getElem?_eq_none_iff.mp next
    rw [tick_of_evaluate active (he.trans (advance_past past)), moveTo_of_ne (by simp [stage])]
    simp only [enter, shutdown_eq, List.nil_append]
    exact .finished stage inTime past
  | some step =>
    have hne : Stage.ofKind step.kind ≠ c.stage := by
      rw [stage]
      cases step.kind <;> simp [Stage.ofKind]
    -- the stage is entered with the new position, so the regulators are those of the new step
    have hstep : ({ c with
        stage := .ofKind step.kind
        stepStartedAt := now
        position := some c.upcoming } : Controller).step? = some step := next
    rw [tick_of_evaluate active (he.trans (advance_of_step next)), moveTo_of_ne,
      enter_step _ _ (Stage.isStep_ofKind _)]
    · simp only [hstep]
      exact .entered step stage inTime next
    · exact hne

theorem ticked_left {c : Controller} {now : Int} (stage : c.stage.isStep = true)
    (inTime : c.overdue now = false) (complete : c.StepOver now)
    (he : c.evaluate now = ((c, []), .nextStep)) : Ticked c now (c.tick now).1 (c.tick now).2 := by
  have hne : Stage.nextStep ≠ c.stage := by
    intro h
    simp [← h, Stage.isStep] at stage
  rw [tick_of_evaluate (Stage.not_isTerminal_of_isStep stage) he, moveTo_of_ne hne]
  exact .left stage inTime complete

theorem ticked_regulated {c : Controller} {now : Int} (stage : c.stage.isStep = true)
    (inTime : c.overdue now = false) (goesOn : ¬ c.StepOver now) (holds : ¬ c.StepFailed now)
    (he : c.evaluate now = (c.regulate now, c.stage)) :
    Ticked c now (c.tick now).1 (c.tick now).2 := by
  have active := Stage.not_isTerminal_of_isStep stage
  rw [@tick_of_evaluate c now (c.regulate now).1 (c.regulate now).2 c.stage active he,
    moveTo_self (c.regulate_stage now).symm, List.append_nil]
  exact .regulated stage inTime goesOn holds

theorem ticked_heatUp {c : Controller} {now : Int} (stage : c.stage = .heatUp)
    (inTime : c.overdue now = false) : Ticked c now (c.tick now).1 (c.tick now).2 := by
  have isStep : c.stage.isStep = true := by simp [stage, Stage.isStep]
  have he : c.evaluate now = c.heatUp now := by simp [evaluate, stage, inTime]
  have hover : c.StepOver now ↔ ∀ step, c.step? = some step →
      step.target.getD 0 ≤ c.used.temperatures.reading.material := by simp only [StepOver, stage]
  cases hstep : c.step? with
  | none =>
    exact ticked_left isStep inTime (hover.mpr (by simp [hstep])) (by rw [he, heatUp, hstep])
  | some step =>
    simp only [heatUp, hstep] at he
    simp only [hstep, Option.some.injEq, forall_eq'] at hover
    by_cases warm : step.target.getD 0 ≤ c.used.temperatures.reading.material
    · exact ticked_left isStep inTime (hover.mpr warm) (he.trans (if_pos warm))
    · have hw := he.trans (if_neg warm)
      by_cases late : step.runtime.any (c.elapsed now) = true
      · rw [tick_of_evaluate (Stage.not_isTerminal_of_isStep isStep) (hw.trans (if_pos late)),
          moveTo_of_ne (by simp [stage])]
        simp only [enter, shutdown_eq, List.nil_append]
        exact .gaveUp inTime ⟨stage, step, hstep, warm, late⟩
      · refine ticked_regulated isStep inTime (mt hover.mp warm) ?_ ?_
        · rintro ⟨_, other, hother, _, hlate⟩
          cases hstep.symm.trans hother
          exact late hlate
        · rw [hw, if_neg late, stage]

theorem ticked_acclimate {c : Controller} {now : Int} (stage : c.stage = .acclimate)
    (inTime : c.overdue now = false) : Ticked c now (c.tick now).1 (c.tick now).2 := by
  have isStep : c.stage.isStep = true := by simp [stage, Stage.isStep]
  have he : c.evaluate now = c.acclimate now := by simp [evaluate, stage, inTime]
  have hover : c.StepOver now ↔ c.elapsed now ((c.step?.bind Step.runtime).getD 0) = true := by
    simp only [StepOver, stage]
  by_cases late : c.elapsed now ((c.step?.bind Step.runtime).getD 0) = true
  · exact ticked_left isStep inTime (hover.mpr late) (he.trans (if_pos late))
  · refine ticked_regulated isStep inTime (mt hover.mp late) ?_ ?_
    · rintro ⟨hheat, _⟩
      simp [stage] at hheat
    · rw [he, acclimate, if_neg late, stage]

theorem ticked_coolDown {c : Controller} {now : Int} (stage : c.stage = .coolDown)
    (inTime : c.overdue now = false) : Ticked c now (c.tick now).1 (c.tick now).2 := by
  have isStep : c.stage.isStep = true := by simp [stage, Stage.isStep]
  have he : c.evaluate now = c.coolDown now := by simp [evaluate, stage, inTime]
  have hover : c.StepOver now ↔ ∀ step, c.step? = some step →
      step.runtime.any (c.elapsed now) = true ∨
        step.target.any (c.used.temperatures.reading.material ≤ ·) = true := by
    simp only [StepOver, stage]
  cases hstep : c.step? with
  | none =>
    exact ticked_left isStep inTime (hover.mpr (by simp [hstep])) (by rw [he, coolDown, hstep])
  | some step =>
    simp only [coolDown, hstep] at he
    simp only [hstep, Option.some.injEq, forall_eq'] at hover
    by_cases late : step.runtime.any (c.elapsed now) = true
    · exact ticked_left isStep inTime (hover.mpr (Or.inl late)) (he.trans (if_pos late))
    · have hl := he.trans (if_neg late)
      by_cases cold : step.target.any (c.used.temperatures.reading.material ≤ ·) = true
      · exact ticked_left isStep inTime (hover.mpr (Or.inr cold)) (hl.trans (if_pos cold))
      · refine ticked_regulated isStep inTime (fun h => (hover.mp h).elim late cold) ?_ ?_
        · rintro ⟨hheat, _⟩
          simp [stage] at hheat
        · rw [hl, if_neg cold, stage]

/-- Every tick has one of the outcomes. -/
theorem ticked (c : Controller) (now : Int) : Ticked c now (c.tick now).1 (c.tick now).2 := by
  by_cases active : c.stage.isTerminal = true
  · rw [tick, if_pos active]
    exact .ended active
  · have hactive : c.stage.isTerminal = false := by simpa using active
    by_cases start : c.stage = .start
    · exact ticked_start start
    · by_cases late : c.overdue now = true
      · exact ticked_overdue start hactive late
      · have inTime : c.overdue now = false := by simpa using late
        cases stage : c.stage with
        | start => exact absurd stage start
        | waiting => exact ticked_waiting stage inTime
        | preHeat => exact ticked_preHeat stage inTime
        | nextStep => exact ticked_nextStep stage inTime
        | heatUp => exact ticked_heatUp stage inTime
        | acclimate => exact ticked_acclimate stage inTime
        | coolDown => exact ticked_coolDown stage inTime
        | idle => simp [stage, Stage.isTerminal] at hactive
        | failed => simp [stage, Stage.isTerminal] at hactive

/-- A step that has failed is not over. -/
theorem not_stepFailed_of_stepOver {c : Controller} {now : Int} (h : c.StepOver now) :
    ¬ c.StepFailed now := by
  rintro ⟨stage, step, hstep, hcold, _⟩
  rw [StepOver, stage] at h
  exact hcold (h step hstep)

/-- The conditions of the outcomes exclude each other, so a tick has only one of them. -/
theorem Ticked.unique {c first second : Controller} {now : Int} {sent later : List Command}
    (h : Ticked c now first sent) (h' : Ticked c now second later) :
    first = second ∧ sent = later := by
  have hactive : c.stage.isStep = true → c.stage.isTerminal = false :=
    Stage.not_isTerminal_of_isStep
  have hheats : c.StepFailed now → c.stage = .heatUp := And.left
  have hexclude : c.StepOver now → ¬ c.StepFailed now := not_stepFailed_of_stepOver
  have hstart : Stage.start.isTerminal = false ∧ Stage.start.isStep = false := ⟨rfl, rfl⟩
  have hwaiting : Stage.waiting.isTerminal = false ∧ Stage.waiting.isStep = false := ⟨rfl, rfl⟩
  have hpreHeat : Stage.preHeat.isTerminal = false ∧ Stage.preHeat.isStep = false := ⟨rfl, rfl⟩
  have hnextStep : Stage.nextStep.isTerminal = false ∧ Stage.nextStep.isStep = false := ⟨rfl, rfl⟩
  have hheatUp : Stage.heatUp.isTerminal = false := rfl
  -- the same outcome twice, or two of which the stage, the time or the step allows only one
  cases h <;> cases h' <;> first | exact ⟨rfl, rfl⟩ | simp_all

/-- An outcome whose condition holds is what the tick comes to. -/
theorem Ticked.tick_eq {c next : Controller} {now : Int} {sent : List Command}
    (h : Ticked c now next sent) : c.tick now = (next, sent) := by
  obtain ⟨hnext, hsent⟩ := (c.ticked now).unique h
  exact Prod.ext hnext hsent

/-- No tick changes the program, the second of the start or the live readings. -/
theorem tick_keeps (c : Controller) (now : Int) :
    (c.tick now).1.program = c.program ∧ (c.tick now).1.startedAt = c.startedAt ∧
      (c.tick now).1.live = c.live := by
  have ht := c.ticked now
  generalize (c.tick now).1 = next, (c.tick now).2 = commands at ht
  cases ht with
  | regulated =>
    exact ⟨c.regulate_program now, c.regulate_startedAt now, c.regulate_live now⟩
  | _ => exact ⟨rfl, rfl, rfl⟩

end Controller
end DryKiln
