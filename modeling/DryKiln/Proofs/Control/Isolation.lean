-- Steps do not look back. Two controllers that enter a step with the same settings at the same
-- second, with the same temperatures at hand, are alike in all that the step looks at; and they stay
-- alike as long as it lasts, whatever either of them has been through before.
import DryKiln.Proofs.Control.Stay
import DryKiln.Proofs.Control.Trace

namespace DryKiln

/-- Two steps that are carried out in the same way. Only their names may differ. -/
structure Step.SameSettings (s t : Step) : Prop where
  kind : s.kind = t.kind
  target : s.target = t.target
  runtime : s.runtime = t.runtime
  phase : ∀ channel, s.phase channel = t.phase channel

instance (s t : Step) : Decidable (s.SameSettings t) :=
  decidable_of_iff (s.kind = t.kind ∧ s.target = t.target ∧ s.runtime = t.runtime ∧
      s.phase .heater = t.phase .heater ∧ s.phase .fan = t.phase .fan ∧
        s.phase .humidifier = t.phase .humidifier)
    ⟨fun ⟨hkind, htarget, hruntime, hheater, hfan, hhumidifier⟩ =>
        ⟨hkind, htarget, hruntime, fun channel => by cases channel <;> assumption⟩,
      fun h => ⟨h.kind, h.target, h.runtime, h.phase _, h.phase _, h.phase _⟩⟩

namespace Controller

/-! ## What is seen of a step -/

/-- What is seen of one event: the stage after it, and the commands. -/
structure Seen where
  stage : Stage
  commands : List Command
deriving DecidableEq

/-- What is seen of the step that a controller is in: one entry for each event, the last one for the
event that leaves the step. -/
def stint (c : Controller) : List ControlEvent → List Seen
  | [] => []
  | event :: events =>
    ⟨(c.handle event).1.stage, (c.handle event).2⟩ ::
      if (c.handle event).1.stage.isStep then (c.handle event).1.stint events else []

theorem stint_of_stay {c : Controller} {event : ControlEvent} (events : List ControlEvent)
    (h : (c.handle event).1.stage.isStep = true) : c.stint (event :: events) =
      ⟨(c.handle event).1.stage, (c.handle event).2⟩ :: (c.handle event).1.stint events := by
  rw [stint, if_pos h]

theorem stint_of_leave {c : Controller} {event : ControlEvent} (events : List ControlEvent)
    {stage : Stage} {commands : List Command} (hstage : stage.isStep = false)
    (h : ((c.handle event).1.stage, (c.handle event).2) = (stage, commands)) :
    c.stint (event :: events) = [⟨stage, commands⟩] := by
  cases h
  rw [stint, if_neg (Bool.eq_false_iff.mp hstage)]

/-- What is seen apart from the turning off at a failure. -/
def Seen.apartFromFailure (seen : Seen) : Seen :=
  if seen.stage = .failed then { seen with commands := [] } else seen

/-! ## Controllers that are alike -/

/-- Two controllers are in steps with the same settings and agree on all that a step looks at. -/
structure Alike (c d : Controller) : Prop where
  inside : c.stage.isStep = true
  stage : d.stage = c.stage
  settings : ∃ s t, c.step? = some s ∧ d.step? = some t ∧ s.SameSettings t
  regulators : d.regulators = c.regulators
  stepPower : d.stepPower = c.stepPower
  entered : d.stepStartedAt = c.stepStartedAt
  live : d.live.temperatures = c.live.temperatures
  used : d.used.temperatures = c.used.temperatures

/-- Controllers that enter steps with the same settings, with the same temperatures at hand. -/
theorem NewIn.alike {c d : Controller} {s t : Step} {now : Int} (hc : NewIn s now c)
    (hd : NewIn t now d) (hsettings : s.SameSettings t)
    (hlive : d.live.temperatures = c.live.temperatures) : Alike c d where
  inside := by rw [hc.stage, Stage.isStep_ofKind]
  stage := by rw [hc.stage, hd.stage, hsettings.kind]
  settings := ⟨s, t, hc.current, hd.current, hsettings⟩
  regulators := by
    rw [hc.regulators, hd.regulators]
    simp only [hsettings.phase]
  stepPower := hd.stepPower.trans hc.stepPower.symm
  entered := hd.entered.trans hc.entered.symm
  live := hlive
  used := by rw [hc.used, hd.used, hlive]

namespace Alike

variable {c d : Controller}

theorem elapsed (h : Alike c d) (now : Int) : d.elapsed now = c.elapsed now := by
  funext limit
  rw [Controller.elapsed, Controller.elapsed, h.entered]

theorem stepOver_iff (h : Alike c d) (now : Int) : d.StepOver now ↔ c.StepOver now := by
  obtain ⟨s, t, hs, ht, hsettings⟩ := h.settings
  simp only [StepOver, h.stage, h.elapsed, h.used, hs, ht, Option.some.injEq, forall_eq',
    Option.bind_some, hsettings.target, hsettings.runtime]

theorem stepFailed_iff (h : Alike c d) (now : Int) : d.StepFailed now ↔ c.StepFailed now := by
  obtain ⟨s, t, hs, ht, hsettings⟩ := h.settings
  simp only [StepFailed, h.stage, h.elapsed, h.used, hs, ht, Option.some.injEq, exists_eq_left',
    hsettings.target, hsettings.runtime]

/-- Controllers that are alike send the same commands, and are alike after that. -/
theorem regulate (h : Alike c d) (now : Int) :
    Alike (c.regulate now).1.refreshed (d.regulate now).1.refreshed ∧
      (d.regulate now).2 = (c.regulate now).2 := by
  obtain ⟨s, t, hs, ht, hsettings⟩ := h.settings
  by_cases hregulates : ∃ table, c.Regulates s table
  · obtain ⟨table, hc⟩ := hregulates
    have hd : d.Regulates t table :=
      ⟨by rw [h.used, h.live]; exact hc.1, ht, h.regulators.trans hc.2.2⟩
    have hupdates : d.updates t table now = c.updates s table now := by
      simp only [updates, h.used, h.stepPower, hsettings.target]
    rw [regulate_of_regulates now hc, regulate_of_regulates now hd, hupdates]
    exact ⟨⟨h.inside, h.stage, ⟨s, t, hs, ht, hsettings⟩, rfl, rfl, h.entered, h.live, h.live⟩, rfl⟩
  · have hc : ∀ step table, ¬ c.Regulates step table := by
      intro step table hreg
      cases hs.symm.trans hreg.2.1
      exact hregulates ⟨table, hreg⟩
    have hd : ∀ step table, ¬ d.Regulates step table := by
      intro step table hreg
      refine hc s table ⟨?_, hs, h.regulators.symm.trans hreg.2.2⟩
      rw [← h.used, ← h.live]
      exact hreg.1
    rw [regulate_eq_self now hc, regulate_eq_self now hd]
    exact ⟨⟨h.inside, h.stage, ⟨s, t, hs, ht, hsettings⟩, h.regulators, h.stepPower, h.entered,
      h.live, h.live⟩, rfl⟩

end Alike

/-! ## One event -/

/-- What an event makes of two controllers that are alike: they stay so, or leave their steps in the
same way. -/
inductive Parallel (c d : Controller) (event : ControlEvent) : Prop where
  | stay (alike : Alike (c.handle event).1 (d.handle event).1)
      (commands : (d.handle event).2 = (c.handle event).2)
      (stoppedFirst : (c.handle event).1.stopped = c.stopped)
      (stoppedSecond : (d.handle event).1.stopped = d.stopped)
  | leave (first : ((c.handle event).1.stage, (c.handle event).2) = (.nextStep, []))
      (second : ((d.handle event).1.stage, (d.handle event).2) = (.nextStep, []))
  | fail (first : ((c.handle event).1.stage, (c.handle event).2) = (.failed, c.offCommands))
      (second : ((d.handle event).1.stage, (d.handle event).2) = (.failed, d.offCommands))

theorem Alike.tick {c d : Controller} (h : Alike c d) {now : Int} (hc : c.overdue now = false)
    (hd : d.overdue now = false) : Parallel c d (.tick now) := by
  have hfirst := tickedInStep now h.inside
  have hsecond := tickedInStep now (h.stage ▸ h.inside)
  have hover := h.stepOver_iff now
  have hfailed := h.stepFailed_iff now
  generalize hcNext : (c.tick now).1 = cNext, hcSent : (c.tick now).2 = cSent at hfirst
  generalize hdNext : (d.tick now).1 = dNext, hdSent : (d.tick now).2 = dSent at hsecond
  -- both look at the same things, so they have the same outcome
  cases hfirst with
  | overran late => cases hc.symm.trans late
  | left _ complete =>
    cases hsecond with
    | overran late => cases hd.symm.trans late
    | left =>
      exact .leave (by rw [handle, hcNext, hcSent]; rfl) (by rw [handle, hdNext, hdSent]; rfl)
    | gaveUp _ late => exact absurd (hfailed.mp late) (not_stepFailed_of_stepOver complete)
    | regulated _ goesOn => exact absurd (hover.mpr complete) goesOn
  | gaveUp _ failed =>
    cases hsecond with
    | overran late => cases hd.symm.trans late
    | left _ complete => exact absurd failed (not_stepFailed_of_stepOver (hover.mp complete))
    | gaveUp =>
      exact .fail (by rw [handle, hcNext, hcSent]; rfl) (by rw [handle, hdNext, hdSent]; rfl)
    | regulated _ _ holds => exact absurd (hfailed.mpr failed) holds
  | regulated _ goesOn holds =>
    cases hsecond with
    | overran late => cases hd.symm.trans late
    | left _ complete => exact absurd (hover.mp complete) goesOn
    | gaveUp _ late => exact absurd (hfailed.mp late) holds
    | regulated =>
      obtain ⟨halike, hsent⟩ := h.regulate now
      apply Parallel.stay
      · rwa [handle, handle, hcNext, hdNext]
      · rwa [handle, handle, hcSent, hdSent]
      · rw [handle, hcNext]
        exact c.regulate_stopped now
      · rw [handle, hdNext]
        exact d.regulate_stopped now

theorem Alike.handle {c d : Controller} (h : Alike c d) {event : ControlEvent}
    (hevent : event.isStart = false ∧ event.isShutdown = false)
    (hc : ∀ now, event = .tick now → c.overdue now = false)
    (hd : ∀ now, event = .tick now → d.overdue now = false) : Parallel c d event := by
  cases event with
  | start now => cases hevent.1
  | tick now => exact h.tick (hc now rfl) (hd now rfl)
  | temperatures reading received =>
    exact .stay ⟨h.inside, h.stage, h.settings, h.regulators, h.stepPower, h.entered, rfl, h.used⟩
      rfl rfl rfl
  | power reading received =>
    exact .stay ⟨h.inside, h.stage, h.settings, h.regulators, h.stepPower, h.entered, h.live, h.used⟩
      rfl rfl rfl
  | shutdown => cases hevent.2

/-! ## The rest of the step -/

/-- The end of a run's time depends on nothing that an event after the start changes. -/
theorem overdue_handle (c : Controller) {event : ControlEvent} (h : event.isStart = false) :
    (c.handle event).1.overdue = c.overdue := by
  funext now
  rw [overdue, overdue, handle_program, c.handle_startedAt h]

/-- What is seen of two controllers that are alike is the same for everybody who cannot tell their
ways of turning off at a failure apart. -/
theorem Alike.map_stint {α : Type} (see : Seen → α) {events : List ControlEvent}
    (hevents : Undisturbed events) {c d : Controller} (h : Alike c d)
    (hoff : see ⟨.failed, d.offCommands⟩ = see ⟨.failed, c.offCommands⟩)
    (hc : ∀ now, .tick now ∈ events → c.overdue now = false)
    (hd : ∀ now, .tick now ∈ events → d.overdue now = false) :
    (d.stint events).map see = (c.stint events).map see := by
  induction events generalizing c d with
  | nil => rfl
  | cons event events ih =>
    obtain ⟨hevent, hrest⟩ := List.forall_mem_cons.mp hevents
    have hparallel := h.handle hevent (fun now heq => hc now (by simp [heq]))
      (fun now heq => hd now (by simp [heq]))
    cases hparallel with
    | stay alike commands stoppedFirst stoppedSecond =>
      have hlater : ((d.handle event).1.stint events).map see =
          ((c.handle event).1.stint events).map see := by
        apply ih hrest alike
        · rwa [offCommands, offCommands, stoppedFirst, stoppedSecond]
        · intro now hmem
          rw [overdue_handle c hevent.1]
          exact hc now (List.mem_cons_of_mem event hmem)
        · intro now hmem
          rw [overdue_handle d hevent.1]
          exact hd now (List.mem_cons_of_mem event hmem)
      rw [stint_of_stay events alike.inside, stint_of_stay events (alike.stage ▸ alike.inside),
        List.map_cons, List.map_cons, alike.stage, commands, hlater]
    | leave first second => rw [stint_of_leave events rfl first, stint_of_leave events rfl second]
    | fail first second =>
      rw [stint_of_leave events rfl first, stint_of_leave events rfl second, List.map_singleton,
        List.map_singleton, hoff]

/-! ## The law -/

/-- A tick takes a controller into a step. -/
structure Enters (c : Controller) (past : List ControlEvent) (entered : Int) (step : Step) : Prop where
  outside : (c.after past).stage.isStep = false
  inside : (c.after (past ++ [.tick entered])).stage.isStep = true
  current : (c.after (past ++ [.tick entered])).step? = some step

theorem Enters.newIn {c : Controller} {past : List ControlEvent} {entered : Int} {step : Step}
    (h : Enters c past entered step) : NewIn step entered (c.after (past ++ [.tick entered])) := by
  have hinside := h.inside
  have hcurrent := h.current
  rw [after_concat] at hinside hcurrent ⊢
  obtain ⟨now, heq, _, found, hnew⟩ := entered_of_isStep h.outside hinside
  cases heq
  cases hnew.current.symm.trans hcurrent
  exact hnew

/-- Entering a step changes neither the live readings nor whether the actuators are turned off. -/
theorem Enters.keeps {c : Controller} {past : List ControlEvent} {entered : Int} {step : Step}
    (h : Enters c past entered step) :
    (c.after (past ++ [.tick entered])).live = (c.after past).live ∧
      (c.after (past ++ [.tick entered])).stopped = (c.after past).stopped := by
  have hinside := h.inside
  rw [after_concat] at hinside ⊢
  refine ⟨(tick_keeps _ entered).2.2, ?_⟩
  rcases (c.after past).tick_ends_or_goes_on entered with ⟨_, hstopped⟩ | ⟨_, hover, _⟩
  · exact hstopped
  · exact absurd (hover.symm.trans (Stage.not_isTerminal_of_isStep hinside)) (by decide)

/-- Two runs enter steps with the same settings at the same second, with the same live temperatures,
and go on with the same ticks and readings, which exceed the time of neither. Then what is seen of
the two steps is the same, up to and with the event that leaves them, whatever went before: if
neither run has been shut down, or the actuators have been turned off in both or in none. In any
case it is the same apart from the turning off at a failure. -/
theorem steps_are_isolated (first second : Program) (early late : List ControlEvent) (entered : Int)
    (s t : Step) (events : List ControlEvent)
    (hfirst : Enters (new first) early entered s) (hsecond : Enters (new second) late entered t)
    (hsettings : s.SameSettings t)
    (hlive : ((new first).after early).live.temperatures =
      ((new second).after late).live.temperatures)
    (hevents : Undisturbed events)
    (hinTime : ∀ now, .tick now ∈ events →
      ((new first).after (early ++ [.tick entered])).overdue now = false ∧
        ((new second).after (late ++ [.tick entered])).overdue now = false) :
    let c := (new first).after (early ++ [.tick entered])
    let d := (new second).after (late ++ [.tick entered])
    ((∀ event ∈ early ++ late, event.isShutdown = false) → c.stint events = d.stint events) ∧
      ((Released (new first) early ↔ Released (new second) late) →
        c.stint events = d.stint events) ∧
      (c.stint events).map Seen.apartFromFailure = (d.stint events).map Seen.apartFromFailure := by
  intro c d
  have halike : Alike c d := by
    apply hfirst.newIn.alike hsecond.newIn hsettings
    rw [hfirst.keeps.1, hsecond.keeps.1, hlive]
  have hc : ∀ now, .tick now ∈ events → c.overdue now = false := fun now h => (hinTime now h).1
  have hd : ∀ now, .tick now ∈ events → d.overdue now = false := fun now h => (hinTime now h).2
  have hsame : c.stopped = d.stopped → c.stint events = d.stint events := by
    intro hstopped
    have hoff : d.offCommands = c.offCommands := by rw [offCommands, offCommands, hstopped]
    have hseen := halike.map_stint id hevents (by rw [hoff]) hc hd
    rw [List.map_id, List.map_id] at hseen
    exact hseen.symm
  have hreleased : (Released (new first) early ↔ Released (new second) late) →
      c.stint events = d.stint events := by
    intro hiff
    apply hsame
    rw [hfirst.keeps.2, hsecond.keeps.2, Bool.eq_iff_iff, stopped_iff_released,
      stopped_iff_released, hiff]
  refine ⟨?_, hreleased, (halike.map_stint _ hevents rfl hc hd).symm⟩
  intro hquiet
  -- neither program is over, so without a shutdown neither run has turned its actuators off
  have hrunning : ∀ (program : Program) (past : List ControlEvent) (step : Step),
      Enters (new program) past entered step → (∀ event ∈ past, event.isShutdown = false) →
      ((new program).after (past ++ [.tick entered])).stopped = false := by
    intro program past step henters hpast
    have hall : ∀ event ∈ past ++ [.tick entered], event.isShutdown = false := by
      intro event hevent
      rcases List.mem_append.mp hevent with hevent | hevent
      · exact hpast event hevent
      · rw [List.mem_singleton.mp hevent]
        rfl
    rw [stopped_after_eq_isTerminal rfl hall, Stage.not_isTerminal_of_isStep henters.inside]
  obtain ⟨hearly, hlate⟩ := List.forall_mem_append.mp hquiet
  exact hsame ((hrunning first early s hfirst hearly).trans
    (hrunning second late t hsecond hlate).symm)

/-- A program of one step that does the same as the second rest, under another name. -/
def oneCooling : Program :=
  ⟨"elm", [⟨"down", .cooling, some 20, some 9, .fill (some (.constant 30))⟩], none⟩

/-- The second step of one run and the first step of another, with the same readings from there on:
they send the same commands and are left by the same tick. -/
theorem cooling_is_isolated :
    let early : List ControlEvent := [.start 1, .tick 2, .temperatures ⟨21, 20⟩ 2, .power .zero 2,
      .tick 3, .tick 4, .tick 5, .tick 6, .temperatures ⟨30, 25⟩ 10, .tick 11]
    let late : List ControlEvent := [.start 6, .tick 7, .temperatures ⟨30, 25⟩ 10, .power .zero 10,
      .tick 10, .tick 11]
    let events : List ControlEvent := [.tick 13, .temperatures ⟨28, 18⟩ 14, .tick 15, .tick 16,
      .tick 17]
    let c := (new twoRests).after (early ++ [.tick 12])
    let d := (new oneCooling).after (late ++ [.tick 12])
    c.position = some 1 ∧ d.position = some 0 ∧ c.stint events = d.stint events ∧
      d.stint events = [⟨.coolDown, (PerChannel.fill 30).commands⟩, ⟨.coolDown, []⟩,
        ⟨.coolDown, (PerChannel.fill 30).commands⟩, ⟨.nextStep, []⟩] := by
  intro early late events c d
  have hfirst : Enters (new twoRests) early 12 ⟨"cool", .cooling, some 20, some 9,
      .fill (some (.constant 30))⟩ := ⟨by decide, by decide, by decide⟩
  have hsecond : Enters (new oneCooling) late 12 ⟨"down", .cooling, some 20, some 9,
      .fill (some (.constant 30))⟩ := ⟨by decide, by decide, by decide⟩
  have hinTime : ∀ now, .tick now ∈ events →
      ((new twoRests).after (early ++ [.tick 12])).overdue now = false ∧
        ((new oneCooling).after (late ++ [.tick 12])).overdue now = false := by
    intro now hmem
    simp only [events, List.mem_cons, ControlEvent.tick.injEq, reduceCtorEq, false_or,
      List.not_mem_nil, or_false] at hmem
    rcases hmem with rfl | rfl | rfl | rfl <;> decide
  have hsame := (steps_are_isolated twoRests oneCooling early late 12 _ _ events hfirst hsecond
    (by decide) (by decide) (by decide) hinTime).1 (by decide)
  exact ⟨by decide, by decide, hsame, by decide⟩

end Controller
end DryKiln
