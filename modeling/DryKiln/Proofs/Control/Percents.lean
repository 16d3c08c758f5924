-- The percentages that are commanded. None is above 100, whatever the readings are. A tick that
-- stays in a step of an accepted program commands all three actuators, as long as no reading is
-- older than one before it, and what it commands is what this step asks for and no other.
import DryKiln.Proofs.Control.Stay
import DryKiln.Proofs.Decimal.Binary32
import DryKiln.Proofs.Program.Accepted

namespace DryKiln

/-! ## One regulator -/

theorem Binary32.unpack_fullPower : (Float32.ofNat fullPower.toNat).toModel.unpack =
    .finite .positive 13107200 (-17) (by decide) := rfl

/-- No number, infinite or NaN, is clamped to more than full power. -/
theorem clampPower_le (raw : Float32) : clampPower raw ≤ fullPower := by
  unfold clampPower
  split
  · decide
  · split
    · decide
    · split
      · decide
      · rename_i hbound
        rw [Binary32.lt_iff, Binary32.unpack_fullPower] at hbound
        have hint := Binary32.toInt_le (UInt8.size - 1) (by decide) (by decide) hbound
        change UInt8.ofNatClamp (raw.toModel.unpack.toInt 0 (UInt8.size - 1)).toNat ≤ fullPower
        generalize raw.toModel.unpack.toInt 0 (UInt8.size - 1) = n at hint
        have hn : n.toNat ≤ 100 := by
          have : (13107200 / 2 ^ (-(-17 : Int)).toNat : Nat) = 100 := by decide
          omega
        rw [UInt8.ofNatClamp, dif_pos (by simp [UInt8.size]; omega), UInt8.le_iff_toNat_le]
        simpa [fullPower] using hn

theorem bandPower_eq (setpoint oven material low high : Float32) :
    bandPower setpoint oven material low high = 0 ∨
      bandPower setpoint oven material low high = fullPower := by
  unfold bandPower
  split
  · exact Or.inr rfl
  · exact Or.inl rfl

namespace Regulator

variable (regulator : Regulator) (setpoint oven material : Float32) (previous : UInt8) (now : Int)

/-- A regulator never asks for more than full power. -/
theorem update_le : (regulator.update setpoint oven material previous now).2 ≤ fullPower := by
  unfold update
  split
  · exact Std.min_le_right
  · rcases bandPower_eq setpoint oven material _ _ with h | h
    · rw [h]
      exact UInt8.zero_le
    · rw [h]
      exact UInt8.le_refl fullPower
  · generalize regulator.loop.sample _ (setpoint - oven) now = sampled
    obtain ⟨loop, correction⟩ := sampled
    cases correction with
    | none => exact UInt8.zero_le
    | some correction => exact clampPower_le _

/-- The first sample of a feedback loop asks for nothing. -/
theorem update_fresh_feedback (gains : Gains) :
    ((fresh (.feedback gains)).update setpoint oven material previous now).2 = 0 := rfl

/-- What a regulator asks for, by what it was made for. -/
theorem MadeFor.update_constant {regulator : Regulator} {percent : UInt8}
    (h : regulator.MadeFor (.constant percent)) (hle : percent ≤ fullPower) :
    (regulator.update setpoint oven material previous now).2 = percent := by
  rw [Regulator.update, h.regulation]
  exact if_pos hle

theorem MadeFor.update_band {regulator : Regulator} {low high : Float32}
    (h : regulator.MadeFor (.band low high)) :
    (regulator.update setpoint oven material previous now).2 = 0 ∨
      (regulator.update setpoint oven material previous now).2 = fullPower := by
  rw [Regulator.update, h.regulation]
  exact bandPower_eq setpoint oven material low high

end Regulator

/-- What a step asks of the actuators, as far as it does not depend on the readings. -/
structure Step.Asks (step : Step) (percents : PerChannel UInt8) : Prop where
  fan : step.phase .fan = .constant percents.fan
  humidifier : step.phase .humidifier = .constant percents.humidifier
  cooling : step.kind = .cooling → step.phase .heater = .constant percents.heater
  constant : ∀ percent, step.phase .heater = .constant percent → percents.heater = percent
  band : ∀ low high, step.phase .heater = .band low high →
    percents.heater = 0 ∨ percents.heater = fullPower

/-- What regulators ask for that were made for an accepted step. -/
theorem Step.Accepted.asks {step : Step} (h : step.Accepted) {percents : PerChannel UInt8}
    (hpercents : ∀ channel, ∃ (regulator : Regulator) (setpoint oven material : Float32)
      (previous : UInt8) (now : Int), regulator.MadeFor (step.phase channel) ∧
        percents.get channel = (regulator.update setpoint oven material previous now).2) :
    step.Asks percents := by
  have hconstant : ∀ channel percent, step.phase channel = .constant percent →
      percents.get channel = percent := by
    intro channel percent hphase
    obtain ⟨regulator, setpoint, oven, material, previous, now, hmade, heq⟩ := hpercents channel
    rw [hphase] at hmade
    rw [heq, hmade.update_constant _ _ _ _ _ (h.percent_le hphase)]
  have hmust : ∀ channel, step.mustBeConstant channel = true →
      step.phase channel = .constant (percents.get channel) := by
    intro channel hchannel
    obtain ⟨percent, hphase⟩ := h.constant hchannel
    rw [hconstant channel percent (Step.phase_of_get hphase), Step.phase_of_get hphase]
  refine ⟨hmust .fan rfl, hmust .humidifier rfl, ?_, hconstant .heater, ?_⟩
  · intro hkind
    exact hmust .heater (by simp [Step.mustBeConstant, hkind])
  · intro low high hphase
    obtain ⟨regulator, setpoint, oven, material, previous, now, hmade, heq⟩ := hpercents .heater
    rw [hphase] at hmade
    have hband := hmade.update_band setpoint oven material previous now
    rwa [← heq] at hband

namespace Controller

/-! ## Any run -/

theorem offCommands_percent_le (c : Controller) :
    ∀ command ∈ c.offCommands, command.percent ≤ fullPower := by
  unfold offCommands
  split
  · simp
  · decide

/-- Whatever a controller holds, a tick sends nothing above full power. -/
theorem tick_percent_le (c : Controller) (now : Int) :
    ∀ command ∈ (c.tick now).2, command.percent ≤ fullPower := by
  have ht := c.ticked now
  generalize (c.tick now).1 = next, (c.tick now).2 = commands at ht
  cases ht with
  | overran | finished | gaveUp => exact c.offCommands_percent_le
  | warmed | heated => simp [fullPower, preHeatFan]
  | regulated =>
    rcases c.regulate_cases now with heq | ⟨step, table, _, heq⟩
    · rw [heq]
      simp
    · rw [heq]
      intro command hcommand
      obtain ⟨channel, _, rfl⟩ := List.mem_map.mp hcommand
      rw [PerChannel.get_map, updates, PerChannel.get_ofFn]
      exact Regulator.update_le _ _ _ _ _ _
  | _ => simp

theorem handle_percent_le (c : Controller) (event : ControlEvent) :
    ∀ command ∈ (c.handle event).2, command.percent ≤ fullPower := by
  cases event with
  | start now => simp [handle, start, enter]
  | tick now => exact c.tick_percent_le now
  | temperatures reading received => simp [handle]
  | power reading received => simp [handle]
  | shutdown =>
    rw [handle, shutdown_eq]
    exact c.offCommands_percent_le

theorem sent_percent_le (c : Controller) (events : List ControlEvent) :
    ∀ command ∈ c.sent events, command.percent ≤ fullPower := by
  induction events using List.reverseRecOn with
  | nil => simp
  | append_singleton events event ih =>
    intro command hcommand
    rw [sent_concat] at hcommand
    rcases List.mem_append.mp hcommand with hbefore | hnow
    · exact ih command hbefore
    · exact (c.after events).handle_percent_le event command hnow

/-! ## Readings in order -/

/-- No temperature reading is older than one that arrives before it. -/
def InOrder (events : List ControlEvent) : Prop :=
  (events.filterMap ControlEvent.temperatures?).Pairwise fun first second =>
    first.updated ≤ second.updated

instance (events : List ControlEvent) : Decidable (InOrder events) :=
  inferInstanceAs (Decidable (List.Pairwise _ _))

theorem inOrder_concat {events : List ControlEvent} {event : ControlEvent}
    (h : InOrder (events ++ [event])) : InOrder events ∧
      ∀ first ∈ events.filterMap ControlEvent.temperatures?,
        ∀ second ∈ event.temperatures?, first.updated ≤ second.updated := by
  rw [InOrder, List.filterMap_append, List.pairwise_append] at h
  refine ⟨h.1, fun first hfirst second hsecond => h.2.2 first hfirst second ?_⟩
  rw [List.mem_filterMap]
  exact ⟨event, List.mem_singleton_self event, hsecond⟩

theorem mem_of_latest {α : Type} {reading? : ControlEvent → Option α} {events : List ControlEvent}
    {reading : α} (h : ControlEvent.latest reading? events = some reading) :
    reading ∈ events.filterMap reading? := by
  obtain ⟨event, hevent, hreading⟩ := List.exists_of_findSome?_eq_some h
  exact List.mem_filterMap.mpr ⟨event, List.mem_reverse.mp hevent, hreading⟩

/-- As long as the program is under way, both readings in hand are from after the start, and the one
in use is not newer than the live one. -/
def Fresh (start : Int) (c : Controller) : Prop :=
  c.stage.isUnderWay = true → start ≤ c.live.temperatures.updated ∧
    c.used.temperatures.updated ≤ c.live.temperatures.updated

theorem fresh_tick {start : Int} {c : Controller} (now : Int) (hstart : c.startedAt = start)
    (h : Fresh start c) : Fresh start (c.tick now).1 := by
  -- a tick ends with the live reading in use, so it only matters that there has been one
  have hused : ∀ d : Controller, d.live = c.live → d.used = c.live →
      start ≤ c.live.temperatures.updated → Fresh start d := by
    intro d hlive hused hle _
    rw [hlive, hused]
    exact ⟨hle, Int.le_refl _⟩
  have ht := c.ticked now
  generalize (c.tick now).1 = next, (c.tick now).2 = commands at ht
  cases ht with
  | ended => exact h
  | begun | overran | finished | gaveUp => exact nofun
  | waited stage =>
    intro hnext
    rw [refreshed, stage] at hnext
    cases hnext
  | warmed stage inTime heard => exact hused _ rfl rfl (hstart ▸ heard.2)
  | lagged stage | heated stage | caughtUp stage | entered _ stage =>
    exact hused _ rfl rfl (h (by rw [stage]; rfl)).1
  | left stage => exact hused _ rfl rfl (h (Stage.isUnderWay_of_isStep stage)).1
  | regulated stage =>
    exact hused _ (c.regulate_live now) (c.regulate_live now)
      (h (Stage.isUnderWay_of_isStep stage)).1

/-- A new reading is not older than the live one, which is a reading too. -/
theorem live_le_of_inOrder {program : Program} {past : List ControlEvent} {start received : Int}
    {reading : Temperatures} (hstart : 0 < start)
    (horder : InOrder (past ++ [.temperatures reading received]))
    (h : start ≤ ((new program).after past).live.temperatures.updated) :
    ((new program).after past).live.temperatures.updated ≤ received := by
  rw [live_after] at h ⊢
  cases hlatest : ControlEvent.latest ControlEvent.temperatures? past with
  | none =>
    -- before the first reading the live one is dated to second 0, which is before the start
    rw [hlatest] at h
    have hnever : start ≤ 0 := h
    omega
  | some latest =>
    exact (inOrder_concat horder).2 latest (mem_of_latest hlatest) ⟨received, reading⟩ rfl

theorem fresh_after (program : Program) (early : List ControlEvent) {events : List ControlEvent}
    {start : Int} (hstart : 0 < start) (hevents : ∀ event ∈ events, event.isStart = false)
    (horder : InOrder (early ++ .start start :: events)) :
    Fresh start ((new program).after (early ++ .start start :: events)) := by
  induction events using List.reverseRecOn with
  | nil =>
    rw [after_concat]
    exact nofun
  | append_singleton events event ih =>
    have hpast : ∀ e ∈ events, e.isStart = false := fun e he => hevents e (by simp [he])
    have hbegun : ((new program).after (early ++ .start start :: events)).startedAt = start := by
      rw [after_append]
      exact startedAt_after_start _ start hpast
    rw [← List.cons_append, ← List.append_assoc] at horder ⊢
    have hfresh := ih hpast (inOrder_concat horder).1
    rw [after_concat]
    cases event with
    | start now => cases hevents (.start now) (by simp)
    | tick now => exact fresh_tick now hbegun hfresh
    | temperatures reading received =>
      intro hstage
      obtain ⟨hlive, hused⟩ := hfresh hstage
      have hle := live_le_of_inOrder hstart horder hlive
      exact ⟨Int.le_trans hlive hle, Int.le_trans hused hle⟩
    | power reading received => exact hfresh
    | shutdown =>
      rw [handle, shutdown_eq]
      exact hfresh

/-! ## The laws -/

/-- A tick that stays in a step of an accepted program sends what the step asks for, if the reading
in use is not newer than the live one. -/
theorem tick_asks {program : Program} {past : List ControlEvent} {now : Int}
    (haccepted : program.Accepted)
    (hused : ((new program).after past).used.temperatures.updated ≤
      ((new program).after past).live.temperatures.updated)
    (hstep : ((new program).after past).stage.isStep = true)
    (hstays : (((new program).after past).tick now).1.stage = ((new program).after past).stage) :
    ∃ step percents, ((new program).after past).step? = some step ∧ step ∈ program.steps ∧
      ((new program).after past).stage = .ofKind step.kind ∧
      (((new program).after past).tick now).2 = PerChannel.commands percents ∧
      step.Asks percents ∧
      (JustEntered (new program) past → ∀ gains, step.phase .heater = .feedback gains →
        percents.heater = 0) := by
  obtain ⟨step, table, hcurrent, hmem, hkind, htable, hmade⟩ := inside_step program past hstep
  have hregulates : ((new program).after past).Regulates step table := ⟨hused, hcurrent, htable⟩
  have hsent := (tick_in_step hstep (hstays ▸ hstep)).2
  rw [regulate_of_regulates now hregulates] at hsent
  have hpercents : ∀ channel,
      (((((new program).after past).updates step table now).map Prod.snd).get channel) =
        ((table.get channel).update (if channel = .heater then step.target.getD 0 else 0)
          ((new program).after past).used.temperatures.reading.oven
          ((new program).after past).used.temperatures.reading.material
          (((new program).after past).stepPower.get channel) now).2 := by
    intro channel
    rw [PerChannel.get_map, updates, PerChannel.get_ofFn]
  refine ⟨step, _, hcurrent, hmem, hkind, hsent, ?_, ?_⟩
  · exact (haccepted.steps step hmem).asks fun channel =>
      ⟨_, _, _, _, _, _, hmade channel, hpercents channel⟩
  · intro hentered gains hphase
    have hfresh := hentered.regulators hstep hcurrent
    obtain rfl := Option.some.inj (htable.symm.trans hfresh)
    have hheater := hpercents .heater
    rw [PerChannel.get_ofFn, hphase, Regulator.update_fresh_feedback] at hheater
    exact hheater

/-- In any run of an accepted program that is started after second 0 and has its temperature readings
in order, a tick that stays in a step commands the three actuators one after the other: the fan and
the humidifier as the step has them, and the heater as it has it, or fully or not at all in a band,
or not at all on the first tick of a feedback loop. And in no run of any program, whatever its
readings are, is anything commanded above 100 percent. -/
theorem commands_are_those_of_the_step (program : Program) :
    (∀ (early events : List ControlEvent) (start : Int), program.check = .ok () → 0 < start →
      (∀ event ∈ events, event.isStart = false) → InOrder (early ++ .start start :: events) →
      ∀ (since rest : List ControlEvent) (now : Int), events = since ++ .tick now :: rest →
        let past := early ++ .start start :: since
        let c := (new program).after past
        c.stage.isStep = true → (c.tick now).1.stage = c.stage →
          ∃ step percents, c.step? = some step ∧ step ∈ program.steps ∧
            c.stage = .ofKind step.kind ∧
            (c.tick now).2 = [⟨.heater, percents.heater⟩, ⟨.fan, percents.fan⟩,
              ⟨.humidifier, percents.humidifier⟩] ∧
            step.Asks percents ∧
            (JustEntered (new program) past → ∀ gains, step.phase .heater = .feedback gains →
              percents.heater = 0)) ∧
      ∀ history, ∀ command ∈ (new program).sent history, command.percent ≤ 100 := by
  refine ⟨?_, (new program).sent_percent_le⟩
  rintro early _ start hcheck hstart hevents horder since rest now rfl past c hstep hstays
  have horder' : InOrder past := by
    rw [InOrder, ← List.cons_append, ← List.append_assoc, List.filterMap_append] at horder
    exact (List.pairwise_append.mp horder).1
  have hfresh := fresh_after program early hstart
    (fun event hevent => hevents event (by simp [hevent])) horder'
  exact tick_asks (Program.check_eq_ok_iff.mp hcheck)
    (hfresh (Stage.isUnderWay_of_isStep hstep)).2 hstep hstays

/-- A step with a feedback loop on the heater, and a program of it. -/
def feedbackStep : Step :=
  ⟨"rest", .acclimate, some 40, some 100, ⟨some (.feedback ⟨2, 0, 0⟩), some (.constant 30), some .off⟩⟩

def feedbackRest : Program := ⟨"oak", [feedbackStep], none⟩

/-- The first tick of the step: the heater is off, and the fan runs as the step has it. -/
theorem feedback_rest_has_its_commands :
    let since : List ControlEvent :=
      [.tick 2, .temperatures ⟨30, 20⟩ 2, .power .zero 2, .tick 3, .tick 4, .tick 5]
    let c := (new feedbackRest).after (.start 1 :: since)
    c.stage = .acclimate ∧ (c.tick 6).1.stage = .acclimate ∧
      (c.tick 6).2 = [⟨.heater, 0⟩, ⟨.fan, 30⟩, ⟨.humidifier, 0⟩] := by
  intro since c
  have hstage : c.stage = .acclimate := by decide
  have hstays : (c.tick 6).1.stage = .acclimate := by decide
  have hcurrent : c.step? = some feedbackStep := by decide
  have hahead : ((new feedbackRest).after (.start 1 :: since.dropLast)).stage = .nextStep := by decide
  obtain ⟨step, percents, hstep, _, _, hsent, hasks, hfirst⟩ :=
    (commands_are_those_of_the_step feedbackRest).1 [] (since ++ [.tick 6]) 1 (by decide +kernel)
      (by decide) (by decide) (by decide) since [] 6 rfl (congrArg Stage.isStep hstage)
      (hstays.trans hstage.symm)
  obtain rfl := Option.some.inj (hcurrent.symm.trans hstep)
  have hheater := hfirst ⟨.start 1 :: since.dropLast, 5, [], rfl, hahead, nofun⟩ ⟨2, 0, 0⟩ rfl
  have hfan := Regulation.constant.inj hasks.fan
  have hhumidifier := Regulation.constant.inj hasks.humidifier
  refine ⟨hstage, hstays, hsent.trans ?_⟩
  rw [hheater, ← hfan, ← hhumidifier]

end Controller
end DryKiln
