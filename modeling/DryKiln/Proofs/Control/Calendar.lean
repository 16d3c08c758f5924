-- Runs do not depend on the calendar. When all seconds of a history are moved by the same amount, the
-- controller does the same, only so much later. What could tell the time of day is the zero that
-- stands for a reading that has not arrived: it is compared only with what has been there since the
-- start, and a start is never at zero or before. Differences of seconds are the same then also where
-- they do not fit into a word.
import DryKiln.Proofs.Control.Position
import DryKiln.Proofs.Time.Clock

namespace DryKiln

/-! ## Moved seconds -/

/-- The memory of a loop whose samples have been taken so much later. -/
def Feedback.later (k : Int) (loop : Feedback) : Feedback :=
  { loop with lastUpdate := loop.lastUpdate.map (· + k) }

def Regulator.later (k : Int) (regulator : Regulator) : Regulator :=
  { regulator with loop := regulator.loop.later k }

/-- The same event, so much later. -/
def ControlEvent.later (k : Int) : ControlEvent → ControlEvent
  | start now => start (now + k)
  | tick now => tick (now + k)
  | temperatures reading received => temperatures reading (received + k)
  | power reading received => power reading (received + k)
  | shutdown => shutdown

def Status.later (k : Int) (status : Status) : Status :=
  { status with startedAt := status.startedAt + k, stepStartedAt := status.stepStartedAt + k }

/-- The same view, except for the two seconds that are shown. -/
def Controller.View.later (k : Int) (view : View) : View :=
  { view with status := view.status.later k }

/-- The second snapshot is of the same reading, received so much later; or both stand for a reading
that has not arrived. -/
def Snapshot.Later {α : Type} (k : Int) (first second : Snapshot α) : Prop :=
  second.reading = first.reading ∧
    (second.updated = first.updated + k ∨ first.updated = 0 ∧ second.updated = 0)

theorem Snapshot.later_self {α : Type} (k : Int) {snapshot : Snapshot α} (h : snapshot.updated = 0) :
    snapshot.Later k snapshot := ⟨rfl, Or.inr ⟨h, h⟩⟩

/-- A second above zero tells a reading that has arrived from one that has not. -/
theorem Snapshot.Later.le_iff {α : Type} {k second : Int} {first moved : Snapshot α}
    (h : first.Later k moved) (hsecond : 0 < second ∧ 0 < second + k) :
    second + k ≤ moved.updated ↔ second ≤ first.updated := by
  obtain ⟨hpos, hposLater⟩ := hsecond
  rcases h.2 with hmoved | ⟨hfirst, hmoved⟩
  · rw [hmoved]
    omega
  · rw [hmoved, hfirst]
    omega

/-- A reading that has arrived after such a second has been moved. -/
theorem Snapshot.Later.updated_eq {α : Type} {k second : Int} {first moved : Snapshot α}
    (h : first.Later k moved) (hsecond : 0 < second) (hle : second ≤ first.updated) :
    moved.updated = first.updated + k := by
  rcases h.2 with hmoved | ⟨hfirst, -⟩
  · exact hmoved
  · omega

/-! ## One regulator -/

/-- The loop looks at the time since the latest sample, and at no other. -/
theorem Feedback.sample_later (k : Int) (loop : Feedback) (gains : Gains) (error : Float32)
    (now : Int) : (loop.later k).sample gains error (now + k) =
      ((loop.sample gains error now).1.later k, (loop.sample gains error now).2) := by
  obtain ⟨previous, integral, derivative, latest⟩ := loop
  cases latest with
  | none => rfl
  | some last =>
    simp only [later, sample, observe, Option.map_some, secondsSince_add_right, correction]
    by_cases hlt : 0 < secondsSince last now
    · simp only [if_pos hlt, Option.map_some]
    · simp only [if_neg hlt, Option.map_some]

theorem Regulator.update_later (k : Int) (regulator : Regulator) (setpoint oven material : Float32)
    (previous : UInt8) (now : Int) :
    (regulator.later k).update setpoint oven material previous (now + k) =
      ((regulator.update setpoint oven material previous now).1.later k,
        (regulator.update setpoint oven material previous now).2) := by
  obtain ⟨regulation, loop⟩ := regulator
  cases regulation with
  | constant percent | band low high => rfl
  | feedback gains =>
    unfold update
    simp only [later, Feedback.sample_later]

namespace Controller

/-! ## The moved controller -/

/-- The controller after the moved history, which has these readings in hand. -/
def later (k : Int) (live used : Observed) (c : Controller) : Controller :=
  { c with
    startedAt := c.startedAt + k
    stepStartedAt := c.stepStartedAt + k
    regulators := c.regulators.map fun table => table.map (Regulator.later k)
    live
    used }

/-- What the two controllers have in hand: the same readings, moved or not yet arrived. Once the
program is under way, the temperatures have arrived. -/
structure Accords (k : Int) (c : Controller) (live used : Observed) : Prop where
  started : 0 < c.startedAt ∧ 0 < c.startedAt + k
  liveTemperatures : c.live.temperatures.Later k live.temperatures
  livePower : c.live.power.Later k live.power
  usedTemperatures : c.used.temperatures.Later k used.temperatures
  usedPower : c.used.power.Later k used.power
  liveArrived : c.stage.isUnderWay = true →
    live.temperatures.updated = c.live.temperatures.updated + k
  usedArrived : c.stage.isUnderWay = true →
    used.temperatures.updated = c.used.temperatures.updated + k

variable {k now : Int} {c : Controller} {live used : Observed}

@[simp] theorem later_overdue : (c.later k live used).overdue (now + k) = c.overdue now := by
  simp only [overdue, later, secondsSince_add_right]

@[simp] theorem later_elapsed (limit : UInt64) :
    (c.later k live used).elapsed (now + k) limit = c.elapsed now limit := by
  simp only [elapsed, later, secondsSince_add_right]

@[simp] theorem later_elapsed_eq : (c.later k live used).elapsed (now + k) = c.elapsed now :=
  funext fun limit => later_elapsed limit

theorem Accords.heardOfBoth_iff (h : Accords k c live used) :
    (c.later k live used).HeardOfBoth ↔ c.HeardOfBoth :=
  and_congr (h.livePower.le_iff h.started) (h.liveTemperatures.le_iff h.started)

theorem Accords.ovenLags_iff (h : Accords k c live used) :
    (c.later k live used).OvenLags ↔ c.OvenLags := by
  unfold OvenLags
  rw [← h.liveTemperatures.1]
  rfl

theorem Accords.stepOver_iff (h : Accords k c live used) :
    (c.later k live used).StepOver (now + k) ↔ c.StepOver now := by
  have hreading : (c.later k live used).used.temperatures.reading = c.used.temperatures.reading :=
    h.usedTemperatures.1
  unfold StepOver
  rw [later_elapsed_eq, hreading]
  rfl

theorem Accords.stepFailed_iff (h : Accords k c live used) :
    (c.later k live used).StepFailed (now + k) ↔ c.StepFailed now := by
  have hreading : (c.later k live used).used.temperatures.reading = c.used.temperatures.reading :=
    h.usedTemperatures.1
  unfold StepFailed
  rw [later_elapsed_eq, hreading]
  rfl

/-- The three regulators of the moved controller, after one update each. -/
theorem Accords.updates (h : Accords k c live used) (step : Step) (table : PerChannel Regulator) :
    (c.later k live used).updates step (table.map (Regulator.later k)) (now + k) =
      (c.updates step table now).map fun updated => (updated.1.later k, updated.2) := by
  have hreading : (c.later k live used).used.temperatures.reading = c.used.temperatures.reading :=
    h.usedTemperatures.1
  unfold Controller.updates
  simp only [hreading, PerChannel.get_map, Regulator.update_later]
  rfl

/-- In a step the moved controller regulates as the other one does. -/
theorem Accords.regulate (h : Accords k c live used) (hstage : c.stage.isStep = true) :
    (c.later k live used).regulate (now + k) =
      ((c.regulate now).1.later k live used, (c.regulate now).2) := by
  have hunderWay := Stage.isUnderWay_of_isStep hstage
  have hnew : used.temperatures.updated ≤ live.temperatures.updated ↔
      c.used.temperatures.updated ≤ c.live.temperatures.updated := by
    rw [h.liveArrived hunderWay, h.usedArrived hunderWay]
    omega
  by_cases hreg : ∃ step table, c.Regulates step table
  · obtain ⟨step, table, hreg⟩ := hreg
    have hregLater : (c.later k live used).Regulates step (table.map (Regulator.later k)) := by
      refine ⟨hnew.mpr hreg.1, hreg.2.1, ?_⟩
      simp only [later, hreg.2.2, Option.map_some]
    rw [regulate_of_regulates now hreg, regulate_of_regulates (now + k) hregLater, h.updates]
    rfl
  · have hregLater : ∀ step table, ¬ (c.later k live used).Regulates step table := by
      rintro step table ⟨hle, hstep, htable⟩
      obtain ⟨first, hfirst, -⟩ := Option.map_eq_some_iff.mp htable
      exact hreg ⟨step, first, hnew.mp hle, hstep, hfirst⟩
    rw [regulate_eq_self (now + k) hregLater,
      regulate_eq_self now fun step table h => hreg ⟨step, table, h⟩]

theorem Accords.status (h : Accords k c live used) :
    (c.later k live used).status = c.status.later k := by
  have htemperatures : used.temperatures.reading = c.used.temperatures.reading :=
    h.usedTemperatures.1
  have hpower : used.power.reading = c.used.power.reading := h.usedPower.1
  simp only [Controller.status, later, htemperatures, hpower]
  rfl

/-! ## One event -/

/-- A tick that goes on ends with the live readings in use. -/
theorem Accords.refreshed {next : Controller} (h : Accords k c live used)
    (hstarted : next.startedAt = c.startedAt) (hlive : next.live = c.live)
    (hused : next.used = c.live)
    (harrived : next.stage.isUnderWay = true →
      live.temperatures.updated = c.live.temperatures.updated + k) : Accords k next live live where
  started := by
    rw [hstarted]
    exact h.started
  liveTemperatures := hlive ▸ h.liveTemperatures
  livePower := hlive ▸ h.livePower
  usedTemperatures := hused ▸ h.liveTemperatures
  usedPower := hused ▸ h.livePower
  liveArrived := hlive ▸ harrived
  usedArrived := hused ▸ harrived

/-- A tick so much later comes to the same, so much later. -/
theorem Ticked.later {next : Controller} {sent : List Command} (h : Accords k c live used)
    (ht : Ticked c now next sent) :
    ∃ inUse, Ticked (c.later k live used) (now + k) (next.later k live inUse) sent ∧
      Accords k next live inUse := by
  have harrived : c.stage.isUnderWay = true →
      live.temperatures.updated = c.live.temperatures.updated + k := h.liveArrived
  cases ht with
  | ended stage => exact ⟨used, .ended stage, h⟩
  | begun stage => exact ⟨live, .begun stage, h.refreshed rfl rfl rfl nofun⟩
  | overran started active late =>
    exact ⟨live, .overran started active (later_overdue.trans late), h.refreshed rfl rfl rfl nofun⟩
  | waited stage inTime deaf =>
    have hdeaf := mt h.heardOfBoth_iff.mp deaf
    exact ⟨live, .waited stage (later_overdue.trans inTime) hdeaf, h.refreshed rfl rfl rfl harrived⟩
  | warmed stage inTime heard =>
    have hheard := h.heardOfBoth_iff.mpr heard
    refine ⟨live, .warmed stage (later_overdue.trans inTime) hheard, h.refreshed rfl rfl rfl ?_⟩
    intro _
    exact h.liveTemperatures.updated_eq h.started.1 heard.2
  | lagged stage inTime cold heating =>
    have hcold := h.ovenLags_iff.mpr cold
    have hheating : used.power.reading.heater.percent ≠ 0 := by
      rw [h.usedPower.1]
      exact heating
    exact ⟨live, .lagged stage (later_overdue.trans inTime) hcold hheating,
      h.refreshed rfl rfl rfl harrived⟩
  | heated stage inTime cold idle =>
    have hcold := h.ovenLags_iff.mpr cold
    have hidle : used.power.reading.heater.percent = 0 := by
      rw [h.usedPower.1]
      exact idle
    exact ⟨live, .heated stage (later_overdue.trans inTime) hcold hidle,
      h.refreshed rfl rfl rfl harrived⟩
  | caughtUp stage inTime warm =>
    have hwarm := mt h.ovenLags_iff.mp warm
    refine ⟨live, .caughtUp stage (later_overdue.trans inTime) hwarm, h.refreshed rfl rfl rfl ?_⟩
    exact fun _ => harrived (by rw [stage]; rfl)
  | entered step stage inTime next =>
    refine ⟨live, .entered step stage (later_overdue.trans inTime) next, h.refreshed rfl rfl rfl ?_⟩
    exact fun _ => harrived (by rw [stage]; rfl)
  | finished stage inTime past =>
    exact ⟨live, .finished stage (later_overdue.trans inTime) past, h.refreshed rfl rfl rfl nofun⟩
  | left stage inTime complete =>
    have hcomplete := h.stepOver_iff.mpr complete
    refine ⟨live, .left stage (later_overdue.trans inTime) hcomplete, h.refreshed rfl rfl rfl ?_⟩
    exact fun _ => harrived (Stage.isUnderWay_of_isStep stage)
  | gaveUp inTime late =>
    have hlate := h.stepFailed_iff.mpr late
    exact ⟨live, .gaveUp (later_overdue.trans inTime) hlate, h.refreshed rfl rfl rfl nofun⟩
  | regulated stage inTime goesOn holds =>
    have hgoesOn := mt h.stepOver_iff.mp goesOn
    have hholds := mt h.stepFailed_iff.mp holds
    have htick : Ticked (c.later k live used) (now + k) _ _ :=
      .regulated stage (later_overdue.trans inTime) hgoesOn hholds
    rw [h.regulate stage] at htick
    have hlive : (c.regulate now).1.live = c.live := c.regulate_live now
    refine ⟨live, htick, h.refreshed (c.regulate_startedAt now) hlive hlive ?_⟩
    exact fun _ => harrived (Stage.isUnderWay_of_isStep stage)

/-- A reading that arrives is received so much later. -/
theorem Accords.recordTemperatures (h : Accords k c live used) (reading : Temperatures)
    (received : Int) : Accords k (c.recordTemperatures reading received)
      { live with temperatures := ⟨received + k, reading⟩ } used :=
  { h with liveTemperatures := ⟨rfl, Or.inl rfl⟩, liveArrived := fun _ => rfl }

theorem Accords.recordPower (h : Accords k c live used) (reading : PowerReading) (received : Int) :
    Accords k (c.recordPower reading received)
      { live with power := ⟨received + k, reading⟩ } used :=
  { h with livePower := ⟨rfl, Or.inl rfl⟩ }

/-- A start so much later. -/
theorem Accords.start (h : Accords k c live used) (hnow : 0 < now ∧ 0 < now + k) :
    Accords k (c.start now).1 live used :=
  { h with started := hnow, liveArrived := nofun, usedArrived := nofun }

/-- The moved controller answers the moved event as the other one does. -/
theorem Accords.handle (h : Accords k c live used) {event : ControlEvent}
    (hstart : ∀ second, event = .start second → 0 < second ∧ 0 < second + k) :
    ∃ live' used', (c.later k live used).handle (event.later k) =
        ((c.handle event).1.later k live' used', (c.handle event).2) ∧
      Accords k (c.handle event).1 live' used' := by
  cases event with
  | start second =>
    exact ⟨live, used, rfl, h.start (hstart second rfl)⟩
  | tick second =>
    obtain ⟨inUse, htick, hnext⟩ := (c.ticked second).later h
    exact ⟨live, inUse, htick.tick_eq, hnext⟩
  | temperatures reading received => exact ⟨_, used, rfl, h.recordTemperatures reading received⟩
  | power reading received => exact ⟨_, used, rfl, h.recordPower reading received⟩
  | shutdown =>
    refine ⟨live, used, ?_, ?_⟩
    · rw [ControlEvent.later, Controller.handle, Controller.handle, shutdown_eq, shutdown_eq]
      rfl
    · rw [Controller.handle, shutdown_eq]
      exact { h with }

/-! ## The law -/

theorem Accords.views (h : Accords k c live used) {events : List ControlEvent}
    (hstarts : ∀ second, .start second ∈ events → 0 < second ∧ 0 < second + k) :
    (c.later k live used).views (events.map (ControlEvent.later k)) =
      (c.views events).map (View.later k) := by
  induction events generalizing c live used with
  | nil => rfl
  | cons event events ih =>
    obtain ⟨live', used', hhandle, hnext⟩ := h.handle fun second hsecond =>
      hstarts second (hsecond ▸ List.mem_cons_self)
    have hrest := ih hnext fun second hsecond => hstarts second (List.mem_cons_of_mem _ hsecond)
    have hview : (c.later k live used).view (event.later k) = (c.view event).later k := by
      simp only [view, hhandle, hnext.status]
      rfl
    rw [List.map_cons, Controller.views, Controller.views, List.map_cons, hview, hhandle, hrest]

/-- Runs do not depend on the calendar. If all seconds of a history that begins with a start are
moved by the same amount, and no start is moved to zero or before, the controller sends the same
commands, goes through the same stages and positions and shows the same, except that the seconds of
the start and of the step are moved, too. -/
theorem calendar_makes_no_difference (program : Program) (k now : Int) (events : List ControlEvent)
    (hstarts : ∀ second, .start second ∈ .start now :: events → 0 < second ∧ 0 < second + k) :
    (new program).views ((.start now :: events).map (ControlEvent.later k)) =
      ((new program).views (.start now :: events)).map (View.later k) := by
  have hnow := hstarts now List.mem_cons_self
  -- nothing has arrived yet, so nothing has been moved
  have hnothing : Accords k ((new program).start now).1 .nothing .nothing :=
    ⟨hnow, Snapshot.later_self k rfl, Snapshot.later_self k rfl, Snapshot.later_self k rfl,
      Snapshot.later_self k rfl, nofun, nofun⟩
  have hrest := hnothing.views fun second hsecond =>
    hstarts second (List.mem_cons_of_mem _ hsecond)
  exact congrArg (_ :: ·) hrest

/-- A run that is given up in a step and started again, and the same six seconds earlier. -/
theorem calendar_makes_no_difference_to_two_rests :
    let events : List ControlEvent := [.temperatures ⟨21, 20⟩ 7, .power .zero 7, .tick 8, .tick 9,
      .tick 10, .tick 11, .shutdown, .start 14, .tick 15, .tick 16, .tick 17]
    (new twoRests).views ((.start 7 :: events).map (ControlEvent.later (-6))) =
      ((new twoRests).views (.start 7 :: events)).map (View.later (-6)) := by
  intro events
  apply calendar_makes_no_difference
  intro second hsecond
  simp [events] at hsecond
  omega

end Controller
end DryKiln
