-- The laws of the command trace. A run that is started once and not stopped from outside sends the
-- fan command of its first heating, then commands to the heater alone, then commands to all three
-- actuators, and last, when its program is over, the commands that turn everything off.
import DryKiln.Proofs.Control.Shutdown

namespace DryKiln
namespace Controller

/-! ## Batches -/

/-- Commands that are sent in one event, and the events before it. -/
structure Batch where
  past : List ControlEvent
  event : ControlEvent
  commands : List Command
deriving DecidableEq

/-- What an event sends, as a batch; nothing if it sends nothing. -/
def batch (c : Controller) (past : List ControlEvent) (event : ControlEvent) : List Batch :=
  let commands := ((c.after past).handle event).2
  if commands = [] then [] else [⟨past, event, commands⟩]

/-- All commands of a history, one batch for each event that sends any. -/
def batches (c : Controller) : List ControlEvent → List Batch := observe c.batch

theorem batches_concat (c : Controller) (events : List ControlEvent) (event : ControlEvent) :
    c.batches (events ++ [event]) = c.batches events ++ c.batch events event :=
  observe_concat _ _ _

theorem batch_of_silent {c : Controller} {past : List ControlEvent} {event : ControlEvent}
    (h : ((c.after past).handle event).2 = []) : c.batch past event = [] := by
  simp [batch, h]

theorem batch_of_sent {c : Controller} {past : List ControlEvent} {event : ControlEvent}
    {commands : List Command} (h : ((c.after past).handle event).2 = commands)
    (hne : commands ≠ []) : c.batch past event = [⟨past, event, commands⟩] := by
  simp [batch, h, hne]

theorem sent_eq_batches (c : Controller) (events : List ControlEvent) :
    c.sent events = (c.batches events).flatMap Batch.commands := by
  induction events using List.reverseRecOn with
  | nil => rfl
  | append_singleton events event ih =>
    rw [sent_concat, batches_concat, List.flatMap_append, ← ih]
    by_cases h : ((c.after events).handle event).2 = []
    · rw [batch_of_silent h, h]; rfl
    · rw [batch_of_sent rfl h]; simp

/-! ## The parts of a trace -/

/-- The fan command of the first heating. Both units have been read by then, and no reading of
theirs is older than the start. -/
structure Opening (start : Int) (batch : Batch) : Prop where
  commands : batch.commands = [⟨.fan, preHeatFan⟩]
  tick : batch.event.isTick = true
  temperatures : ∃ reading,
    ControlEvent.latest ControlEvent.temperatures? batch.past = some reading ∧
      start ≤ reading.updated
  power : ∃ reading,
    ControlEvent.latest ControlEvent.power? batch.past = some reading ∧ start ≤ reading.updated

/-- A heater command of the first heating. The oven is colder than the material, and the reading in
use shows no power on the heater. -/
structure Heating (c : Controller) (batch : Batch) : Prop where
  commands : batch.commands = [⟨.heater, fullPower⟩]
  tick : batch.event.isTick = true
  stage : (c.after batch.past).stage = .preHeat
  cold : (c.after batch.past).OvenLags
  idle : (c.after batch.past).used.power.reading.heater.percent = 0

/-- The commands of a step to all three actuators. -/
structure Working (batch : Batch) : Prop where
  commands : ∃ percents : PerChannel UInt8, batch.commands = percents.commands
  tick : batch.event.isTick = true

/-- What a run sends as long as its program is not over. -/
inductive Body (c : Controller) (start : Int) : List Batch → Prop where
  | silent : Body c start []
  | opened {opening : Batch} {heats works : List Batch} (hopening : Opening start opening)
      (hheats : ∀ batch ∈ heats, Heating c batch) (hworks : ∀ batch ∈ works, Working batch) :
      Body c start (opening :: (heats ++ works))

/-- How far a trace has come in each stage. -/
def Reached (c : Controller) (start : Int) (stage : Stage) (trace : List Batch) : Prop :=
  match stage with
  | .start | .waiting => trace = []
  | .preHeat => ∃ opening heats, Opening start opening ∧ (∀ batch ∈ heats, Heating c batch) ∧
      trace = opening :: heats
  | .nextStep | .heatUp | .acclimate | .coolDown => ∃ opening heats works,
      Opening start opening ∧ (∀ batch ∈ heats, Heating c batch) ∧
        (∀ batch ∈ works, Working batch) ∧ trace = opening :: (heats ++ works)
  | .idle | .failed => ∃ body closing, Body c start body ∧ trace = body ++ [closing] ∧
      closing.commands = allOff

theorem reached_of_isStep {c : Controller} {start : Int} {stage : Stage} {trace : List Batch}
    (h : stage.isStep = true) :
    Reached c start stage trace ↔ Reached c start .nextStep trace := by
  cases stage <;> simp_all [Stage.isStep, Reached]

/-- Before the program is over a trace has no last part. -/
theorem Reached.body {c : Controller} {start : Int} {stage : Stage} {trace : List Batch}
    (h : Reached c start stage trace) (hs : stage.isTerminal = false) : Body c start trace := by
  cases stage with
  | start | waiting =>
    obtain rfl : trace = [] := h
    exact .silent
  | preHeat =>
    obtain ⟨opening, heats, hopening, hheats, rfl⟩ := h
    rw [← List.append_nil heats]
    exact .opened hopening hheats (by simp)
  | nextStep | heatUp | acclimate | coolDown =>
    obtain ⟨opening, heats, works, hopening, hheats, hworks, rfl⟩ := h
    exact .opened hopening hheats hworks
  | idle | failed => simp [Stage.isTerminal] at hs

theorem Reached.work {c : Controller} {start : Int} {trace : List Batch} {batch : Batch}
    (h : Reached c start .nextStep trace) (hbatch : Working batch) :
    Reached c start .nextStep (trace ++ [batch]) := by
  obtain ⟨opening, heats, works, hopening, hheats, hworks, rfl⟩ := h
  refine ⟨opening, heats, works ++ [batch], hopening, hheats, ?_, by simp⟩
  intro other hother
  rcases List.mem_append.mp hother with hother | hother
  · exact hworks other hother
  · rw [List.mem_singleton.mp hother]; exact hbatch

theorem Reached.heat {c : Controller} {start : Int} {trace : List Batch} {batch : Batch}
    (h : Reached c start .preHeat trace) (hbatch : Heating c batch) :
    Reached c start .preHeat (trace ++ [batch]) := by
  obtain ⟨opening, heats, hopening, hheats, rfl⟩ := h
  refine ⟨opening, heats ++ [batch], hopening, ?_, rfl⟩
  intro other hother
  rcases List.mem_append.mp hother with hother | hother
  · exact hheats other hother
  · rw [List.mem_singleton.mp hother]; exact hbatch

theorem Reached.advance {c : Controller} {start : Int} {trace : List Batch}
    (h : Reached c start .preHeat trace) : Reached c start .nextStep trace := by
  obtain ⟨opening, heats, hopening, hheats, rfl⟩ := h
  exact ⟨opening, heats, [], hopening, hheats, by simp, by simp⟩

/-! ## One event -/

/-- Events after a start: the run is not started again, and not stopped from outside. -/
def Undisturbed (events : List ControlEvent) : Prop :=
  ∀ event ∈ events, event.isStart = false ∧ event.isShutdown = false

instance (events : List ControlEvent) : Decidable (Undisturbed events) :=
  inferInstanceAs (Decidable (∀ event ∈ events, _))

theorem undisturbed_append {first second : List ControlEvent} :
    Undisturbed (first ++ second) ↔ Undisturbed first ∧ Undisturbed second :=
  List.forall_mem_append

theorem undisturbed_singleton {event : ControlEvent} :
    Undisturbed [event] ↔ event.isStart = false ∧ event.isShutdown = false :=
  List.forall_mem_singleton

/-- Without a shutdown from outside the actuators are turned off when the program is over, and only
then. -/
theorem stopped_after_eq_isTerminal {c : Controller} (hc : c.stopped = c.stage.isTerminal)
    {events : List ControlEvent} (hevents : ∀ event ∈ events, event.isShutdown = false) :
    (c.after events).stopped = (c.after events).stage.isTerminal := by
  refine after_invariant (P := fun d => d.stopped = d.stage.isTerminal)
    (A := fun event => event.isShutdown = false) ?_ c events hevents hc
  intro d event hshutdown hd
  cases event with
  | start now => rfl
  | tick now =>
    rcases d.tick_ends_or_goes_on now with ⟨hstage, hstopped⟩ | ⟨_, hover, hstopped, _⟩
    · exact hstopped.trans (hd.trans hstage.symm)
    · exact hstopped.trans hover.symm
  | temperatures reading received => exact hd
  | power reading received => exact hd
  | shutdown => simp [ControlEvent.isShutdown] at hshutdown

/-- A run that has been started and is not stopped from outside. -/
theorem stopped_eq_isTerminal (c : Controller) (start : Int) {events : List ControlEvent}
    (hevents : Undisturbed events) :
    (c.after (.start start :: events)).stopped =
      (c.after (.start start :: events)).stage.isTerminal :=
  stopped_after_eq_isTerminal (c := (c.start start).1) rfl fun event hevent =>
    (hevents event hevent).2

/-- A unit that has been heard of since the start has sent a reading. -/
theorem latest_of_fresh {α : Type} {reading? : ControlEvent → Option (Snapshot α)}
    {events : List ControlEvent} {start : Int} {unread : Snapshot α} (hunread : unread.updated < start)
    (h : start ≤ ((ControlEvent.latest reading? events).getD unread).updated) :
    ∃ reading, ControlEvent.latest reading? events = some reading ∧ start ≤ reading.updated := by
  cases hlatest : ControlEvent.latest reading? events with
  | none =>
    rw [hlatest, Option.getD_none] at h
    omega
  | some reading =>
    rw [hlatest, Option.getD_some] at h
    exact ⟨reading, rfl, h⟩

theorem opening_of_heardOfBoth (program : Program) (now : Int) {start : Int}
    {events : List ControlEvent} (hstart : 0 < start) (hevents : Undisturbed events)
    (heard : ((new program).after (.start start :: events)).HeardOfBoth) :
    Opening start ⟨.start start :: events, .tick now, [⟨.fan, preHeatFan⟩]⟩ := by
  obtain ⟨hpower, htemperatures⟩ := heard
  -- what stands for a reading before the first one is dated to second 0, which is before the start
  have hbegin := (new program).startedAt_after_start start fun e he => (hevents e he).1
  rw [hbegin, live_after] at hpower htemperatures
  exact ⟨rfl, rfl, latest_of_fresh hstart htemperatures, latest_of_fresh hstart hpower⟩

/-- The last part of a trace is written when the program is over. -/
theorem reached_over {c : Controller} {start : Int} {stage next : Stage} {trace : List Batch}
    {past : List ControlEvent} {event : ControlEvent} (h : Reached c start stage trace)
    (hs : stage.isTerminal = false) (hn : next.isTerminal = true) :
    Reached c start next (trace ++ [⟨past, event, allOff⟩]) := by
  have hbody := h.body hs
  cases next <;> simp [Stage.isTerminal] at hn <;> exact ⟨trace, _, hbody, rfl, rfl⟩

/-- A tick adds to a trace what the stage that it ends in allows. -/
theorem reached_tick {program : Program} {start now : Int} {events : List ControlEvent}
    (hstart : 0 < start) (hevents : Undisturbed events)
    (h : Reached (new program) start ((new program).after (.start start :: events)).stage
      ((new program).batches (.start start :: events))) :
    Reached (new program) start
      (((new program).after (.start start :: events)).tick now).1.stage
      ((new program).batches (.start start :: events) ++
        (new program).batch (.start start :: events) (.tick now)) := by
  have hstopped := stopped_eq_isTerminal (new program) start hevents
  have hopening := opening_of_heardOfBoth program now hstart hevents
  generalize hpast : ControlEvent.start start :: events = past at *
  generalize hc : (new program).after past = c at *
  generalize (new program).batches past = trace at *
  have hquiet : (c.tick now).2 = [] → (new program).batch past (.tick now) = [] := by
    intro hsent
    exact batch_of_silent (by rw [hc]; exact hsent)
  have hloud : ∀ commands, (c.tick now).2 = commands → commands ≠ [] →
      (new program).batch past (.tick now) = [⟨past, .tick now, commands⟩] := by
    intro commands hsent hne
    exact batch_of_sent (by rw [hc]; exact hsent) hne
  -- the actuators are off only when the program is over, so they are turned off by the tick that
  -- ends it
  have hoff : c.stage.isTerminal = false → c.offCommands = allOff := by
    intro active
    exact offCommands_of_not_stopped (hstopped.trans active)
  have ht := c.ticked now
  generalize (c.tick now).1 = next, (c.tick now).2 = sent at *
  cases ht with
  | ended => rwa [hquiet rfl, List.append_nil]
  | begun stage =>
    rw [stage] at h
    rwa [hquiet rfl, List.append_nil]
  | overran _ active late =>
    rw [hloud _ (hoff active) (PerChannel.commands_ne_nil _)]
    exact reached_over h active rfl
  | waited stage =>
    rw [stage] at h
    rw [hquiet rfl, List.append_nil]
    simpa only [refreshed, stage] using h
  | warmed stage _ heard =>
    rw [stage] at h
    obtain rfl : trace = [] := h
    rw [hloud _ rfl (by simp)]
    exact ⟨_, [], hopening heard, by simp, rfl⟩
  | lagged stage => rwa [hquiet rfl, List.append_nil]
  | heated stage _ cold idle =>
    rw [hloud _ rfl (by simp)]
    rw [stage] at h
    simp only [refreshed, stage]
    refine h.heat ⟨rfl, rfl, ?_, ?_, ?_⟩
    · rw [hc, stage]
    · rw [hc]; exact cold
    · rw [hc]; exact idle
  | caughtUp stage =>
    rw [stage] at h
    rw [hquiet rfl, List.append_nil]
    exact h.advance
  | entered step stage =>
    rw [stage] at h
    rw [hquiet rfl, List.append_nil]
    exact (reached_of_isStep (Stage.isStep_ofKind step.kind)).mpr h
  | finished stage =>
    have active : c.stage.isTerminal = false := by simp [stage, Stage.isTerminal]
    rw [hloud _ (hoff active) (PerChannel.commands_ne_nil _)]
    exact reached_over h active rfl
  | left stage =>
    rw [hquiet rfl, List.append_nil]
    exact (reached_of_isStep stage).mp h
  | gaveUp _ late =>
    have active : c.stage.isTerminal = false := by simp [late.1, Stage.isTerminal]
    rw [hloud _ (hoff active) (PerChannel.commands_ne_nil _)]
    exact reached_over h active rfl
  | regulated stage =>
    have hstage : (c.regulate now).1.refreshed.stage = c.stage := c.regulate_stage now
    rw [hstage]
    rcases c.regulate_cases now with hreg | ⟨step, table, _, hreg⟩
    · rwa [hquiet (by rw [hreg]), List.append_nil]
    · rw [hloud _ (by rw [hreg]) (PerChannel.commands_ne_nil _)]
      rw [reached_of_isStep stage] at h ⊢
      exact h.work ⟨⟨_, rfl⟩, rfl⟩

/-! ## Whole runs -/

theorem reached (program : Program) {start : Int} {events : List ControlEvent} (hstart : 0 < start)
    (hevents : Undisturbed events) :
    Reached (new program) start ((new program).after (.start start :: events)).stage
      ((new program).batches (.start start :: events)) := by
  induction events using List.reverseRecOn with
  | nil => rfl
  | append_singleton events event ih =>
    obtain ⟨hpast, hevent⟩ := undisturbed_append.mp hevents
    obtain ⟨hnotStart, hnotShutdown⟩ := undisturbed_singleton.mp hevent
    have h := ih hpast
    rw [← List.cons_append, after_concat, batches_concat]
    -- a reading sends nothing and changes no stage
    cases event with
    | start now => simp [ControlEvent.isStart] at hnotStart
    | tick now => exact reached_tick hstart hpast h
    | temperatures reading received =>
      rw [batch_of_silent rfl, List.append_nil]
      exact h
    | power reading received =>
      rw [batch_of_silent rfl, List.append_nil]
      exact h
    | shutdown => simp [ControlEvent.isShutdown] at hnotShutdown

/-- A trace has a last part when the program is over, and only then. -/
theorem Reached.split {c : Controller} {start : Int} {stage : Stage} {trace : List Batch}
    (h : Reached c start stage trace) :
    ∃ body closing, trace = body ++ closing ∧ Body c start body ∧
      closing.map Batch.commands = if stage.isTerminal then [allOff] else [] := by
  by_cases hs : stage.isTerminal = true
  · have hover : ∃ body closing, Body c start body ∧ trace = body ++ [closing] ∧
        closing.commands = allOff := by
      cases stage <;> first | exact h | simp [Stage.isTerminal] at hs
    obtain ⟨body, closing, hbody, rfl, hclosing⟩ := hover
    exact ⟨body, [closing], rfl, hbody, by simp [hs, hclosing]⟩
  · have active : stage.isTerminal = false := by simpa using hs
    exact ⟨trace, [], by simp, h.body active, by simp [active]⟩

/-- What a run sends before its program is over. -/
inductive BodyCommands : List Command → Prop where
  | silent : BodyCommands []
  | opened (heats : Nat) (works : List (PerChannel UInt8)) :
      BodyCommands (⟨.fan, preHeatFan⟩ ::
        (List.replicate heats ⟨.heater, fullPower⟩ ++ works.flatMap PerChannel.commands))

theorem commands_of_heats {c : Controller} {heats : List Batch}
    (h : ∀ batch ∈ heats, Heating c batch) :
    heats.flatMap Batch.commands = List.replicate heats.length ⟨.heater, fullPower⟩ := by
  induction heats with
  | nil => rfl
  | cons batch rest ih =>
    rw [List.flatMap_cons, (h batch (by simp)).commands, ih fun b hb => h b (by simp [hb])]
    rfl

theorem commands_of_works {works : List Batch} (h : ∀ batch ∈ works, Working batch) :
    ∃ tables : List (PerChannel UInt8),
      works.flatMap Batch.commands = tables.flatMap PerChannel.commands := by
  induction works with
  | nil => exact ⟨[], rfl⟩
  | cons batch rest ih =>
    obtain ⟨percents, hpercents⟩ := (h batch (by simp)).commands
    obtain ⟨tables, htables⟩ := ih fun b hb => h b (by simp [hb])
    exact ⟨percents :: tables, by rw [List.flatMap_cons, hpercents, htables, List.flatMap_cons]⟩

theorem Body.commands {c : Controller} {start : Int} {body : List Batch} (h : Body c start body) :
    BodyCommands (body.flatMap Batch.commands) := by
  cases h with
  | silent => exact .silent
  | @opened opening heats works hopening hheats hworks =>
    obtain ⟨tables, htables⟩ := commands_of_works hworks
    rw [List.flatMap_cons, List.flatMap_append, hopening.commands, commands_of_heats hheats, htables]
    exact .opened heats.length tables

/-- Once the program is over, nothing but the live readings changes, and nothing is sent. -/
theorem run_of_isTerminal {c : Controller} (h : c.stage.isTerminal = true)
    {events : List ControlEvent} (hevents : Undisturbed events) :
    c.after events = { c with live := (c.after events).live } ∧ c.sent events = [] := by
  induction events using List.reverseRecOn with
  | nil => exact ⟨rfl, rfl⟩
  | append_singleton events event ih =>
    obtain ⟨hpast, hevent⟩ := undisturbed_append.mp hevents
    obtain ⟨hnotStart, hnotShutdown⟩ := undisturbed_singleton.mp hevent
    obtain ⟨hafter, hsent⟩ := ih hpast
    have hover : (c.after events).stage.isTerminal = true := by rw [hafter]; exact h
    rw [after_concat, sent_concat, hsent]
    cases event with
    | start now => simp [ControlEvent.isStart] at hnotStart
    | tick now =>
      rw [handle, tick_of_isTerminal now hover]
      exact ⟨hafter, rfl⟩
    | temperatures reading received =>
      refine ⟨?_, rfl⟩
      simp only [handle, recordTemperatures]
      rw [hafter]
    | power reading received =>
      refine ⟨?_, rfl⟩
      simp only [handle, recordPower]
      rw [hafter]
    | shutdown => simp [ControlEvent.isShutdown] at hnotShutdown

/-! ## The laws -/

/-- What a run sends that is started once, after second 0, and not stopped from outside: nothing, or
the fan command of the first heating, then commands to the heater alone, then commands to all three
actuators; and last, when its program is over and only then, the commands that turn all three off.
After these no tick and no reading sends anything, or changes the stage or the status. -/
theorem trace_comes_in_four_parts (program : Program) (start : Int) (events : List ControlEvent)
    (hstart : 0 < start) (hevents : Undisturbed events) :
    let c := (new program).after (.start start :: events)
    ∃ body closing : List Batch,
      (new program).batches (.start start :: events) = body ++ closing ∧
      Body (new program) start body ∧
      closing.map Batch.commands = (if c.isOver then [allOff] else []) ∧
      BodyCommands (body.flatMap Batch.commands) ∧
      (new program).sent (.start start :: events) =
        body.flatMap Batch.commands ++ (if c.isOver then allOff else []) ∧
      (c.isOver = true → ∀ later, Undisturbed later →
        c.sent later = [] ∧ (c.after later).stage = c.stage ∧
          (c.after later).status = c.status) := by
  intro c
  obtain ⟨body, closing, htrace, hbody, hclosing⟩ := (reached program hstart hevents).split
  refine ⟨body, closing, htrace, hbody, hclosing, hbody.commands, ?_, ?_⟩
  · rw [sent_eq_batches, htrace, List.flatMap_append, List.append_right_inj,
      List.flatMap_def (l := closing), hclosing]
    change (if c.isOver then [allOff] else []).flatten = _
    split <;> simp
  · intro hover later hlater
    obtain ⟨hafter, hsent⟩ := run_of_isTerminal hover hlater
    exact ⟨hsent, by rw [hafter], by rw [hafter]; rfl⟩

/-- A run of one heated step, with an oven that is colder than the material at first. -/
theorem one_heated_rest_comes_in_four_parts :
    let events : List ControlEvent := [.tick 2, .temperatures ⟨20, 30⟩ 2, .power .zero 2, .tick 3,
      .tick 4, .temperatures ⟨40, 30⟩ 5, .tick 5, .tick 6, .tick 7, .tick 20, .tick 21]
    0 < (1 : Int) ∧ Undisturbed events ∧
      ((new oneHeatedRest).after (.start 1 :: events)).stage = .idle ∧
      ∃ body : List Batch, Body (new oneHeatedRest) 1 body ∧
        body.map Batch.commands = [[⟨.fan, 50⟩], [⟨.heater, 100⟩],
          [⟨.heater, 100⟩, ⟨.fan, 0⟩, ⟨.humidifier, 0⟩]] ∧
        (new oneHeatedRest).sent (.start 1 :: events) = body.flatMap Batch.commands ++ allOff := by
  intro events
  have hidle : ((new oneHeatedRest).after (.start 1 :: events)).stage = .idle := by decide
  have hover : ((new oneHeatedRest).after (.start 1 :: events)).isOver = true := by
    rw [isOver, hidle]
    rfl
  have hbatches : ((new oneHeatedRest).batches (.start 1 :: events)).map Batch.commands =
      [[⟨.fan, 50⟩], [⟨.heater, 100⟩], [⟨.heater, 100⟩, ⟨.fan, 0⟩, ⟨.humidifier, 0⟩]] ++
        [allOff] := by decide
  have hundisturbed : Undisturbed events := by decide
  obtain ⟨body, closing, htrace, hbody, hclosing, _, hsent, _⟩ :=
    trace_comes_in_four_parts oneHeatedRest 1 events (by decide) hundisturbed
  rw [if_pos hover] at hclosing hsent
  rw [htrace, List.map_append, hclosing] at hbatches
  exact ⟨by decide, hundisturbed, hidle, body, hbody, List.append_cancel_right hbatches, hsent⟩

end Controller
end DryKiln
