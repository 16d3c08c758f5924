-- The race of the two units. In which order the readings of one second arrive cannot be seen: until
-- the next tick a reading does nothing but take the place of the one before it, and nothing that a
-- run shows, logs or wants done looks at it. So a reading that is followed by another one of its unit
-- before the next tick might as well not have arrived.
import DryKiln.Proofs.Control.Position
import DryKiln.Proofs.Run.Shown

namespace DryKiln

/-! ## Readings -/

/-- An event, the second at which it is heard, and the answers of the sink. -/
abbrev Arrival := RunEvent × Int × SinkAnswers

namespace RunEvent

def temperatures? : RunEvent → Option Temperatures
  | temperatures reading => some reading
  | _ => none

def power? : RunEvent → Option PowerReading
  | power reading => some reading
  | _ => none

/-- The live readings with the one that arrives. -/
def receive (event : RunEvent) (now : Int) (live : Observed) : Observed :=
  match event with
  | temperatures reading => { live with temperatures := ⟨now, reading⟩ }
  | power reading => { live with power := ⟨now, reading⟩ }
  | _ => live

end RunEvent

/-- Two rows of arrivals that differ in the order in which readings arrive within one second, with
no tick among them: the readings of each unit come in their order, and only what arrives in between
is another reading. This may happen as often as one likes. -/
inductive Raced : List Arrival → List Arrival → Prop where
  | nil : Raced [] []
  | same (arrival : Arrival) {rest others : List Arrival} :
      Raced rest others → Raced (arrival :: rest) (arrival :: others)
  | window (now : Int) {first second rest others : List Arrival}
      (readings : ∀ arrival ∈ first ++ second, arrival.1.unit?.isSome ∧ arrival.2.1 = now)
      (places : second.map Prod.snd = first.map Prod.snd)
      (temperatures : second.filterMap (·.1.temperatures?) = first.filterMap (·.1.temperatures?))
      (power : second.filterMap (·.1.power?) = first.filterMap (·.1.power?)) :
      Raced rest others → Raced (first ++ rest) (second ++ others)

/-! ## What is seen -/

/-- What can be seen of a run during an event and after it. -/
structure Sight where
  effects : List RunEffect
  stage : Stage
  status : Status
  outcome : Option RunOutcome
deriving DecidableEq, Repr

/-- The effects apart from what is written into the log. -/
def unwritten (effects : List RunEffect) : List RunEffect := effects.filter (·.text?.isNone)

/-- What is seen by an observer who does not look at the log. -/
def Sight.apartFromLog (sight : Sight) : Sight := { sight with effects := unwritten sight.effects }

@[simp] theorem unwritten_append (first second : List RunEffect) :
    unwritten (first ++ second) = unwritten first ++ unwritten second := List.filter_append ..

@[simp] theorem unwritten_writeEffects (text : String) : unwritten (Run.writeEffects text) = [] := by
  unfold Run.writeEffects
  split <;> rfl

@[simp] theorem unwritten_store (state : RunState) (rest : List RunEffect) :
    unwritten (.store state :: rest) = .store state :: unwritten rest := rfl

namespace Run

@[simp] theorem unwritten_commandEffects (commands : List Command) :
    unwritten (commandEffects commands) = commandEffects commands := by
  simp [unwritten, commandEffects, RunEffect.text?]

@[simp] theorem unwritten_control (run : Run) (event : ControlEvent) (now : Int)
    (accepts : WriteAnswers) :
    unwritten (run.control event now accepts).2 = commandEffects (run.controller.handle event).2 := by
  simp [control, publish]

def sightOf (answer : Run × List RunEffect) : Sight :=
  ⟨answer.2, answer.1.controller.stage, answer.1.status, answer.1.outcome?⟩

/-- What is seen of a run, one event after the other. -/
def sights (run : Run) : List Arrival → List Sight
  | [] => []
  | (event, now, sink) :: rest =>
    sightOf (run.handle event now sink) :: (run.handle event now sink).1.sights rest

theorem sights_append (run : Run) (first second : List Arrival) :
    run.sights (first ++ second) = run.sights first ++ (run.hear first).1.sights second := by
  induction first generalizing run with
  | nil => rfl
  | cons head rest ih =>
    obtain ⟨event, now, sink⟩ := head
    simp [sights, hear, ih]

/-! ## Active runs -/

/-- As long as a run is active, its program is not over, and it shows where its controller stands. -/
def Current (run : Run) : Prop :=
  run.phase = .active → run.controller.isOver = false ∧ run.status = run.controller.status

theorem current_conclude {before : Run × List RunEffect} (now : Int) (sink : SinkAnswers)
    (h : before.1.status = before.1.controller.status) : (conclude now sink before).1.Current := by
  unfold conclude
  split
  · exact nofun
  · rename_i hgoing
    exact fun _ => ⟨by simpa using hgoing, h⟩

theorem Current.handle {run : Run} (h : run.Current) (event : RunEvent) (now : Int)
    (sink : SinkAnswers) : (run.handle event now sink).1.Current := by
  cases hphase : run.phase with
  | prepared =>
    cases event with
    | begin =>
      simp only [Run.handle, hphase]
      split
      · intro hactive
        cases hactive
      · exact fun _ => ⟨rfl, rfl⟩
    | _ =>
      simp only [Run.handle, hphase]
      exact h
  | active =>
    cases event with
    | begin =>
      simp only [Run.handle, hphase]
      exact h
    | tick | temperatures | power =>
      simp only [Run.handle, hphase]
      exact current_conclude now sink rfl
    | stop =>
      simp only [Run.handle, hphase]
      intro hactive
      cases hactive
  | _ =>
    simp only [Run.handle, hphase]
    exact h

theorem Current.hear {run : Run} (h : run.Current) (arrivals : List Arrival) :
    (run.hear arrivals).1.Current := by
  induction arrivals generalizing run with
  | nil => exact h
  | cons head rest ih =>
    obtain ⟨event, now, sink⟩ := head
    exact ih (h.handle event now sink)

/-- A run with other live readings. -/
def withLive (run : Run) (live : Observed) : Run :=
  { run with controller := { run.controller with live } }

@[simp] theorem withLive_self (run : Run) : run.withLive run.controller.live = run := rfl

theorem Current.withLive {run : Run} (h : run.Current) (live : Observed) :
    (run.withLive live).Current := h

/-- What a run makes of a reading, apart from the reading itself: an active run shows its status
once more. -/
def notice (run : Run) (now : Int) (sink : SinkAnswers) : Run × List RunEffect :=
  if run.phase = .active then run.publish now sink.row else (run, [])

/-- The live readings of a run after a reading. -/
def liveAfter (run : Run) (event : RunEvent) (now : Int) : Observed :=
  if run.phase = .active then event.receive now run.controller.live else run.controller.live

/-- A reading changes nothing but the live readings, and nothing else depends on it. -/
theorem handle_reading {run : Run} {event : RunEvent} (now : Int) (sink : SinkAnswers)
    (hunit : event.unit?.isSome = true) (h : run.Current) :
    run.handle event now sink =
      ((run.notice now sink).1.withLive (run.liveAfter event now), (run.notice now sink).2) := by
  unfold notice liveAfter
  by_cases hphase : run.phase = .active
  · rw [if_pos hphase, if_pos hphase]
    have hgoing : ∀ live, ¬ ({ run.controller with live } : Controller).isOver = true := by
      intro live
      rw [Bool.not_eq_true]
      exact (h hphase).1
    cases event with
    | temperatures reading | power reading =>
      simp only [Run.handle, hphase]
      exact if_neg (hgoing _)
    | _ => cases hunit
  · rw [if_neg hphase, if_neg hphase]
    cases event with
    | temperatures reading | power reading => cases hother : run.phase <;> simp_all [Run.handle]
    | _ => cases hunit

theorem notice_withLive (run : Run) (live : Observed) (now : Int) (sink : SinkAnswers) :
    (run.withLive live).notice now sink =
      ((run.notice now sink).1.withLive live, (run.notice now sink).2) := by
  have hphase : (run.withLive live).phase = run.phase := rfl
  unfold notice
  rw [hphase]
  split <;> rfl

@[simp] theorem notice_phase (run : Run) (now : Int) (sink : SinkAnswers) :
    (run.notice now sink).1.phase = run.phase := by
  unfold notice
  split <;> rfl

/-! ## Readings of one second -/

/-- Whatever the readings are, the same is seen, and the run differs only in its live readings. -/
theorem sights_readings {run : Run} {first second : List Arrival} (live : Observed)
    (h : run.Current) (hreadings : ∀ arrival ∈ first ++ second, arrival.1.unit?.isSome = true)
    (hplaces : second.map Prod.snd = first.map Prod.snd) :
    (run.withLive live).sights second = run.sights first ∧
      ∃ later, ((run.withLive live).hear second).1 = (run.hear first).1.withLive later := by
  induction first generalizing run second live with
  | nil =>
    obtain rfl : second = [] := List.map_eq_nil_iff.mp hplaces
    exact ⟨rfl, live, rfl⟩
  | cons head rest ih =>
    obtain ⟨event, now, sink⟩ := head
    cases second with
    | nil => cases hplaces
    | cons head others =>
      obtain ⟨other, now', sink'⟩ := head
      obtain ⟨hplace, hothers⟩ := List.cons.inj hplaces
      obtain ⟨rfl, rfl⟩ : now' = now ∧ sink' = sink := Prod.mk.inj hplace
      have hevent : event.unit?.isSome = true := hreadings (event, now', sink') (by simp)
      have hother : other.unit?.isSome = true := hreadings (other, now', sink') (by simp)
      have hsecond : (run.withLive live).handle other now' sink' =
          ((run.handle event now' sink').1.withLive ((run.withLive live).liveAfter other now'),
            (run.handle event now' sink').2) := by
        rw [handle_reading now' sink' hother (h.withLive live), handle_reading now' sink' hevent h,
          notice_withLive]
        rfl
      have hrest : ∀ arrival ∈ rest ++ others, arrival.1.unit?.isSome = true := by
        intro arrival harrival
        apply hreadings
        simp only [List.mem_append, List.mem_cons] at harrival ⊢
        exact harrival.imp .inr .inr
      obtain ⟨hsights, later, hlater⟩ := ih _ (h.handle event now' sink') hrest hothers
      refine ⟨?_, later, ?_⟩
      · rw [sights, sights, hsecond, hsights]
        rfl
      · rw [hear, hear, hsecond]
        exact hlater

/-- After some readings of one second the live readings of an active run are the last ones. -/
theorem live_hear_readings {run : Run} {now : Int} {arrivals : List Arrival} (h : run.Current)
    (hreadings : ∀ arrival ∈ arrivals, arrival.1.unit?.isSome = true ∧ arrival.2.1 = now) :
    (run.hear arrivals).1.controller.live = if run.phase = .active then
      ⟨(arrivals.filterMap (·.1.temperatures?)).foldl (fun _ reading => ⟨now, reading⟩)
          run.controller.live.temperatures,
        (arrivals.filterMap (·.1.power?)).foldl (fun _ reading => ⟨now, reading⟩)
          run.controller.live.power⟩
      else run.controller.live := by
  induction arrivals generalizing run with
  | nil => simp [hear]
  | cons head rest ih =>
    obtain ⟨event, second, sink⟩ := head
    obtain ⟨hunit, rfl⟩ := hreadings (event, second, sink) (by simp)
    have hhandle := handle_reading second sink hunit h
    have hphase : (run.handle event second sink).1.phase = run.phase := by
      rw [hhandle]
      exact run.notice_phase second sink
    have hlive : (run.handle event second sink).1.controller.live = run.liveAfter event second := by
      rw [hhandle]
      rfl
    have hrest := ih (h.handle event second sink) fun arrival harrival =>
      hreadings arrival (List.mem_cons_of_mem _ harrival)
    rw [hear]
    refine hrest.trans ?_
    rw [hphase, hlive, liveAfter]
    by_cases hactive : run.phase = .active
    · simp only [hactive, if_true]
      cases event with
      | temperatures reading | power reading => rfl
      | _ => cases hunit
    · simp only [hactive, if_false]

/-- The readings of one second may come in any order. -/
theorem sights_window {run : Run} {now : Int} {first second : List Arrival} (h : run.Current)
    (hreadings : ∀ arrival ∈ first ++ second, arrival.1.unit?.isSome = true ∧ arrival.2.1 = now)
    (hplaces : second.map Prod.snd = first.map Prod.snd)
    (htemperatures : second.filterMap (·.1.temperatures?) = first.filterMap (·.1.temperatures?))
    (hpower : second.filterMap (·.1.power?) = first.filterMap (·.1.power?)) :
    run.sights second = run.sights first ∧ (run.hear second).1 = (run.hear first).1 := by
  have hunits := fun arrival harrival => (hreadings arrival harrival).1
  have hfirst := live_hear_readings h fun arrival harrival =>
    hreadings arrival (List.mem_append_left second harrival)
  have hsecond := live_hear_readings h fun arrival harrival =>
    hreadings arrival (List.mem_append_right first harrival)
  rw [htemperatures, hpower, ← hfirst] at hsecond
  obtain ⟨hsights, later, hlater⟩ := sights_readings run.controller.live h hunits hplaces
  refine ⟨hsights, ?_⟩
  have hsame : (run.hear second).1 = (run.hear first).1.withLive later := hlater
  have hlive : later = (run.hear first).1.controller.live := by
    rw [← hsecond, hsame]
    rfl
  rw [hsame, hlive]
  rfl

theorem sights_raced {run : Run} {events others : List Arrival} (h : run.Current)
    (hraced : Raced events others) :
    run.sights others = run.sights events ∧ (run.hear others).1 = (run.hear events).1 := by
  induction hraced generalizing run with
  | nil => exact ⟨rfl, rfl⟩
  | same arrival _ ih =>
    obtain ⟨event, now, sink⟩ := arrival
    obtain ⟨hsights, hrun⟩ := ih (h.handle event now sink)
    refine ⟨?_, hrun⟩
    rw [Run.sights, Run.sights, hsights]
  | window now readings places temperatures power _ ih =>
    obtain ⟨hwindow, hafter⟩ := sights_window h readings places temperatures power
    rw [sights_append, sights_append, hear_append, hear_append, hwindow, hafter]
    obtain ⟨hsights, hrun⟩ := ih (h.hear _)
    exact ⟨congrArg _ hsights, hrun⟩

/-! ## Runs that differ in one reading -/

/-- The live readings are the same, except perhaps for the one of the hidden unit. -/
structure Agree (hidden : Option SensorUnit) (first second : Observed) : Prop where
  temperatures : hidden ≠ some .temperature → second.temperatures = first.temperatures
  power : hidden ≠ some .power → second.power = first.power

theorem Agree.eq {first second : Observed} (h : Agree none first second) : second = first := by
  obtain ⟨temperatures, power⟩ := second
  obtain rfl : temperatures = first.temperatures := h.temperatures nofun
  obtain rfl : power = first.power := h.power nofun
  rfl

/-- A run with other live readings and another log. -/
def altered (run : Run) (live : Observed) (log : LogWriter) : Run :=
  { run with controller := { run.controller with live }, log }

/-- Two runs that differ in their logs and perhaps in the live reading of the hidden unit. -/
inductive Apart (hidden : Option SensorUnit) (run : Run) : Run → Prop where
  | altered (live : Observed) (log : LogWriter) (agree : Agree hidden run.controller.live live) :
      Apart hidden run (run.altered live log)

/-- Two such runs with what they want done: it is the same, apart from the log. -/
def AnswerApart (hidden : Option SensorUnit) (answer other : Run × List RunEffect) : Prop :=
  Apart hidden answer.1 other.1 ∧ unwritten other.2 = unwritten answer.2

variable {hidden : Option SensorUnit} {run other : Run}

theorem Apart.current (h : Apart hidden run other) (hcurrent : run.Current) : other.Current := by
  obtain ⟨live, log, -⟩ := h
  exact hcurrent

theorem AnswerApart.sight {answer other : Run × List RunEffect} (h : AnswerApart hidden answer other) :
    (sightOf other).apartFromLog = (sightOf answer).apartFromLog := by
  obtain ⟨next, effects⟩ := answer
  obtain ⟨later, more⟩ := other
  obtain ⟨⟨live, log, -⟩, heffects⟩ := h
  simp only [sightOf, Sight.apartFromLog]
  rw [heffects]
  rfl

/-- Only a tick looks at the live readings. -/
theorem handle_live {c : Controller} {event : ControlEvent} {live : Observed}
    (hunseen : event.isTick = false ∨ hidden = none) (h : Agree hidden c.live live) :
    ∃ later, Agree hidden (c.handle event).1.live later ∧
      Controller.handle { c with live } event =
        ({ (c.handle event).1 with live := later }, (c.handle event).2) := by
  cases event with
  | start now => exact ⟨live, h, rfl⟩
  | tick now =>
    obtain rfl : hidden = none := hunseen.resolve_left (by simp [ControlEvent.isTick])
    obtain rfl := h.eq
    exact ⟨(c.tick now).1.live, ⟨fun _ => rfl, fun _ => rfl⟩, rfl⟩
  | temperatures reading received =>
    exact ⟨{ live with temperatures := ⟨received, reading⟩ }, ⟨fun _ => rfl, h.power⟩, rfl⟩
  | power reading received =>
    exact ⟨{ live with power := ⟨received, reading⟩ }, ⟨h.temperatures, fun _ => rfl⟩, rfl⟩
  | shutdown =>
    simp only [Controller.handle, Controller.shutdown_eq]
    exact ⟨live, h, rfl⟩

theorem Apart.publish (h : Apart hidden run other) (now : Int) (accepts : WriteAnswers) :
    AnswerApart hidden (run.publish now accepts) (other.publish now accepts) := by
  obtain ⟨live, log, agree⟩ := h
  refine ⟨.altered live (log.addLine run.controller.status now accepts).log agree, ?_⟩
  simp only [Run.publish, unwritten_writeEffects]

theorem Apart.control (h : Apart hidden run other) {event : ControlEvent}
    (hunseen : event.isTick = false ∨ hidden = none) (now : Int) (accepts : WriteAnswers) :
    AnswerApart hidden (run.control event now accepts) (other.control event now accepts) := by
  obtain ⟨live, log, agree⟩ := h
  obtain ⟨later, hagree, hhandle⟩ := handle_live hunseen agree
  have htold : Apart hidden { run with controller := (run.controller.handle event).1 }
      { run.altered live log with
        controller := ((run.altered live log).controller.handle event).1 } := by
    rw [show (run.altered live log).controller.handle event = _ from hhandle]
    exact .altered later log hagree
  refine ⟨(htold.publish now accepts).1, ?_⟩
  rw [unwritten_control, unwritten_control]
  exact congrArg (fun handled => commandEffects handled.2) hhandle

theorem Apart.closed (h : Apart hidden run other) (phase : RunPhase) (accepts : Bool) :
    Apart hidden { run with log := (run.log.close accepts).log, phase }
      { other with log := (other.log.close accepts).log, phase } := by
  obtain ⟨live, log, agree⟩ := h
  exact .altered live (log.close accepts).log agree

theorem Apart.finish (h : Apart hidden run other) (state : RunState) (now : Int)
    (sink : SinkAnswers) :
    AnswerApart hidden (run.finish state now sink) (other.finish state now sink) := by
  have hshutdown : ControlEvent.shutdown.isTick = false := rfl
  obtain ⟨hstopped, heffects⟩ := h.control (.inl hshutdown) now sink.lastRow
  refine ⟨hstopped.closed (.over state) sink.rest, ?_⟩
  simp only [Run.finish, List.cons_append, unwritten_store, unwritten_append,
    unwritten_writeEffects, heffects]

theorem AnswerApart.conclude {before others : Run × List RunEffect}
    (h : AnswerApart hidden before others) (now : Int) (sink : SinkAnswers) :
    AnswerApart hidden (conclude now sink before) (conclude now sink others) := by
  obtain ⟨run, effects⟩ := before
  obtain ⟨other, more⟩ := others
  obtain ⟨hrun, heffects⟩ := h
  have hover : other.controller.isOver = run.controller.isOver := by
    obtain ⟨live, log, -⟩ := hrun
    rfl
  have hstate : other.finalState = run.finalState := by
    obtain ⟨live, log, -⟩ := hrun
    rfl
  unfold Run.conclude
  dsimp only
  rw [hover, hstate]
  split
  · obtain ⟨hended, hlast⟩ := Apart.finish hrun run.finalState now sink
    refine ⟨hended, ?_⟩
    rw [unwritten_append, unwritten_append, hlast]
    exact congrArg (· ++ _) heffects
  · exact ⟨hrun, heffects⟩

theorem Apart.phase_eq (h : Apart hidden run other) : other.phase = run.phase := by
  obtain ⟨live, log, -⟩ := h
  rfl

theorem Apart.stop (h : Apart hidden run other) (now : Int) (sink : SinkAnswers)
    (hphase : run.phase = .active) :
    AnswerApart hidden (run.handle .stop now sink) (other.handle .stop now sink) := by
  have hother : other.phase = .active := h.phase_eq.trans hphase
  obtain ⟨hshown, hfirst⟩ := h.publish now sink.row
  obtain ⟨hstopped, hlast⟩ := hshown.finish .canceled now sink
  simp only [Run.handle, hphase, hother]
  refine ⟨hstopped, ?_⟩
  rw [unwritten_append, unwritten_append, hfirst, hlast]

/-- Which readings are asked for depends on the live readings, and so does nothing else. -/
theorem Apart.tick (h : Apart none run other) (now : Int) (sink : SinkAnswers)
    (hphase : run.phase = .active) :
    AnswerApart none (run.handle .tick now sink) (other.handle .tick now sink) := by
  have hother : other.phase = .active := h.phase_eq.trans hphase
  have htick : (ControlEvent.tick now).isTick = false ∨ (none : Option SensorUnit) = none := .inr rfl
  obtain ⟨hticked, heffects⟩ := h.control htick now sink.row
  have hrequests : other.staleRequests now = run.staleRequests now := by
    obtain ⟨live, log, agree⟩ := h
    obtain rfl := agree.eq
    rfl
  simp only [Run.handle, hphase, hother, hrequests]
  apply AnswerApart.conclude
  refine ⟨hticked, ?_⟩
  rw [unwritten_append, unwritten_append, heffects]

/-- As long as the hidden reading is not looked at, two such runs want the same and stay so. -/
theorem Apart.handle (h : Apart hidden run other) (hbegun : run.phase ≠ .prepared)
    (event : RunEvent) (htick : event = .tick → hidden = none) (now : Int) (sink : SinkAnswers) :
    AnswerApart hidden (run.handle event now sink) (other.handle event now sink) := by
  have hignored : AnswerApart hidden (run, []) (other, []) := ⟨h, rfl⟩
  cases hphase : run.phase with
  | prepared => exact absurd hphase hbegun
  | active =>
    cases event with
    | begin =>
      simp only [Run.handle, hphase, h.phase_eq]
      exact hignored
    | tick =>
      obtain rfl := htick rfl
      exact h.tick now sink hphase
    | temperatures reading | power reading =>
      simp only [Run.handle, hphase, h.phase_eq]
      apply AnswerApart.conclude
      exact h.control (.inl rfl) now sink.row
    | stop => exact h.stop now sink hphase
  | _ =>
    simp only [Run.handle, hphase, h.phase_eq]
    exact hignored

theorem begun_handle (hbegun : run.phase ≠ .prepared) (event : RunEvent) (now : Int)
    (sink : SinkAnswers) : (run.handle event now sink).1.phase ≠ .prepared := by
  have hcourse := (run.answers_handle event now sink).2
  generalize run.told event now = told at hcourse
  cases hcourse with
  | ignored same nothing => rwa [same]
  | begun now before after stays => exact absurd before hbegun
  | brokeOff now before after leaves => exact absurd before hbegun
  | wentOn event before after inner stays => simp [after]
  | ended events state before after inner leaves => simp [after]

/-- Runs that differ in their logs alone look the same from then on. -/
theorem Apart.sights (h : Apart none run other) (hbegun : run.phase ≠ .prepared)
    (arrivals : List Arrival) : (other.sights arrivals).map Sight.apartFromLog =
      (run.sights arrivals).map Sight.apartFromLog := by
  induction arrivals generalizing run other with
  | nil => rfl
  | cons head rest ih =>
    obtain ⟨event, now, sink⟩ := head
    have hanswer := h.handle hbegun event (fun _ => rfl) now sink
    rw [Run.sights, Run.sights, List.map_cons, List.map_cons, hanswer.sight,
      ih hanswer.1 (begun_handle hbegun event now sink)]

/-- A run that is over, or has broken off, hears nothing. -/
theorem handle_of_ended (hbegun : run.phase ≠ .prepared) (hended : run.phase ≠ .active)
    (event : RunEvent) (now : Int) (sink : SinkAnswers) :
    run.handle event now sink = (run, []) := by
  cases hphase : run.phase with
  | prepared => exact absurd hphase hbegun
  | active => exact absurd hphase hended
  | _ => simp only [Run.handle, hphase]

theorem Apart.sights_of_ended (h : Apart hidden run other) (hbegun : run.phase ≠ .prepared)
    (hended : run.phase ≠ .active) (arrivals : List Arrival) :
    (other.sights arrivals).map Sight.apartFromLog =
      (run.sights arrivals).map Sight.apartFromLog := by
  have hother : other.phase = run.phase := h.phase_eq
  have hsame : AnswerApart hidden (run, []) (other, []) := ⟨h, rfl⟩
  induction arrivals with
  | nil => rfl
  | cons head rest ih =>
    obtain ⟨event, now, sink⟩ := head
    rw [Run.sights, Run.sights, handle_of_ended hbegun hended,
      handle_of_ended (hother ▸ hbegun) (hother ▸ hended), List.map_cons, List.map_cons, ih,
      hsame.sight]

/-- An active run shows what its controller does, so a reading changes no more than the log. -/
theorem Current.apart_reading (h : run.Current) (hactive : run.phase = .active) (event : RunEvent)
    (now : Int) (sink : SinkAnswers) :
    Apart event.unit? run ((run.notice now sink).1.withLive (run.liveAfter event now)) := by
  have hagree : Agree event.unit? run.controller.live
      (event.receive now run.controller.live) := by
    cases event with
    | temperatures reading => exact ⟨fun hne => absurd rfl hne, fun _ => rfl⟩
    | power reading => exact ⟨fun _ => rfl, fun hne => absurd rfl hne⟩
    | _ => exact ⟨fun _ => rfl, fun _ => rfl⟩
  simp only [notice, liveAfter, hactive, if_true]
  obtain ⟨name, settings, controller, log, status, phase⟩ := run
  obtain rfl : status = controller.status := (h hactive).2
  exact .altered _ (log.addLine controller.status now sink.row).log hagree

/-- The next reading of the hidden unit makes up for the difference. -/
theorem Apart.reading {event : RunEvent} (h : Apart event.unit? run other) (hcurrent : run.Current)
    (hunit : event.unit?.isSome = true) (hactive : run.phase = .active) (now : Int)
    (sink : SinkAnswers) :
    AnswerApart none (run.handle event now sink) (other.handle event now sink) := by
  have hother : other.phase = .active := h.phase_eq.trans hactive
  rw [handle_reading now sink hunit hcurrent, handle_reading now sink hunit (h.current hcurrent)]
  simp only [notice, liveAfter, hactive, hother, if_true]
  obtain ⟨live, log, agree⟩ := h
  refine ⟨?_, ?_⟩
  · refine .altered (event.receive now live) (log.addLine run.controller.status now sink.row).log ?_
    cases event with
    | temperatures reading => exact ⟨fun _ => rfl, fun _ => agree.power nofun⟩
    | power reading => exact ⟨fun _ => agree.temperatures nofun, fun _ => rfl⟩
    | _ => cases hunit
  · exact (unwritten_writeEffects _).trans (unwritten_writeEffects _).symm

/-- A reading that is followed by another one of its unit before the next tick. -/
theorem Apart.sights_superseded {event : RunEvent} (h : Apart event.unit? run other)
    (hcurrent : run.Current) (hbegun : run.phase ≠ .prepared) (hunit : event.unit?.isSome = true)
    {between : List Arrival} (hbetween : ∀ arrival ∈ between, arrival.1 ≠ .tick) (now : Int)
    (sink : SinkAnswers) (late : List Arrival) :
    (other.sights (between ++ (event, now, sink) :: late)).map Sight.apartFromLog =
      (run.sights (between ++ (event, now, sink) :: late)).map Sight.apartFromLog := by
  induction between generalizing run other with
  | nil =>
    by_cases hactive : run.phase = .active
    · have hanswer := h.reading hcurrent hunit hactive now sink
      rw [List.nil_append, Run.sights, Run.sights, List.map_cons, List.map_cons, hanswer.sight,
        hanswer.1.sights (begun_handle hbegun event now sink)]
    · exact h.sights_of_ended hbegun hactive _
  | cons head rest ih =>
    obtain ⟨first, second, answers⟩ := head
    have hfirst : first = .tick → event.unit? = none :=
      fun htick => absurd htick (hbetween (first, second, answers) List.mem_cons_self)
    have hanswer := h.handle hbegun first hfirst second answers
    have hrest := ih hanswer.1 (hcurrent.handle first second answers)
      (begun_handle hbegun first second answers)
      fun arrival harrival => hbetween arrival (List.mem_cons_of_mem _ harrival)
    rw [List.cons_append, Run.sights, Run.sights, List.map_cons, List.map_cons, hanswer.sight, hrest]

/-! ## The law -/

theorem current_prepare (name : String) (program : Program) (settings : RunSettings)
    (openedAt : Int) : (prepare name program settings openedAt).Current := nofun

/-- The race of the two units cannot be seen. Two rows of events that differ in the order in which
readings arrive within one second give the same commands, requests, calls of the storage and texts
for the log, the same stages and statuses after each event, and the same outcome. And of several
readings of one unit between two ticks only the last one counts: without an earlier one, what comes
after it is the same, apart from the rows of the log. -/
theorem race_cannot_be_seen (name : String) (program : Program) (settings : RunSettings)
    (openedAt : Int) :
    let run := prepare name program settings openedAt
    (∀ events others, Raced events others →
      run.sights others = run.sights events ∧ (run.hear others).1 = (run.hear events).1) ∧
    ∀ early between late earlier later (first second : Int × SinkAnswers),
      earlier.unit?.isSome → later.unit? = earlier.unit? →
      (∀ arrival ∈ between, arrival.1 ≠ .tick) →
      ((run.hear (early ++ [(earlier, first)])).1.sights (between ++ (later, second) :: late)).map
          Sight.apartFromLog =
        ((run.hear early).1.sights (between ++ (later, second) :: late)).map
          Sight.apartFromLog := by
  intro run
  have hcurrent : run.Current := current_prepare name program settings openedAt
  refine ⟨fun events others hraced => sights_raced hcurrent hraced, ?_⟩
  intro early between late earlier later first second hunit hsame hbetween
  obtain ⟨now, sink⟩ := first
  rw [hear_concat]
  generalize hbefore : (run.hear early).1 = before
  have hstands : before.Current := hbefore ▸ hcurrent.hear early
  rw [handle_reading now sink hunit hstands]
  by_cases hactive : before.phase = .active
  · have hbegun : before.phase ≠ .prepared := by simp [hactive]
    have happart : Apart later.unit? before
        ((before.notice now sink).1.withLive (before.liveAfter earlier now)) :=
      hsame ▸ hstands.apart_reading hactive earlier now sink
    exact happart.sights_superseded hstands hbegun (hsame ▸ hunit) hbetween second.1 second.2 late
  · simp only [notice, liveAfter, hactive, if_false, withLive_self]

/-- Two readings of one second in either order, with a sink that takes the second row only; and a
reading of the temperatures that is followed by another one a second later. -/
theorem race_of_two_readings_cannot_be_seen :
    let run := prepare "oak" Controller.twoRests ⟨1000, 60, 60⟩ 0
    let early : List Arrival := [(.begin, 1, .all true), (.tick, 2, .all true)]
    let late : List Arrival := [(.tick, 8, .all true), (.tick, 9, .all true), (.stop, 9, .all true)]
    let warmFirst : List Arrival :=
      [(.temperatures ⟨21, 20⟩, 7, .all false), (.power .zero, 7, .all true)]
    let powerFirst : List Arrival :=
      [(.power .zero, 7, .all false), (.temperatures ⟨21, 20⟩, 7, .all true)]
    let between : List Arrival := [(.power .zero, 6, .all true)]
    let again : List Arrival := between ++ (.temperatures ⟨21, 20⟩, 7, .all true) :: late
    run.sights (early ++ (powerFirst ++ late)) = run.sights (early ++ (warmFirst ++ late)) ∧
      ((run.hear (early ++ [(.temperatures ⟨90, 20⟩, 6, .all true)])).1.sights again).map
        Sight.apartFromLog = ((run.hear early).1.sights again).map Sight.apartFromLog := by
  intro run early late warmFirst powerFirst between again
  obtain ⟨hrace, hlast⟩ := race_cannot_be_seen "oak" Controller.twoRests ⟨1000, 60, 60⟩ 0
  have hlate : Raced late late := .same _ (.same _ (.same _ .nil))
  have hreadings : ∀ arrival ∈ warmFirst ++ powerFirst,
      arrival.1.unit?.isSome = true ∧ arrival.2.1 = 7 := by decide
  have hwindow : Raced (warmFirst ++ late) (powerFirst ++ late) :=
    .window 7 hreadings rfl rfl rfl hlate
  have hraced : Raced (early ++ (warmFirst ++ late)) (early ++ (powerFirst ++ late)) :=
    .same _ (.same _ hwindow)
  have hbetween : ∀ arrival ∈ between, arrival.1 ≠ .tick := by decide
  have hsame : (RunEvent.temperatures ⟨21, 20⟩).unit? = (RunEvent.temperatures ⟨90, 20⟩).unit? := by
    simp only [RunEvent.unit?]
  refine ⟨(hrace _ _ hraced).1, ?_⟩
  exact hlast early between late _ _ (6, .all true) (7, .all true) rfl hsame hbetween

end Run
end DryKiln
