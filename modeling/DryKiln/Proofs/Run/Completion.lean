-- What becomes of a run that is over: all that is left to do comes to an end, and then the power unit
-- has been handed every command that the controller has sent, the commands that turn it off last.
import DryKiln.Proofs.Run.Delivery

namespace DryKiln

open Relation (ReflTransGen)

/-! ## The end of the work -/

namespace Underway

/-- Something to do, if there is anything: what the run wants comes before the delivery. -/
def labour? (s : Underway) : Option Underway :=
  match s.todo with
  | effect :: rest => some (s.performs effect rest)
  | [] => s.live.gateway.step?.map fun (gateway, command) => s.delivers gateway command

/-- The state after so much work, or after less if nothing is left to do. -/
def workOff : Nat → Underway → Underway
  | 0, s => s
  | amount + 1, s =>
    match s.labour? with
    | some next => workOff amount next
    | none => s

/-- How much is left to do. A command that is not in the gateway yet counts twice. -/
def weight (s : Underway) : Nat :=
  2 * s.todo.length + s.live.gateway.commands.length + if s.live.gateway.isFinished then 0 else 1

theorem labour_of_labour? {s next : Underway} (h : s.labour? = some next) : Labour s next := by
  unfold labour? at h
  split at h
  · rename_i effect rest htodo
    cases h
    exact .perform htodo
  · obtain ⟨⟨gateway, command⟩, hnext, rfl⟩ := Option.map_eq_some_iff.mp h
    exact .deliver hnext

theorem labours_of_workOff (amount : Nat) (s : Underway) :
    ReflTransGen Labour s (workOff amount s) := by
  induction amount generalizing s with
  | zero => exact .refl
  | succ amount ih =>
    unfold workOff
    split
    · rename_i next hnext
      exact .head (labour_of_labour? hnext) (ih next)
    · exact .refl

end Underway

theorem Gateway.length_after_le (g : Gateway) (effect : RunEffect) :
    (g.after effect).commands.length ≤ g.commands.length + 1 ∧
      (g.after effect).delivery = g.delivery := by
  cases effect with
  | command command =>
    simp only [after, send]
    split <;> simp
  | _ => simp [after, close]

theorem Labour.weight_lt {s s' : Underway} (h : Labour s s') : s'.weight < s.weight := by
  cases h with
  | @perform effect rest htodo =>
    obtain ⟨hlength, hdelivery⟩ := s.live.gateway.length_after_le effect
    have hfinished : (s.live.gateway.after effect).isFinished = s.live.gateway.isFinished := by
      rw [Gateway.isFinished, Gateway.isFinished, hdelivery]
    have hgateway := (perform_live s.site s.live effect).2
    simp only [Underway.weight, Underway.performs, hgateway, hfinished, htodo, List.length_cons]
    omega
  | deliver hnext =>
    obtain ⟨hworking, ⟨first, rest, hcommands, rfl, rfl⟩ | ⟨hcommands, _, rfl, rfl⟩⟩ :=
      Gateway.step_cases hnext
    · simp [Underway.weight, Underway.delivers, hcommands, Gateway.isFinished, hworking]
    · simp [Underway.weight, Underway.delivers, hcommands, Gateway.isFinished, hworking]

theorem labour?_workOff {amount : Nat} {s : Underway} (h : s.weight ≤ amount) :
    (s.workOff amount).labour? = none := by
  induction amount generalizing s with
  | zero =>
    cases hnext : s.labour? with
    | none => exact hnext
    | some next =>
      have := (Underway.labour_of_labour? hnext).weight_lt
      omega
  | succ amount ih =>
    unfold Underway.workOff
    cases hnext : s.labour? with
    | none => exact hnext
    | some next =>
      -- what is left weighs less, so less work will do for it
      have := (Underway.labour_of_labour? hnext).weight_lt
      exact ih (by omega)

/-- If nothing is left to do for a run that is over, the delivery is over too. -/
theorem Sound.isFinished {program : Program} {s : Underway} {state : RunState}
    (h : Sound program s) (hover : s.live.run.phase = .over state) (hnone : s.labour? = none) :
    s.live.gateway.isFinished = true := by
  have htended := h.tended
  rw [hover] at htended
  rcases htended with ⟨_, _, front, last, htodo, _⟩ | ⟨hclosed, htodo, hworking | ⟨hfinished, _⟩⟩
  · cases front <;> simp [Underway.labour?, htodo] at hnone
  · -- a gateway that is closed but not finished can always deliver or finish
    exfalso
    cases hcommands : s.live.gateway.commands <;>
      simp [Underway.labour?, htodo, Gateway.step?, hworking, hcommands, hclosed] at hnone
  · exact hfinished

/-- When the delivery is over, everything has been handed over. -/
theorem Sound.handed {program : Program} {s : Underway} {state : RunState} (h : Sound program s)
    (hover : s.live.run.phase = .over state) (hfinished : s.live.gateway.isFinished = true) :
    s.handed = (Controller.new program).sent s.told := by
  have htended := h.tended
  have hdelivery : s.live.gateway.delivery = .finished := by
    simpa [Gateway.isFinished] using hfinished
  rw [hover] at htended
  rcases htended with ⟨_, hworking, _⟩ | ⟨_, htodo, hworking | ⟨_, hcommands⟩⟩
  · simp [hworking] at hdelivery
  · simp [hworking] at hdelivery
  · rw [← h.commands, hcommands, htodo]
    simp

theorem todo_of_labour? {s : Underway} (h : s.labour? = none) : s.todo = [] := by
  unfold Underway.labour? at h
  split at h
  · cases h
  · assumption

/-- The state after several events, with all that there is to do done before each of them. -/
def Underway.hearAll (s : Underway) : List (RunEvent × Int × SinkAnswers) → Underway
  | [] => s
  | (event, now, sink) :: rest => hearAll ((s.workOff s.weight).hears event now sink) rest

/-! ## The test bench -/

/-- What is to be done next, done all at once. -/
theorem labours_of_todo (effects : List RunEffect) {s : Underway} (h : s.todo = effects) :
    ∃ s', ReflTransGen Labour s s' ∧ s'.todo = [] ∧
      (s'.site, s'.live) = effects.foldl LiveRun.perform (s.site, s.live) := by
  induction effects generalizing s with
  | nil => exact ⟨s, .refl, h, rfl⟩
  | cons effect rest ih =>
    obtain ⟨s', hlabours, hidle, hdone⟩ := ih (s := s.performs effect rest) rfl
    exact ⟨s', .head (.perform h) hlabours, hidle, hdone⟩

theorem moves_of_labours {s s' : Underway} (h : ReflTransGen Labour s s') : ReflTransGen Move s s' :=
  h.lift id fun _ _ => .labour

theorem moves_of_hearAll (s : Underway) (events : List (RunEvent × Int × SinkAnswers)) :
    ReflTransGen Move s (s.hearAll events) := by
  induction events generalizing s with
  | nil => exact .refl
  | cons first rest ih =>
    obtain ⟨event, now, sink⟩ := first
    have hidle := todo_of_labour? (labour?_workOff (Nat.le_refl s.weight))
    have hworked := moves_of_labours (s.labours_of_workOff s.weight)
    exact hworked.trans (.head (.event event now sink hidle) (ih _))

theorem nextEvent_keeps {live next : LiveRun} {event : RunEvent} {now : Nat}
    (h : live.nextEvent? now = some (event, next)) : next.run = live.run ∧
      next.gateway = if event = .begin then live.gateway.start else live.gateway := by
  unfold LiveRun.nextEvent? at h
  split at h
  · cases h
  · cases h
  · cases h
    exact ⟨rfl, rfl⟩
  · split at h
    · cases h
      exact ⟨rfl, rfl⟩
    · split at h
      · cases h
        exact ⟨rfl, rfl⟩
      · split at h
        · cases h
          exact ⟨rfl, rfl⟩
        · split at h
          · cases h
            exact ⟨rfl, rfl⟩
          · cases h

theorem moves_of_take {s : Underway} {event : RunEvent} {next : LiveRun} (idle : s.todo = [])
    (h : s.live.nextEvent? s.site.now = some (event, next)) :
    ∃ s', ReflTransGen Move s s' ∧ s'.todo = [] ∧
      (s'.site, s'.live) = LiveRun.take s.site next event := by
  obtain ⟨hrun, hgateway⟩ := nextEvent_keeps h
  -- first everything but the run and its gateway, then the event, then what the run wants
  let ready : Underway := { s with live := { next with gateway := s.live.gateway } }
  let heard := ready.hears event s.site.clock (LiveRun.sink s.site next)
  have hready : Move s ready := .elsewhere s.site { next with gateway := s.live.gateway } hrun rfl
  have hheard : Move ready heard := .event event s.site.clock (LiveRun.sink s.site next) idle
  obtain ⟨s', hlabours, hdone, hfold⟩ := labours_of_todo heard.todo (s := heard) rfl
  refine ⟨s', .head hready (.head hheard (moves_of_labours hlabours)), hdone, hfold.trans ?_⟩
  simp only [LiveRun.take, heard, ready, Underway.hears, ← hgateway]

/-- What the test bench does with a run in one step is done in moves. -/
theorem moves_of_step {s : Underway} {site : BenchSite} {live : LiveRun} (idle : s.todo = [])
    (h : LiveRun.step? s.site s.live = some (site, live)) :
    ∃ s', ReflTransGen Move s s' ∧ s'.todo = [] ∧ s'.site = site ∧ s'.live = live := by
  unfold LiveRun.step? at h
  split at h
  · rename_i event next hnext
    obtain ⟨s', hmoves, hdone, htake⟩ := moves_of_take idle hnext
    cases htake.trans (Option.some.inj h)
    exact ⟨s', hmoves, hdone, rfl, rfl⟩
  · rcases Option.or_eq_some_iff.mp h with hpoll | ⟨_, h⟩
    · obtain ⟨⟨temperatures, reads⟩, _, heq⟩ := Option.map_eq_some_iff.mp hpoll
      have hmove : Move s { s with site, live } := by
        cases heq
        exact .elsewhere _ _ rfl rfl
      exact ⟨_, .single hmove, idle, rfl, rfl⟩
    rcases Option.or_eq_some_iff.mp h with hpoll | ⟨_, hdeliver⟩
    · obtain ⟨⟨power, reads⟩, _, heq⟩ := Option.map_eq_some_iff.mp hpoll
      have hmove : Move s { s with site, live } := by
        cases heq
        exact .elsewhere _ _ rfl rfl
      exact ⟨_, .single hmove, idle, rfl, rfl⟩
    · obtain ⟨⟨gateway, command⟩, hgateway, heq⟩ := Option.map_eq_some_iff.mp hdeliver
      cases heq
      exact ⟨_, .single (.labour (.deliver hgateway)), idle, rfl, rfl⟩

/-! ## The laws -/

/-- When a run is over, whether its program is or it has been stopped, the controller has turned the
actuators off once, and has sent nothing after that. Of what it has sent nothing is lost, doubled or
overtaken on the way to the power unit, whatever the clock, the files, the log and the units do; what
is left to do comes to an end, and then all of it has been handed over, and nothing else ever is. -/
theorem handed_over_once_and_off_at_last {program : Program} {s : Underway} {state : RunState}
    (hs : ReachedBy program s) (hover : s.live.run.phase = .over state) :
    let c := Controller.new program
    s.live.run.controller = c.after s.told ∧
      (∃ start events, s.told = .start start :: events ++ [.shutdown] ∧
        Controller.Undisturbed events) ∧
      c.TurnedOffOnce s.told ∧
      (∃ before, c.sent s.told = before ++ [⟨.heater, 0⟩, ⟨.fan, 0⟩, ⟨.humidifier, 0⟩]) ∧
      s.handed ++ s.live.gateway.commands ++ commandsIn s.todo = c.sent s.told ∧
      (s.live.gateway.isFinished = true → s.handed = c.sent s.told) ∧
      (∃ s', ReflTransGen Labour s s' ∧ s'.live.gateway.isFinished = true ∧
        s'.handed = c.sent s.told) ∧
      ∀ s', ReflTransGen Move s s' → s'.told = s.told ∧ s'.handed <+: c.sent s.told := by
  intro c
  have hsound := hs.sound
  have htold := hsound.told
  rw [hover] at htold
  have hoff : c.TurnedOffOnce s.told := by
    obtain ⟨start, events, heq, hevents⟩ := htold
    rw [heq]
    exact Controller.turnedOffOnce_of_shutdown program start hevents
  have hlater : ∀ s', ReflTransGen Move s s' → Sound program s' ∧
      s'.live.run.phase = .over state ∧ s'.told = s.told := by
    intro s' hmoves
    obtain ⟨name, settings, openedAt, site, logFile, hreached⟩ := hs
    have hs' : ReachedBy program s' :=
      ⟨name, settings, openedAt, site, logFile, hreached.trans hmoves⟩
    exact ⟨hs'.sound, over_of_moves hmoves hover⟩
  refine ⟨hsound.controller, htold, hoff, ?_, hsound.commands, hsound.handed hover, ?_, ?_⟩
  · obtain ⟨past, _, _, _, _, hsent, _⟩ := hoff
    exact ⟨c.sent past, hsent⟩
  · have hlabours := s.labours_of_workOff s.weight
    obtain ⟨hsound', hover', htold'⟩ := hlater _ (moves_of_labours hlabours)
    have hfinished := hsound'.isFinished hover' (labour?_workOff (Nat.le_refl _))
    exact ⟨_, hlabours, hfinished, (hsound'.handed hover' hfinished).trans (by rw [htold'])⟩
  · intro s' hmoves
    obtain ⟨hsound', _, htold'⟩ := hlater s' hmoves
    refine ⟨htold', ?_⟩
    rw [← htold', ← hsound'.commands, List.append_assoc]
    exact List.prefix_append _ _

/-- A run that is stopped in a step with full heat. The log takes nothing, and the heater does not
take its commands. -/
theorem stopped_rest_is_off_at_last :
    let site : BenchSite := ⟨0, 0, ⟨"/runs"⟩, .empty, { BenchKiln.idle with dead := [.heater] }⟩
    let run : Run := .prepare "oak" Controller.oneHeatedRest ⟨1000, 60, 60⟩ 1
    let s := (Underway.fresh site (.fresh run ⟨0, 0⟩)).hearAll [(.begin, 1, .all false),
      (.tick, 2, .all false), (.temperatures ⟨20, 20⟩, 2, .all false), (.power .zero, 2, .all false),
      (.tick, 3, .all false), (.tick, 4, .all false), (.tick, 5, .all false),
      (.tick, 6, .all false), (.stop, 7, .all false)]
    ReachedBy Controller.oneHeatedRest s ∧ s.live.run.phase = .over .canceled ∧
      ∃ s', ReflTransGen Labour s s' ∧ s'.live.gateway.isFinished = true ∧
        s'.handed = [⟨.fan, 50⟩, ⟨.heater, 100⟩, ⟨.fan, 0⟩, ⟨.humidifier, 0⟩, ⟨.heater, 0⟩,
          ⟨.fan, 0⟩, ⟨.humidifier, 0⟩] := by
  intro site run s
  have hreached : ReachedBy Controller.oneHeatedRest s :=
    ⟨"oak", _, 1, site, ⟨0, 0⟩, moves_of_hearAll _ _⟩
  have hover : s.live.run.phase = .over .canceled := by decide
  have hsent : (Controller.new Controller.oneHeatedRest).sent s.told =
      [⟨.fan, 50⟩, ⟨.heater, 100⟩, ⟨.fan, 0⟩, ⟨.humidifier, 0⟩, ⟨.heater, 0⟩, ⟨.fan, 0⟩,
        ⟨.humidifier, 0⟩] := by decide
  obtain ⟨_, _, _, _, _, _, ⟨s', hlabours, hfinished, hhanded⟩, _⟩ :=
    handed_over_once_and_off_at_last hreached hover
  exact ⟨hreached, hover, s', hlabours, hfinished, hhanded.trans hsent⟩

end DryKiln
