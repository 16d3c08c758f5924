-- Steps that come to an end. A run that has been put to work stays in a fit state, and every step of
-- it lowers its load; at one instant a bench therefore settles, and then all wait for another one.
import DryKiln.Proofs.Bench.Load
import Mathlib.Algebra.Order.BigOperators.Group.List
import Mathlib.Algebra.Order.Group.Nat

namespace DryKiln
namespace LiveRun

/-! ## Events that are due -/

/-- An event that a run takes now, and what is left of its surroundings. -/
inductive Due (live : LiveRun) (now : Nat) : RunEvent → LiveRun → Prop where
  | begin (phase : live.run.phase = .prepared) :
      Due live now .begin
        { live with gateway := live.gateway.start, nextTick := live.tickAfter now }
  | tick (phase : live.run.phase = .active) (due : live.nextTick ≤ now) :
      Due live now .tick { live with nextTick := live.tickAfter now }
  | temperatures (reading : Temperatures) (rest : List Temperatures)
      (phase : live.run.phase = .active) (there : live.temperatures.responses = reading :: rest) :
      Due live now (.temperatures reading)
        { live with temperatures := { live.temperatures with responses := rest } }
  | power (reading : PowerReading) (rest : List PowerReading)
      (phase : live.run.phase = .active) (there : live.power.responses = reading :: rest) :
      Due live now (.power reading) { live with power := { live.power with responses := rest } }
  | stop (phase : live.run.phase = .active) (asked : live.stopAsked = true) :
      Due live now .stop live

/-- Nothing is due: the run has begun, and an active one waits for its next tick. -/
structure Waits (live : LiveRun) (now : Nat) : Prop where
  begun : live.run.phase ≠ .prepared
  tick : live.run.phase = .active → now < live.nextTick
  temperatures : live.run.phase = .active → live.temperatures.responses = []
  power : live.run.phase = .active → live.power.responses = []
  unasked : live.run.phase = .active → live.stopAsked = false

variable {live next moved : LiveRun} {now : Nat} {event : RunEvent}

theorem due_of_nextEvent? (h : live.nextEvent? now = some (event, next)) :
    live.Due now event next := by
  unfold nextEvent? at h
  split at h
  · cases h
  · cases h
  · rename_i hphase
    cases h
    exact .begin hphase
  · rename_i hphase
    split at h
    · rename_i hdue
      cases h
      exact .tick hphase hdue
    · split at h
      · rename_i reading hreceive
        cases h
        obtain ⟨others, hthere, rfl⟩ := Poller.responses_of_receive hreceive
        exact .temperatures reading others hphase hthere
      · split at h
        · rename_i reading hreceive
          cases h
          obtain ⟨others, hthere, rfl⟩ := Poller.responses_of_receive hreceive
          exact .power reading others hphase hthere
        · split at h
          · rename_i hasked
            cases h
            exact .stop hphase hasked
          · cases h

theorem waits_of_nextEvent? (h : live.nextEvent? now = none) : live.Waits now := by
  unfold nextEvent? at h
  split at h
  · rename_i state hphase
    refine ⟨?_, ?_, ?_, ?_, ?_⟩ <;> simp [hphase]
  · rename_i hphase
    refine ⟨?_, ?_, ?_, ?_, ?_⟩ <;> simp [hphase]
  · cases h
  · rename_i hphase
    split at h
    · cases h
    · rename_i hlater
      split at h
      · cases h
      · rename_i hcold
        split at h
        · cases h
        · rename_i hdark
          split at h
          · cases h
          · rename_i hasked
            refine ⟨by simp [hphase], fun _ => Nat.lt_of_not_le hlater, fun _ => ?_, fun _ => ?_,
              fun _ => by simpa using hasked⟩
            · exact Poller.responses_of_not_receive hcold
            · exact Poller.responses_of_not_receive hdark

theorem Due.run_eq (h : live.Due now event next) : next.run = live.run := by
  cases h <;> rfl

/-! ## The load of a run -/

def devices (live : LiveRun) : Nat :=
  live.temperatures.load + live.power.load + live.gateway.load

/-- How many steps can still be taken for the run at one instant. -/
def load (live : LiveRun) (now : Nat) : Nat :=
  Run.planned live.run.phase live.nextTick now + live.devices

/-- Both pollers are as they can be. -/
def Within (live : LiveRun) : Prop := live.temperatures.Within ∧ live.power.Within

/-- Nobody asks or hears the pollers. -/
def Left (live : LiveRun) : Prop := live.temperatures.Left ∧ live.power.Left

/-! ## What the effects of an event do -/

/-- What no effect changes is the same after many. -/
theorem foldl_perform_eq {β : Type} (f : BenchSite × LiveRun → β)
    (hf : ∀ pair effect, f (perform pair effect) = f pair) (effects : List RunEffect)
    (pair : BenchSite × LiveRun) : f (effects.foldl perform pair) = f pair := by
  induction effects generalizing pair with
  | nil => rfl
  | cons effect rest ih => rw [List.foldl_cons, ih, hf]

/-- What an effect does not change. -/
theorem perform_keeps (pair : BenchSite × LiveRun) (effect : RunEffect) :
    (perform pair effect).2.run = pair.2.run ∧ (perform pair effect).2.nextTick = pair.2.nextTick ∧
      (perform pair effect).2.stopAsked = pair.2.stopAsked ∧
      (perform pair effect).1.now = pair.1.now ∧ (perform pair effect).1.kiln = pair.1.kiln := by
  cases effect with
  | request unit => cases unit <;> exact ⟨rfl, rfl, rfl, rfl, rfl⟩
  | _ => exact ⟨rfl, rfl, rfl, rfl, rfl⟩

theorem devices_perform_le (pair : BenchSite × LiveRun) (effect : RunEffect) :
    (perform pair effect).2.devices ≤ pair.2.devices + effect.cost := by
  have hgateway := (perform_live pair.1 pair.2 effect).2
  have hload := pair.2.gateway.load_after_le effect
  unfold devices
  rw [hgateway]
  cases effect with
  | request unit =>
    have htemperatures := pair.2.temperatures.load_send_le .read
    have hpower := pair.2.power.load_send_le .read
    cases unit <;> simp only [perform, Gateway.after, RunEffect.cost] <;> omega
  | archive =>
    have htemperatures := load_release_le pair.2.temperatures
    have hpower := load_release_le pair.2.power
    simp only [perform, RunEffect.cost, RunEffect.command?, Option.toList, List.length_nil] at hload ⊢
    omega
  | abandon =>
    have htemperatures := load_leave_le pair.2.temperatures
    have hpower := load_leave_le pair.2.power
    simp only [perform, RunEffect.cost, RunEffect.command?, Option.toList, List.length_nil] at hload ⊢
    omega
  | command command =>
    simp only [perform, RunEffect.cost, RunEffect.command?, Option.toList,
      List.length_singleton] at hload ⊢
    omega
  | _ =>
    simp only [perform, RunEffect.cost, RunEffect.command?, Option.toList, List.length_nil] at hload ⊢
    omega

theorem devices_foldl_le (effects : List RunEffect) (pair : BenchSite × LiveRun) :
    (effects.foldl perform pair).2.devices ≤ pair.2.devices + costOf effects := by
  induction effects generalizing pair with
  | nil => exact Nat.le_refl _
  | cons effect rest ih =>
    have hfirst := devices_perform_le pair effect
    have hrest := ih (perform pair effect)
    rw [List.foldl_cons, costOf_cons]
    omega

theorem Within.perform {live : LiveRun} (h : live.Within) (site : BenchSite)
    (effect : RunEffect) : (perform (site, live) effect).2.Within := by
  obtain ⟨htemperatures, hpower⟩ := h
  cases effect with
  | request unit =>
    cases unit
    · exact ⟨htemperatures.send .read, hpower⟩
    · exact ⟨htemperatures, hpower.send .read⟩
  | archive => exact ⟨within_leave (htemperatures.send .stop), within_leave (hpower.send .stop)⟩
  | abandon => exact ⟨within_leave htemperatures, within_leave hpower⟩
  | _ => exact ⟨htemperatures, hpower⟩

theorem Within.foldl {live : LiveRun} (h : live.Within) (site : BenchSite)
    (effects : List RunEffect) : (effects.foldl LiveRun.perform (site, live)).2.Within := by
  induction effects generalizing site live with
  | nil => exact h
  | cons effect rest ih => exact ih (h.perform site effect) _

theorem left_of_leavesAtLast {effects : List RunEffect} (h : LeavesAtLast effects)
    (pair : BenchSite × LiveRun) : (effects.foldl perform pair).2.Left := by
  obtain ⟨front, last, rfl, -, hlast⟩ := h
  rw [List.foldl_append]
  cases last with
  | archive => exact ⟨left_leave _, left_leave _⟩
  | abandon => exact ⟨left_leave _, left_leave _⟩
  | _ => cases hlast

theorem Tended.foldl {phase : RunPhase} (effects : List RunEffect) {pair : BenchSite × LiveRun}
    (h : Tended phase pair.2.gateway effects) :
    Tended phase (effects.foldl perform pair).2.gateway [] := by
  induction effects generalizing pair with
  | nil => exact h
  | cons effect rest ih =>
    apply ih
    rw [(perform_live pair.1 pair.2 effect).2]
    exact h.cons.2.2

/-- All commands come into the gateway. -/
theorem Tended.foldl_commands {phase : RunPhase} (effects : List RunEffect)
    {pair : BenchSite × LiveRun} (h : Tended phase pair.2.gateway effects) :
    (effects.foldl perform pair).2.gateway.commands =
      pair.2.gateway.commands ++ commandsIn effects := by
  induction effects generalizing pair with
  | nil => exact (List.append_nil _).symm
  | cons effect rest ih =>
    obtain ⟨hopen, hworking, hrest⟩ := h.cons
    have hgateway := (perform_live pair.1 pair.2 effect).2
    rw [List.foldl_cons, ih (hgateway ▸ hrest), hgateway,
      Gateway.after_commands effect hopen hworking, commandsIn_cons, List.append_assoc]

/-! ## Fit runs -/

/-- A run at work is in order: its queues are not overfull, its ticks are some time apart, when it is
over, the pollers have been left and the gateway has been closed, and one that has broken off has
sent nothing. -/
structure Fit (live : LiveRun) : Prop where
  within : live.Within
  timed : live.run.Timed
  shown : live.run.Shown
  left : ∀ state, live.run.phase = .over state → live.Left
  tended : Tended live.run.phase live.gateway []
  hushed : live.run.phase = .brokenOff → live.gateway.commands = []

theorem fit_fresh {run : Run} (logFile : OpenFile) (hphase : run.phase = .prepared)
    (hshown : run.Shown) : (fresh run logFile).Fit := by
  refine ⟨⟨⟨?_, ?_⟩, ⟨?_, ?_⟩⟩, ⟨?_, ?_⟩, hshown, ?_, ?_, ?_⟩
  all_goals simp [fresh, Poller.fresh, hphase, Tended]

variable {site : BenchSite}

theorem take_run (site : BenchSite) (live : LiveRun) (event : RunEvent) :
    (take site live event).2.run = (live.run.handle event site.clock (sink site live)).1 :=
  foldl_perform_eq (fun pair => pair.2.run) (fun pair effect => (perform_keeps pair effect).1) _ _

theorem take_nextTick (site : BenchSite) (live : LiveRun) (event : RunEvent) :
    (take site live event).2.nextTick = live.nextTick :=
  foldl_perform_eq (fun pair => pair.2.nextTick) (fun pair effect => (perform_keeps pair effect).2.1)
    _ _

theorem Due.within (h : live.Due now event next) (hlive : live.Within) : next.Within := by
  obtain ⟨htemperatures, hpower⟩ := hlive
  cases h with
  | temperatures reading rest phase there => exact ⟨htemperatures.taken there, hpower⟩
  | power reading rest phase there => exact ⟨htemperatures, hpower.taken there⟩
  | _ => exact ⟨htemperatures, hpower⟩

/-- A run ends in the middle, and then it leaves the units. -/
theorem Due.leaves {state : RunState} (h : live.Due now event next) (clock : Int)
    (answers : SinkAnswers)
    (hover : (live.run.handle event clock answers).1.phase = .over state) :
    LeavesAtLast (live.run.handle event clock answers).2 := by
  have hnot : live.run.phase ≠ .over state := by
    cases h <;> simp [*]
  have hcourse := (live.run.answers_handle event clock answers).2
  generalize live.run.told event clock = told at hcourse
  cases hcourse with
  | ignored same nothing => exact absurd (same ▸ hover) hnot
  | begun second before after => simp [hover] at after
  | brokeOff second before after => simp [hover] at after
  | wentOn told before after => simp [hover] at after
  | ended events ending before after inner leaves => exact leaves

theorem Due.tended (h : live.Due now event next) (clock : Int) (answers : SinkAnswers)
    (hlive : Tended live.run.phase live.gateway []) :
    let answer := live.run.handle event clock answers
    Tended answer.1.phase next.gateway answer.2 := by
  intro answer
  have hcourse := hlive.course (live.run.answers_handle event clock answers).2
  have htold := live.run.told_of_prepared event clock
  cases h with
  | begin phase =>
    rwa [if_pos ⟨phase, fun hnil => (htold phase).mp hnil rfl⟩] at hcourse
  | tick phase due => rwa [if_neg (by simp [phase])] at hcourse
  | temperatures reading rest phase there => rwa [if_neg (by simp [phase])] at hcourse
  | power reading rest phase there => rwa [if_neg (by simp [phase])] at hcourse
  | stop phase asked => rwa [if_neg (by simp [phase])] at hcourse

/-- A run breaks off when it begins, and then it has sent nothing. -/
theorem Due.hushed (h : live.Due now event next) (clock : Int) (answers : SinkAnswers)
    (hlive : Tended live.run.phase live.gateway [])
    (hbroken : (live.run.handle event clock answers).1.phase = .brokenOff) :
    next.gateway.commands = [] ∧ commandsIn (live.run.handle event clock answers).2 = [] := by
  have hnot : live.run.phase ≠ .brokenOff := by
    cases h <;> simp [*]
  obtain ⟨hpasses, hcourse⟩ := live.run.answers_handle event clock answers
  have hcommands := hpasses.commands
  generalize live.run.told event clock = told at hcourse hcommands
  cases hcourse with
  | ignored same nothing => exact absurd (same ▸ hbroken) hnot
  | begun second before after => simp [hbroken] at after
  | brokeOff second before after =>
    refine ⟨?_, hcommands⟩
    rw [before] at hlive
    cases h with
    | begin phase => rw [Gateway.start_commands, hlive.1, Gateway.fresh]
    | _ => simp_all
  | wentOn told before after => simp [hbroken] at after
  | ended events ending before after => simp [hbroken] at after

theorem Fit.take (h : live.Fit) (hdue : live.Due now event next) (site : BenchSite) :
    (take site next event).2.Fit := by
  have hrun := take_run site next event
  rw [hdue.run_eq] at hrun
  have htended := hdue.tended site.clock (sink site next) h.tended
  refine ⟨?_, ?_, ?_, ?_, ?_, ?_⟩
  · apply Within.foldl
    exact hdue.within h.within
  · rw [hrun]
    exact h.timed.handle _ _ _
  · rw [hrun]
    exact h.shown.handle _ _ _
  · intro state hover
    rw [hrun] at hover
    have hleaves := hdue.leaves _ _ hover
    rw [← hdue.run_eq] at hleaves
    exact left_of_leavesAtLast hleaves _
  · rw [hrun]
    unfold LiveRun.take
    rw [hdue.run_eq]
    exact Tended.foldl _ htended
  · intro hbroken
    rw [hrun] at hbroken
    obtain ⟨hnothing, hsent⟩ := hdue.hushed _ _ h.tended hbroken
    unfold LiveRun.take
    rw [hdue.run_eq, Tended.foldl_commands _ htended, hnothing, hsent]
    rfl

/-! ## Every step lowers the load -/

/-- What an event leaves to be done. -/
theorem load_take_le (site : BenchSite) (live : LiveRun) (event : RunEvent) (now : Nat) :
    let answer := live.run.handle event site.clock (sink site live)
    (take site live event).2.load now ≤
      Run.planned answer.1.phase live.nextTick now + costOf answer.2 + live.devices := by
  intro answer
  have hrun : (take site live event).2.run = answer.1 := take_run site live event
  have hdevices : (take site live event).2.devices ≤ live.devices + costOf answer.2 :=
    devices_foldl_le answer.2 (site, { live with run := answer.1 })
  rw [load, hrun, take_nextTick]
  omega

theorem Due.load_lt (h : live.Due now event next) (htimed : live.run.Timed) (site : BenchSite) :
    (take site next event).2.load now < live.load now := by
  have hload := load_take_le site next event now
  rw [h.run_eq] at hload
  generalize sink site next = answers at hload
  cases h with
  | begin phase =>
    have hspent := Run.spent_begin_le site.clock answers phase now
    have hstart := live.gateway.load_start_le
    have hprepared : Run.planned .prepared live.nextTick now = 13 := rfl
    simp only [load, devices, phase, tickAfter] at hload hspent ⊢
    omega
  | tick phase due =>
    have hspent := Run.spent_tick_le phase site.clock answers (live.tickAfter now) now
    have hlong : 0 < live.run.settings.tickLength.toNat :=
      Nat.pos_of_ne_zero fun hzero => htimed.1 phase (UInt64.toNat_inj.mp hzero)
    have hlater : ¬ live.tickAfter now ≤ now := by
      unfold tickAfter
      omega
    simp only [load, devices, phase, Run.planned, if_pos due, if_neg hlater] at hload hspent ⊢
    omega
  | temperatures reading rest phase there =>
    have hspent := Run.spent_reading_le phase (.inl ⟨reading, rfl⟩) site.clock answers
      live.nextTick now
    have hless := Poller.load_taken_lt there
    simp only [load, devices, phase] at hload hspent ⊢
    omega
  | power reading rest phase there =>
    have hspent := Run.spent_reading_le phase (.inr ⟨reading, rfl⟩) site.clock answers
      live.nextTick now
    have hless := Poller.load_taken_lt there
    simp only [load, devices, phase] at hload hspent ⊢
    omega
  | stop phase asked =>
    have hspent := Run.spent_stop_lt phase site.clock answers live.nextTick now
    simp only [load, phase] at hload hspent ⊢
    omega

/-! ## Steps -/

/-- What a step does with a run and with what it shares. -/
inductive Stepped (site : BenchSite) (live : LiveRun) : BenchSite → LiveRun → Prop where
  | hears {event : RunEvent} {next : LiveRun} (due : live.Due site.now event next) :
      Stepped site live (take site next event).1 (take site next event).2
  | readsTemperatures {temperatures : Poller Temperatures} (reads : Nat)
      (worked : live.temperatures.Worked site.kiln.temperatureSensor site.now temperatures) :
      Stepped site live
        { site with kiln := { site.kiln with
          temperatureReads := site.kiln.temperatureReads + reads } }
        { live with temperatures }
  | readsPower {power : Poller PowerReading} (reads : Nat)
      (worked : live.power.Worked site.kiln.powerSensor site.now power) :
      Stepped site live
        { site with kiln := { site.kiln with powerReads := site.kiln.powerReads + reads } }
        { live with power }
  | delivers {gateway : Gateway} {command : Option Command}
      (delivered : live.gateway.step? = some (gateway, command)) :
      Stepped site live
        { site with kiln := (command.map site.kiln.deliver).getD site.kiln } { live with gateway }

variable {siteNext : BenchSite}

theorem stepped_of_step? (h : live.step? site = some (siteNext, moved)) :
    Stepped site live siteNext moved := by
  unfold step? at h
  split at h
  · rename_i event next hnext
    have hhears := Stepped.hears (due_of_nextEvent? hnext)
    rwa [Option.some.inj h] at hhears
  · rcases Option.or_eq_some_iff.mp h with hpoll | ⟨-, h⟩
    · obtain ⟨⟨temperatures, reads⟩, hstep, heq⟩ := Option.map_eq_some_iff.mp hpoll
      cases heq
      exact .readsTemperatures reads (Poller.worked_of_step? hstep)
    rcases Option.or_eq_some_iff.mp h with hpoll | ⟨-, hdeliver⟩
    · obtain ⟨⟨power, reads⟩, hstep, heq⟩ := Option.map_eq_some_iff.mp hpoll
      cases heq
      exact .readsPower reads (Poller.worked_of_step? hstep)
    · obtain ⟨⟨gateway, command⟩, hstep, heq⟩ := Option.map_eq_some_iff.mp hdeliver
      cases heq
      cases command <;> exact .delivers hstep

/-- A run that cannot take a step: nothing is due, and its pollers and its gateway have to wait. -/
structure Stuck (site : BenchSite) (live : LiveRun) : Prop where
  waits : live.Waits site.now
  temperatures :
    live.temperatures.step? site.kiln.temperatureSensor site.now site.kiln.temperatureReads = none
  power : live.power.step? site.kiln.powerSensor site.now site.kiln.powerReads = none
  gateway : live.gateway.step? = none

theorem stuck_of_step? (h : live.step? site = none) : live.Stuck site := by
  unfold step? at h
  split at h
  · cases h
  · rename_i hnothing
    obtain ⟨htemperatures, hrest⟩ := Option.or_eq_none_iff.mp h
    obtain ⟨hpower, hgateway⟩ := Option.or_eq_none_iff.mp hrest
    exact ⟨waits_of_nextEvent? hnothing, Option.map_eq_none_iff.mp htemperatures,
      Option.map_eq_none_iff.mp hpower, Option.map_eq_none_iff.mp hgateway⟩

theorem take_site (site : BenchSite) (live : LiveRun) (event : RunEvent) :
    (take site live event).1.now = site.now ∧ (take site live event).1.kiln = site.kiln := by
  refine ⟨?_, ?_⟩
  · exact foldl_perform_eq (fun pair => pair.1.now)
      (fun pair effect => (perform_keeps pair effect).2.2.2.1) _ _
  · exact foldl_perform_eq (fun pair => pair.1.kiln)
      (fun pair effect => (perform_keeps pair effect).2.2.2.2) _ _

theorem take_stopAsked (site : BenchSite) (live : LiveRun) (event : RunEvent) :
    (take site live event).2.stopAsked = live.stopAsked :=
  foldl_perform_eq (fun pair => pair.2.stopAsked)
    (fun pair effect => (perform_keeps pair effect).2.2.1) _ _

/-- No step takes time. -/
theorem Stepped.now_eq (h : Stepped site live siteNext moved) : siteNext.now = site.now := by
  cases h with
  | hears due => exact (take_site site _ _).1
  | _ => rfl

/-- How long the reads of the two units take is no matter of the runs. -/
theorem Stepped.delay_eq (h : Stepped site live siteNext moved) :
    siteNext.kiln.temperatureDelay = site.kiln.temperatureDelay ∧
      siteNext.kiln.powerDelay = site.kiln.powerDelay := by
  cases h with
  | hears due => simp only [(take_site site _ _).2, and_self]
  | @delivers gateway command delivered =>
    cases command with
    | none => exact ⟨rfl, rfl⟩
    | some command =>
      dsimp only [Option.map_some, Option.getD_some, BenchKiln.deliver]
      split <;> exact ⟨rfl, rfl⟩
  | _ => exact ⟨rfl, rfl⟩

theorem Stepped.load_lt (h : Stepped site live siteNext moved) (hfit : live.Fit) :
    moved.load siteNext.now < live.load site.now := by
  rw [h.now_eq]
  cases h with
  | hears due => exact due.load_lt hfit.timed site
  | readsTemperatures reads worked =>
    have hless := worked.load_lt
    simp only [load, devices]
    omega
  | readsPower reads worked =>
    have hless := worked.load_lt
    simp only [load, devices]
    omega
  | delivers delivered =>
    have hless := Gateway.load_lt_of_step? delivered
    simp only [load, devices]
    omega

theorem Stepped.fit (h : Stepped site live siteNext moved) (hfit : live.Fit) : moved.Fit := by
  obtain ⟨⟨htemperatures, hpower⟩, htimed, hshown, hleft, htended, hhushed⟩ := hfit
  cases h with
  | hears due =>
    exact Fit.take ⟨⟨htemperatures, hpower⟩, htimed, hshown, hleft, htended, hhushed⟩ due site
  | readsTemperatures reads worked =>
    refine ⟨⟨worked.within htemperatures, hpower⟩, htimed, hshown, ?_, htended, hhushed⟩
    exact fun state hover => ⟨worked.left (hleft state hover).1, (hleft state hover).2⟩
  | readsPower reads worked =>
    refine ⟨⟨htemperatures, worked.within hpower⟩, htimed, hshown, ?_, htended, hhushed⟩
    exact fun state hover => ⟨(hleft state hover).1, worked.left (hleft state hover).2⟩
  | delivers delivered =>
    refine ⟨⟨htemperatures, hpower⟩, htimed, hshown, hleft, htended.deliver delivered, ?_⟩
    intro hbroken
    obtain ⟨-, ⟨first, rest, hcommands, -⟩ | ⟨hcommands, -, rfl, -⟩⟩ :=
      Gateway.step_cases delivered
    · simp [hhushed hbroken] at hcommands
    · exact hcommands

/-- The gateway of a run that has begun and cannot take a step has nothing to deliver. -/
theorem Stuck.gateway_load_le (h : live.Stuck site) (hfit : live.Fit) : live.gateway.load ≤ 1 := by
  have hnothing : live.gateway.commands = [] := by
    have hworking : live.gateway.delivery = .working → live.gateway.commands = [] := by
      intro hworking
      cases hcommands : live.gateway.commands with
      | nil => rfl
      | cons first rest => simpa [Gateway.step?, hworking, hcommands] using h.gateway
    have htended := hfit.tended
    cases hphase : live.run.phase with
    | prepared => exact absurd hphase h.waits.begun
    | active =>
      rw [hphase] at htended
      exact hworking htended.2.1
    | _ =>
      rw [hphase] at htended
      rcases htended with ⟨-, hw, -⟩ | ⟨-, -, hw | ⟨-, hcommands⟩⟩
      · exact hworking hw
      · exact hworking hw
      · exact hcommands
  simp only [Gateway.load, hnothing, List.length_nil]
  split <;> omega

/-- Once a run cannot take a step, there is no instant at which it could take too many. -/
theorem Stuck.load_le (h : live.Stuck site) (hfit : live.Fit) (now : Nat) : live.load now ≤ 73 := by
  have htemperatures := Poller.load_le hfit.within.1
  have hpower := Poller.load_le hfit.within.2
  have hgateway := h.gateway_load_le hfit
  have hplanned : Run.planned live.run.phase live.nextTick now ≤ 24 := by
    unfold Run.planned
    split <;> try split
    all_goals omega
  unfold load devices
  omega

end LiveRun

/-! ## A bench -/

namespace Bench

/-- All runs on the bench are fit, and none of them can take more steps at this instant than a
bench allows it. -/
def Fit (bench : Bench) : Prop :=
  ∀ live ∈ bench.runs, live.Fit ∧ live.load bench.site.now ≤ stepsAtOnce

/-- All that happens at this instant has happened. -/
def Idle (bench : Bench) : Prop := ∀ live ∈ bench.runs, live.step? bench.site = none

/-- How many steps the runs can still take at this instant. -/
def load (bench : Bench) : Nat := (bench.runs.map fun live => live.load bench.site.now).sum

variable {bench next : Bench}

/-- One run has taken a step, and the others are as they were. -/
inductive Moved : Bench → Bench → Prop where
  | run {site next : BenchSite} {before after : List LiveRun} {live moved : LiveRun}
      (step : live.step? site = some (next, moved)) :
      Moved ⟨site, before ++ live :: after⟩ ⟨next, before ++ moved :: after⟩

theorem moved_of_stepRuns? {site siteNext : BenchSite} {runs runsNext : List LiveRun}
    (h : stepRuns? site runs = some (siteNext, runsNext)) :
    ∃ before live moved after, runs = before ++ live :: after ∧
      runsNext = before ++ moved :: after ∧ live.step? site = some (siteNext, moved) := by
  induction runs generalizing runsNext with
  | nil => cases h
  | cons live rest ih =>
    unfold stepRuns? at h
    split at h
    · rename_i moved hmoved
      cases h
      exact ⟨[], live, moved, rest, rfl, rfl, hmoved⟩
    · obtain ⟨⟨_, restNext⟩, hrest, heq⟩ := Option.map_eq_some_iff.mp h
      cases heq
      obtain ⟨before, stepping, moved, after, rfl, rfl, hmoved⟩ := ih hrest
      exact ⟨live :: before, stepping, moved, after, rfl, rfl, hmoved⟩

theorem moved_of_step? (h : bench.step? = some next) : bench.Moved next := by
  obtain ⟨site, runs⟩ := bench
  obtain ⟨⟨siteNext, runsNext⟩, hstep, rfl⟩ := Option.map_eq_some_iff.mp h
  obtain ⟨before, live, moved, after, rfl, rfl, hmoved⟩ := moved_of_stepRuns? hstep
  exact .run hmoved

theorem idle_of_step? (h : bench.step? = none) : bench.Idle := by
  obtain ⟨site, runs⟩ := bench
  have hnone : stepRuns? site runs = none := Option.map_eq_none_iff.mp h
  clear h
  unfold Idle
  induction runs with
  | nil => simp
  | cons live rest ih =>
    unfold stepRuns? at hnone
    split at hnone
    · cases hnone
    · rename_i hstuck
      exact List.forall_mem_cons.mpr ⟨hstuck, ih (Option.map_eq_none_iff.mp hnone)⟩

theorem Moved.fit (h : bench.Moved next) (hfit : bench.Fit) : next.Fit := by
  cases h with
  | @run site siteNext before after live moved step =>
    have hstepped := LiveRun.stepped_of_step? step
    have hnow := hstepped.now_eq
    simp only [Fit, List.forall_mem_append, List.forall_mem_cons, hnow] at hfit ⊢
    obtain ⟨hbefore, ⟨hlive, hload⟩, hafter⟩ := hfit
    have hless := hstepped.load_lt hlive
    rw [hnow] at hless
    exact ⟨hbefore, ⟨hstepped.fit hlive, by omega⟩, hafter⟩

theorem Moved.load_lt (h : bench.Moved next) (hfit : bench.Fit) : next.load < bench.load := by
  cases h with
  | @run site siteNext before after live moved step =>
    have hstepped := LiveRun.stepped_of_step? step
    have hless := hstepped.load_lt (hfit live (by simp)).1
    simp only [load, hstepped.now_eq, List.map_append, List.map_cons, List.sum_append,
      List.sum_cons] at hless ⊢
    omega

theorem idle_steps {count : Nat} (hfit : bench.Fit) (h : bench.load ≤ count) :
    (bench.steps count).Idle := by
  induction count generalizing bench with
  | zero =>
    cases hstep : bench.step? with
    | none => exact idle_of_step? hstep
    | some next =>
      have hless := (moved_of_step? hstep).load_lt hfit
      omega
  | succ count ih =>
    unfold steps
    split
    · rename_i next hstep
      have hmoved := moved_of_step? hstep
      have hless := hmoved.load_lt hfit
      exact ih (hmoved.fit hfit) (by omega)
    · rename_i hstep
      exact idle_of_step? hstep

theorem Fit.load_le (hfit : bench.Fit) : bench.load ≤ stepsAtOnce * bench.runs.length := by
  have hsum := List.sum_le_card_nsmul (bench.runs.map fun live => live.load bench.site.now)
    stepsAtOnce (by simpa using fun live hmem => (hfit live hmem).2)
  simpa [load, Nat.mul_comm] using hsum

/-- The steps that a bench allows itself at one instant are enough. -/
theorem Fit.idle_settle (hfit : bench.Fit) : bench.settle.Idle := idle_steps hfit hfit.load_le

/-- A bench on which nothing is left to happen is fit at any instant. -/
theorem Fit.at_ (hfit : bench.Fit) (hidle : bench.Idle) (now : Nat) : (bench.at_ now).Fit := by
  intro live hmem
  have hlive := (hfit live hmem).1
  have hload := (LiveRun.stuck_of_step? (hidle live hmem)).load_le hlive now
  exact ⟨hlive, Nat.le_trans hload (by decide)⟩

end Bench
end DryKiln
