-- How much can happen at one instant. It is counted how often a run, its pollers and its gateway can
-- still be at work before they have to wait for another instant; every step takes something from the
-- count, so the steps that a bench allows itself are always enough.
import DryKiln.Bench.Basic
import DryKiln.Proofs.Device.Poller
import DryKiln.Proofs.Run.Completion
import DryKiln.Proofs.Run.Identity
import Mathlib.Algebra.GroupWithZero.Nat

namespace DryKiln

/-! ## Pollers that are left -/

namespace LiveRun

theorem within_leave {α : Type} {p : Poller α} (h : p.Within) : (leave p).Within :=
  ⟨h.requests, by simp [leave, Poller.deafen, Poller.hangUp]⟩

theorem left_leave {α : Type} (p : Poller α) : (leave p).Left := ⟨rfl, rfl⟩

theorem load_leave_le {α : Type} (p : Poller α) : (leave p).load ≤ p.load := by
  simp only [leave, Poller.deafen, Poller.hangUp, Poller.load, List.length_nil]
  omega

theorem load_release_le {α : Type} (p : Poller α) : (release p).load ≤ p.load + 4 :=
  Nat.le_trans (load_leave_le _) (p.load_send_le .stop)

end LiveRun

/-! ## Gateways -/

/-- How many steps the gateway can still take. -/
def Gateway.load (g : Gateway) : Nat := g.commands.length + if g.isFinished then 0 else 1

theorem Gateway.load_lt_of_step? {g next : Gateway} {command : Option Command}
    (h : g.step? = some (next, command)) : next.load < g.load := by
  obtain ⟨hworking, ⟨first, rest, hcommands, rfl, -⟩ | ⟨hcommands, -, rfl, -⟩⟩ :=
    Gateway.step_cases h
  · simp [load, hcommands, isFinished]
  · simp [load, hcommands, isFinished, hworking]

theorem Gateway.load_after_le (g : Gateway) (effect : RunEffect) :
    (g.after effect).load ≤ g.load + effect.command?.toList.length := by
  cases effect with
  | command command =>
    obtain ⟨hlength, hdelivery⟩ := g.length_after_le (.command command)
    have hfinished : (g.after (.command command)).isFinished = g.isFinished := by
      rw [isFinished, isFinished, hdelivery]
    simp only [load, hfinished, RunEffect.command?, Option.toList, List.length_singleton]
    omega
  | _ => simp [after, load, close, isFinished]

theorem Gateway.load_start_le (g : Gateway) : g.start.load ≤ g.load := by
  unfold start
  split
  · rename_i hready
    simp [load, isFinished, hready]
  · exact Nat.le_refl _

/-! ## What an event costs -/

/-- How many steps an effect may add to what the pollers and the gateway can still do. -/
def RunEffect.cost : RunEffect → Nat
  | .request _ => 4
  | .command _ => 1
  | .archive => 8
  | .store _ | .write _ | .abandon => 0

def costOf (effects : List RunEffect) : Nat := (effects.map RunEffect.cost).sum

@[simp] theorem costOf_nil : costOf [] = 0 := rfl

@[simp] theorem costOf_cons (effect : RunEffect) (rest : List RunEffect) :
    costOf (effect :: rest) = effect.cost + costOf rest := rfl

@[simp] theorem costOf_append (first second : List RunEffect) :
    costOf (first ++ second) = costOf first + costOf second := by
  simp [costOf]

theorem PerChannel.length_commands (percents : PerChannel UInt8) : percents.commands.length = 3 := rfl

theorem Controller.length_offCommands_le (c : Controller) : c.offCommands.length ≤ 3 := by
  unfold offCommands
  split
  · simp
  · exact Nat.le_of_eq (PerChannel.length_commands _)

/-- No event has more than three commands. -/
theorem Controller.length_handle_le (c : Controller) (event : ControlEvent) :
    (c.handle event).2.length ≤ 3 := by
  cases event with
  | tick now =>
    have hticked := c.ticked now
    unfold handle
    generalize (c.tick now).1 = next, (c.tick now).2 = commands at hticked ⊢
    cases hticked with
    | overran => exact c.length_offCommands_le
    | finished => exact c.length_offCommands_le
    | gaveUp => exact c.length_offCommands_le
    | regulated =>
      rcases c.regulate_cases now with h | ⟨step, table, -, h⟩ <;> rw [h]
      · simp
      · exact Nat.le_of_eq (PerChannel.length_commands _)
    | _ => simp
  | shutdown =>
    rw [handle, shutdown_eq]
    exact c.length_offCommands_le
  | _ => simp [handle, start, enter]

namespace Run

@[simp] theorem costOf_commandEffects (commands : List Command) :
    costOf (commandEffects commands) = commands.length := by
  induction commands with
  | nil => rfl
  | cons command rest ih =>
    rw [commandEffects, List.map_cons, costOf_cons, ← commandEffects, ih]
    simp [RunEffect.cost, Nat.add_comm]

@[simp] theorem costOf_writeEffects (text : String) : costOf (writeEffects text) = 0 := by
  unfold writeEffects
  split <;> rfl

theorem costOf_staleRequests_le (run : Run) (now : Int) : costOf (run.staleRequests now) ≤ 8 := by
  unfold staleRequests
  dsimp only
  split <;> split <;> simp [RunEffect.cost]

theorem costOf_control (run : Run) (event : ControlEvent) (now : Int) (accepts : WriteAnswers) :
    costOf (run.control event now accepts).2 = (run.controller.handle event).2.length := by
  simp [control, publish]

/-- A run that ends turns off three actuators and asks two pollers to stop. -/
theorem costOf_finish_le (run : Run) (state : RunState) (now : Int) (sink : SinkAnswers) :
    costOf (run.finish state now sink).2 ≤ 11 := by
  have hcommands := run.controller.length_handle_le .shutdown
  have hcost := run.costOf_control .shutdown now sink.lastRow
  simp only [finish, costOf_cons, costOf_append, costOf_writeEffects, costOf_nil, RunEffect.cost]
  omega

/-- How many steps a run can still take at one instant or cause: one beginning, one tick and one
end, a tick with three commands and two requests, an end with three commands and two more. -/
def planned (phase : RunPhase) (nextTick now : Nat) : Nat :=
  match phase with
  | .prepared => 13
  | .active => 12 + if nextTick ≤ now then 12 else 0
  | .brokenOff | .over _ => 0

/-- A beginning sends nothing, and the first tick comes later. -/
theorem spent_begin_le {run : Run} (clock : Int) (sink : SinkAnswers)
    (hphase : run.phase = .prepared) (now : Nat) :
    let answer := run.handle .begin clock sink
    planned answer.1.phase (now + run.settings.tickLength.toNat) now + costOf answer.2 ≤ 12 := by
  have hcost := costOf_control { run with phase := .active } (.start clock) clock sink.row
  have hnothing : costOf (control { run with phase := .active } (.start clock) clock
      sink.row).2 = 0 := hcost
  simp only [handle, hphase]
  split
  · simp [hnothing, planned, RunEffect.cost]
  · rename_i hlong
    have hpositive : 0 < run.settings.tickLength.toNat :=
      Nat.pos_of_ne_zero fun hzero => hlong (UInt64.toNat_inj.mp hzero)
    have hphase' : (control { run with phase := .active } (.start clock) clock
      sink.row).1.phase = .active := rfl
    simp only [hphase', planned, costOf_cons, hnothing, RunEffect.cost]
    split <;> omega

/-- An end at the end of an event has been planned. -/
theorem spent_conclude_le {amount : Nat} {before : Run × List RunEffect}
    (hphase : before.1.phase = .active) (hcost : costOf before.2 ≤ amount) (clock : Int)
    (sink : SinkAnswers) (nextTick now : Nat) :
    planned (conclude clock sink before).1.phase nextTick now +
      costOf (conclude clock sink before).2 ≤ planned .active nextTick now + amount := by
  unfold conclude
  split
  · have hfinish := before.1.costOf_finish_le before.1.finalState clock sink
    have hphase' : (before.1.finish before.1.finalState clock sink).1.phase =
      .over before.1.finalState := rfl
    simp only [hphase', planned, costOf_append]
    omega
  · rw [hphase]
    omega

theorem spent_tick_le {run : Run} (hphase : run.phase = .active) (clock : Int)
    (sink : SinkAnswers) (nextTick now : Nat) :
    let answer := run.handle .tick clock sink
    planned answer.1.phase nextTick now + costOf answer.2 ≤ planned .active nextTick now + 11 := by
  have hcost : costOf (run.staleRequests clock ++ (run.control (.tick clock) clock sink.row).2) ≤
      11 := by
    have hrequests := run.costOf_staleRequests_le clock
    have hcommands := run.controller.length_handle_le (.tick clock)
    rw [costOf_append, run.costOf_control]
    omega
  simp only [handle, hphase]
  exact spent_conclude_le hphase hcost clock sink nextTick now

/-- A reading costs nothing but the end that it may bring. -/
theorem spent_reading_le {run : Run} (hphase : run.phase = .active) {event : RunEvent}
    (hreading : (∃ reading, event = .temperatures reading) ∨ ∃ reading, event = .power reading)
    (clock : Int) (sink : SinkAnswers) (nextTick now : Nat) :
    let answer := run.handle event clock sink
    planned answer.1.phase nextTick now + costOf answer.2 ≤ planned .active nextTick now := by
  rcases hreading with ⟨reading, rfl⟩ | ⟨reading, rfl⟩ <;> simp only [handle, hphase]
  · have hcost := run.costOf_control (.temperatures reading clock) clock sink.row
    exact spent_conclude_le hphase (Nat.le_of_eq hcost) clock sink nextTick now
  · have hcost := run.costOf_control (.power reading clock) clock sink.row
    exact spent_conclude_le hphase (Nat.le_of_eq hcost) clock sink nextTick now

theorem spent_stop_lt {run : Run} (hphase : run.phase = .active) (clock : Int)
    (sink : SinkAnswers) (nextTick now : Nat) :
    let answer := run.handle .stop clock sink
    planned answer.1.phase nextTick now + costOf answer.2 < planned .active nextTick now := by
  simp only [handle, hphase]
  have hfinish := (run.publish clock sink.row).1.costOf_finish_le .canceled clock sink
  have hpublish : costOf (run.publish clock sink.row).2 = 0 := costOf_writeEffects _
  have hphase' : ((run.publish clock sink.row).1.finish .canceled clock sink).1.phase =
    .over .canceled := rfl
  simp only [hphase', planned, costOf_append, hpublish]
  omega

end Run
end DryKiln
