-- The time limit of a program as a hard stop. Whatever stage a tick after the limit finds, it leaves
-- a controller that is over and sends nothing but zeros; only the first tick after a start is not
-- held to the limit, and that one sends nothing at all. The stop holds as long as the time since the
-- start fits into a word: beyond that the limit is ahead again.
import DryKiln.Proofs.Control.Limits

namespace DryKiln
namespace Controller

/-! ## One tick -/

/-- Commands that turn the actuators off ask for no power. -/
theorem percent_of_mem_offCommands {c : Controller} {command : Command}
    (h : command ∈ c.offCommands) : command.percent = 0 := by
  unfold offCommands at h
  split at h
  · cases h
  · obtain ⟨channel, _, rfl⟩ := List.mem_map.mp h
    cases channel <;> rfl

/-- After a tick that comes too late the run is over, unless the tick is the first one. -/
theorem isTerminal_of_late {c : Controller} {now : Int} (late : c.overdue now = true)
    (started : c.stage ≠ .start) : (c.tick now).1.stage.isTerminal = true := by
  by_cases active : c.stage.isTerminal = true
  · rw [tick, if_pos active]
    exact active
  · have hfailed := (Ticked.overran started (by simpa using active) late).tick_eq
    rw [hfailed]
    rfl

/-- A tick that comes too late sends nothing but zeros, in whatever stage it finds the controller. -/
theorem percent_of_late {c : Controller} {now : Int} (late : c.overdue now = true)
    {command : Command} (h : command ∈ (c.tick now).2) : command.percent = 0 := by
  have ht := c.ticked now
  generalize (c.tick now).1 = next, (c.tick now).2 = commands at ht h
  cases ht with
  | overran => exact percent_of_mem_offCommands h
  | ended | begun => cases h
  | waited _ inTime | warmed _ inTime | lagged _ inTime | heated _ inTime | caughtUp _ inTime
  | entered _ _ inTime | finished _ inTime | left _ inTime | gaveUp inTime
  | regulated _ inTime => cases inTime.symm.trans late

/-! ## Whole runs -/

/-- Whoever has had a tick since the last start is past the stage at the start. -/
theorem started_of_ticked (program : Program) (past : List ControlEvent) (now : Int)
    {events : List ControlEvent} (hevents : ∀ event ∈ events, event.isStart = false) :
    ((new program).after (past ++ .tick now :: events)).stage ≠ .start := by
  have hticked : Placed (((new program).after past).tick now).1 :=
    placed_tick now (placed_or_start program past)
  have hplaced := placed_after hevents hticked
  rw [List.append_cons, after_append, after_concat]
  exact hplaced.started

/-- A rest at full power, longer than the program allows. -/
def hotRest : Program :=
  ⟨"oak", [⟨"rest", .acclimate, some 40, some 5000, .fill (some (.constant 100))⟩], some 1000⟩

end Controller
end DryKiln
