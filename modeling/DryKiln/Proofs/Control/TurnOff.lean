-- How often a run turns its actuators off. A run that is started once turns them off when its
-- program is over, or else when it is stopped: once in all, and nothing is sent after that.
import DryKiln.Proofs.Control.Trace

namespace DryKiln
namespace Controller

/-- The commands of an event after which the actuators count as turned off, and before which they
did not. -/
def turnOff (c : Controller) (past : List ControlEvent) (event : ControlEvent) : List Batch :=
  if (c.after past).stopped = false ∧ (c.after (past ++ [event])).stopped = true then
    [⟨past, event, ((c.after past).handle event).2⟩]
  else []

def turnOffs (c : Controller) : List ControlEvent → List Batch := observe c.turnOff

/-- One event of a history turns the actuators off; nothing is sent after it. -/
def TurnedOffOnce (c : Controller) (events : List ControlEvent) : Prop :=
  ∃ past event rest, events = past ++ event :: rest ∧ c.turnOffs events = [⟨past, event, allOff⟩] ∧
    c.sent events = c.sent past ++ allOff ∧ (c.after (past ++ [event])).sent rest = []

theorem turnOffs_concat (c : Controller) (events : List ControlEvent) (event : ControlEvent) :
    c.turnOffs (events ++ [event]) = c.turnOffs events ++ c.turnOff events event :=
  observe_concat _ _ _

/-- The first event that turns the actuators off. -/
theorem turnedOffOnce_of_first {c : Controller} {events : List ControlEvent} {event : ControlEvent}
    (hnone : c.turnOffs events = []) (hbefore : (c.after events).stopped = false)
    (hafter : (c.after (events ++ [event])).stopped = true) :
    c.TurnedOffOnce (events ++ [event]) := by
  have hsent : ((c.after events).handle event).2 = allOff := by
    rw [after_concat] at hafter
    exact sent_of_first_release hbefore hafter
  refine ⟨events, event, [], rfl, ?_, ?_, rfl⟩
  · rw [turnOffs_concat, hnone, turnOff, if_pos ⟨hbefore, hafter⟩, hsent]
    rfl
  · rw [sent_concat, hsent]

/-- It stays the only one as long as nothing is sent. -/
theorem TurnedOffOnce.concat {c : Controller} {events : List ControlEvent} {event : ControlEvent}
    (h : c.TurnedOffOnce events) (hbefore : (c.after events).stopped = true)
    (hsilent : ((c.after events).handle event).2 = []) : c.TurnedOffOnce (events ++ [event]) := by
  obtain ⟨past, last, rest, rfl, hoffs, hsent, hrest⟩ := h
  refine ⟨past, last, rest ++ [event], by simp, ?_, ?_, ?_⟩
  · rw [turnOffs_concat, hoffs, turnOff, if_neg (by simp [hbefore])]
    rfl
  · rw [sent_concat, hsent, hsilent, List.append_nil]
  · rw [sent_concat, hrest, ← after_append, List.append_assoc]
    exact hsilent

/-- As long as a run is not stopped, its actuators have been turned off once if its program is over,
and not at all if it is not. -/
theorem turnedOffOnce_of_isTerminal (program : Program) (start : Int) {events : List ControlEvent}
    (hevents : Undisturbed events) :
    let history := .start start :: events
    ((new program).after history).stage.isTerminal = true ∧
        (new program).TurnedOffOnce history ∨
      ((new program).after history).stage.isTerminal = false ∧
        (new program).turnOffs history = [] := by
  induction events using List.reverseRecOn with
  | nil => exact Or.inr ⟨rfl, rfl⟩
  | append_singleton events event ih =>
    obtain ⟨hpast, hevent⟩ := undisturbed_append.mp hevents
    have hbefore := stopped_eq_isTerminal (new program) start hpast
    have hafter := stopped_eq_isTerminal (new program) start hevents
    rw [← List.cons_append] at hafter ⊢
    rcases ih hpast with ⟨hover, honce⟩ | ⟨hactive, hnone⟩
    · -- the program was over before, so the event changes at most the live readings
      obtain ⟨hkept, hsilent⟩ := run_of_isTerminal hover hevent
      refine Or.inl ⟨?_, honce.concat (hbefore.trans hover) ?_⟩
      · rw [after_append, hkept]
        exact hover
      · simpa [sent, run] using hsilent
    · by_cases hnext : ((new program).after (.start start :: events ++ [event])).stage.isTerminal
      · exact Or.inl ⟨hnext,
          turnedOffOnce_of_first hnone (hbefore.trans hactive) (hafter.trans hnext)⟩
      · have hgoesOn := Bool.eq_false_iff.mpr hnext
        have hrunning := hafter.trans hgoesOn
        refine Or.inr ⟨hgoesOn, ?_⟩
        rw [turnOffs_concat, hnone, turnOff,
          if_neg fun h => Bool.false_ne_true (hrunning.symm.trans h.2)]
        rfl

/-- A run that is stopped in the end has turned its actuators off once, whether or not its program
was over before. -/
theorem turnedOffOnce_of_shutdown (program : Program) (start : Int) {events : List ControlEvent}
    (hevents : Undisturbed events) :
    (new program).TurnedOffOnce (.start start :: events ++ [.shutdown]) := by
  have hstopped := stopped_eq_isTerminal (new program) start hevents
  have hafter : ((new program).after (.start start :: events ++ [.shutdown])).stopped = true := by
    rw [after_concat, handle, shutdown_eq]
  rcases turnedOffOnce_of_isTerminal program start hevents with ⟨hover, honce⟩ | ⟨hactive, hnone⟩
  · refine honce.concat (hstopped.trans hover) ?_
    rw [handle, shutdown_eq]
    exact offCommands_of_stopped (hstopped.trans hover)
  · exact turnedOffOnce_of_first hnone (hstopped.trans hactive) hafter

end Controller
end DryKiln
