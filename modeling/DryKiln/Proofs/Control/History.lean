-- Histories of a controller: where it stands after several events, what it has sent by then, what
-- has been reported to it, what an observer notes down who sees every event, and what can be seen.
import DryKiln.Proofs.Control.Tick
import Mathlib.Data.List.Induction

namespace DryKiln

/-! ## Events -/

namespace ControlEvent

def isStart : ControlEvent → Bool
  | start _ => true
  | _ => false

def isTick : ControlEvent → Bool
  | tick _ => true
  | _ => false

def isShutdown : ControlEvent → Bool
  | shutdown => true
  | _ => false

/-- The temperature reading that arrives with an event. -/
def temperatures? : ControlEvent → Option (Snapshot Temperatures)
  | temperatures reading received => some ⟨received, reading⟩
  | _ => none

/-- The reading of the power unit that arrives with an event. -/
def power? : ControlEvent → Option (Snapshot PowerReading)
  | power reading received => some ⟨received, reading⟩
  | _ => none

/-- The last of the readings that arrive with several events. -/
def latest {α : Type} (reading? : ControlEvent → Option α) (events : List ControlEvent) : Option α :=
  events.reverse.findSome? reading?

theorem latest_concat {α : Type} (reading? : ControlEvent → Option α) (events : List ControlEvent)
    (event : ControlEvent) :
    latest reading? (events ++ [event]) = (reading? event).or (latest reading? events) := by
  cases h : reading? event <;> simp [latest, h]

end ControlEvent

/-! ## Notes -/

/-- What an observer notes down who sees each event and those before it. -/
def observeFrom {ε α : Type} (note : List ε → ε → List α) (past : List ε) : List ε → List α
  | [] => []
  | event :: events => note past event ++ observeFrom note (past ++ [event]) events

def observe {ε α : Type} (note : List ε → ε → List α) (events : List ε) : List α :=
  observeFrom note [] events

theorem observeFrom_append {ε α : Type} (note : List ε → ε → List α) (past first second : List ε) :
    observeFrom note past (first ++ second) =
      observeFrom note past first ++ observeFrom note (past ++ first) second := by
  induction first generalizing past with
  | nil => simp [observeFrom]
  | cons event rest ih => simp [observeFrom, ih]

@[simp] theorem observe_nil {ε α : Type} (note : List ε → ε → List α) : observe note [] = [] := rfl

theorem observe_concat {ε α : Type} (note : List ε → ε → List α) (events : List ε) (event : ε) :
    observe note (events ++ [event]) = observe note events ++ note events event := by
  simp [observe, observeFrom_append, observeFrom]

/-! ## Histories -/

namespace Controller

/-- The controller after several events. -/
def after (c : Controller) (events : List ControlEvent) : Controller := (c.run events).1

/-- All commands sent during several events. -/
def sent (c : Controller) (events : List ControlEvent) : List Command := (c.run events).2

theorem run_append (c : Controller) (first second : List ControlEvent) :
    c.run (first ++ second) =
      (((c.run first).1.run second).1, (c.run first).2 ++ ((c.run first).1.run second).2) := by
  induction first generalizing c with
  | nil => rfl
  | cons event rest ih => simp [run, ih]

@[simp] theorem after_nil (c : Controller) : c.after [] = c := rfl

@[simp] theorem sent_nil (c : Controller) : c.sent [] = [] := rfl

theorem after_append (c : Controller) (first second : List ControlEvent) :
    c.after (first ++ second) = (c.after first).after second := by
  simp [after, run_append]

theorem sent_append (c : Controller) (first second : List ControlEvent) :
    c.sent (first ++ second) = c.sent first ++ (c.after first).sent second := by
  simp [after, sent, run_append]

theorem after_concat (c : Controller) (events : List ControlEvent) (event : ControlEvent) :
    c.after (events ++ [event]) = ((c.after events).handle event).1 := after_append c events [event]

theorem sent_concat (c : Controller) (events : List ControlEvent) (event : ControlEvent) :
    c.sent (events ++ [event]) = c.sent events ++ ((c.after events).handle event).2 := by
  rw [sent_append]
  simp [sent, run]

/-- What every event keeps is kept by a history. -/
theorem after_invariant {P : Controller → Prop} {A : ControlEvent → Prop}
    (kept : ∀ c event, A event → P c → P (c.handle event).1) (c : Controller)
    (events : List ControlEvent) (hall : ∀ event ∈ events, A event) (h : P c) :
    P (c.after events) := by
  induction events using List.reverseRecOn with
  | nil => exact h
  | append_singleton events event ih =>
    rw [after_concat]
    exact kept _ _ (hall event (by simp)) (ih fun e he => hall e (by simp [he]))

@[simp] theorem handle_program (c : Controller) (event : ControlEvent) :
    (c.handle event).1.program = c.program := by
  cases event with
  | start now => rfl
  | tick now => exact (c.tick_keeps now).1
  | temperatures reading received => rfl
  | power reading received => rfl
  | shutdown => simp only [handle, shutdown_eq]

@[simp] theorem after_program (c : Controller) (events : List ControlEvent) :
    (c.after events).program = c.program := by
  induction events using List.reverseRecOn with
  | nil => rfl
  | append_singleton events event ih => rw [after_concat, handle_program, ih]

theorem handle_startedAt (c : Controller) {event : ControlEvent} (hs : event.isStart = false) :
    (c.handle event).1.startedAt = c.startedAt := by
  cases event with
  | start now => simp [ControlEvent.isStart] at hs
  | tick now => exact (c.tick_keeps now).2.1
  | temperatures reading received => rfl
  | power reading received => rfl
  | shutdown => simp only [handle, shutdown_eq]

/-- The second of the start is remembered until the next one. -/
theorem startedAt_after_start (c : Controller) (start : Int) {events : List ControlEvent}
    (hevents : ∀ event ∈ events, event.isStart = false) :
    (c.after (.start start :: events)).startedAt = start :=
  after_invariant (P := fun d => d.startedAt = start)
    (fun d _ hs hd => (d.handle_startedAt hs).trans hd) (c.start start).1 events hevents rfl

/-- The live readings are the last ones that have arrived. -/
theorem live_after (c : Controller) (events : List ControlEvent) :
    (c.after events).live =
      ⟨(ControlEvent.latest ControlEvent.temperatures? events).getD c.live.temperatures,
        (ControlEvent.latest ControlEvent.power? events).getD c.live.power⟩ := by
  induction events using List.reverseRecOn with
  | nil => rfl
  | append_singleton events event ih =>
    rw [after_concat, ControlEvent.latest_concat, ControlEvent.latest_concat]
    cases event with
    | start now => exact ih
    | tick now => exact ((tick_keeps _ now).2.2).trans ih
    | temperatures reading received =>
      simp only [handle, recordTemperatures, ih]
      rfl
    | power reading received =>
      simp only [handle, recordPower, ih]
      rfl
    | shutdown =>
      simp only [handle, shutdown_eq, ih]
      rfl

/-! ## Views -/

/-- What can be seen of one event: the commands, and where the controller stands after it. -/
structure View where
  commands : List Command
  stage : Stage
  position : Option Nat
  status : Status
deriving DecidableEq, Repr

/-- The commands and the stage alone. -/
def View.deed (view : View) : List Command × Stage := (view.commands, view.stage)

def view (c : Controller) (event : ControlEvent) : View :=
  ⟨(c.handle event).2, (c.handle event).1.stage, (c.handle event).1.position,
    (c.handle event).1.status⟩

/-- What can be seen of several events, one after the other. -/
def views (c : Controller) : List ControlEvent → List View
  | [] => []
  | event :: events => c.view event :: (c.handle event).1.views events

end Controller
end DryKiln
