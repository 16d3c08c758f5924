-- What a run shows, and what it writes meanwhile. After each thing that it tells its controller a
-- run shows its status, and what it writes is what its log makes of the statuses that are shown.
import DryKiln.Proofs.Log.Column
import DryKiln.Proofs.Run.Effects
import DryKiln.Proofs.Run.Record

namespace DryKiln

/-! ## What is written -/

/-- The text that an effect writes. -/
def RunEffect.text? : RunEffect → Option String
  | .write text => some text
  | _ => none

/-- All that several effects write, in order. -/
def writtenBy (effects : List RunEffect) : String :=
  String.join (effects.filterMap RunEffect.text?)

@[simp] theorem writtenBy_nil : writtenBy [] = "" := rfl

@[simp] theorem writtenBy_append (first second : List RunEffect) :
    writtenBy (first ++ second) = writtenBy first ++ writtenBy second := by
  simp [writtenBy, String.join_append]

@[simp] theorem writtenBy_cons (effect : RunEffect) (rest : List RunEffect) :
    writtenBy (effect :: rest) = effect.text?.getD "" ++ writtenBy rest := by
  cases h : effect.text? <;> simp [writtenBy, h, String.join_cons]

namespace Run

@[simp] theorem writtenBy_commandEffects (commands : List Command) :
    writtenBy (commandEffects commands) = "" := by
  simp [writtenBy, commandEffects, List.filterMap_map, Function.comp_def, RunEffect.text?]

@[simp] theorem writtenBy_writeEffects (text : String) : writtenBy (writeEffects text) = text := by
  unfold writeEffects
  split
  · next h => rw [h]; rfl
  · simp [RunEffect.text?]

@[simp] theorem writtenBy_staleRequests (run : Run) (now : Int) :
    writtenBy (run.staleRequests now) = "" := by
  unfold staleRequests
  dsimp only
  split <;> split <;> rfl

/-! ## What is shown during an event -/

/-- How often a run shows its status during an event: behind each thing that it tells its
controller, and when it is asked to stop. -/
def rounds (run : Run) (event : RunEvent) (now : Int) : Nat :=
  (run.told event now).length + if run.phase = .active ∧ event = .stop then 1 else 0

/-- What is shown of a controller at a second, for a log whose sink takes it. -/
def shownOf (c : Controller) (now : Int) : LogWriter.Call := ⟨c.status, now, fun _ => true⟩

/-- What a run shows during an event. -/
def shown (run : Run) (event : RunEvent) (now : Int) : List LogWriter.Call :=
  List.replicate (run.rounds event now)
    (shownOf (run.controller.after (run.told event now)) now)

/-- A log that has shown some statuses of a run, and what has been written meanwhile. -/
structure Shows (run : Run) (calls : List LogWriter.Call) (next : Run)
    (effects : List RunEffect) : Prop where
  log : next.log = run.log.after calls
  written : writtenBy effects = LogWriter.sentBy (run.log.notes calls)

theorem shows_publish (run : Run) (now : Int) :
    run.Shows [shownOf run.controller now] (run.publish now fun _ => true).1
      (run.publish now fun _ => true).2 :=
  ⟨rfl, by simp [publish, LogWriter.notes, LogWriter.note, shownOf]⟩

theorem shows_control (run : Run) (event : ControlEvent) (now : Int) :
    run.Shows [shownOf (run.controller.after [event]) now] (run.control event now fun _ => true).1
      (run.control event now fun _ => true).2 := by
  refine ⟨rfl, ?_⟩
  simp [control, publish, LogWriter.notes, LogWriter.note, shownOf]
  rfl

/-- Turning the actuators off changes nothing of what is shown. -/
theorem shownOf_shutdown (c : Controller) (now : Int) :
    shownOf (c.handle .shutdown).1 now = shownOf c now := by
  simp only [Controller.handle, Controller.shutdown_eq]
  rfl

theorem Shows.trans {run middle last : Run} {first second : List LogWriter.Call}
    {effects more : List RunEffect} (h₁ : run.Shows first middle effects)
    (h₂ : middle.Shows second last more) : run.Shows (first ++ second) last (effects ++ more) := by
  refine ⟨?_, ?_⟩
  · rw [h₂.log, h₁.log, LogWriter.after_append]
  · rw [writtenBy_append, h₁.written, h₂.written, h₁.log, LogWriter.notes_append,
      LogWriter.sentBy_append]

/-- The end of a run shows the status once more; closing the log writes nothing. -/
theorem written_finish {run : Run} (hbuffer : run.log.buffer = .empty) (state : RunState)
    (now : Int) :
    writtenBy (run.finish state now (.all true)).2 =
      LogWriter.sentBy (run.log.notes [shownOf run.controller now]) := by
  have hshows := run.shows_control .shutdown now
  have hsame : shownOf (run.controller.after [.shutdown]) now = shownOf run.controller now :=
    shownOf_shutdown run.controller now
  have hclosed : ((run.control .shutdown now fun _ => true).1.log.close true).sent = "" := by
    have hempty : (run.log.next (shownOf (run.controller.after [.shutdown]) now)).buffer = .empty :=
      LogWriter.buffer_next hbuffer fun _ => rfl
    rw [hshows.log, LogWriter.close]
    simp only [LogWriter.after, List.foldl_cons, List.foldl_nil, hempty]
    split <;> rfl
  have hwritten := hshows.written
  rw [hsame] at hwritten
  simp only [finish, SinkAnswers.all, writtenBy_append, writtenBy_cons, hwritten, hclosed,
    writtenBy_writeEffects]
  simp [RunEffect.text?]

/-- What a run writes during an event is what its log makes of the statuses that it shows, and they
are all that becomes of the log, unless it is closed. -/
structure Tells (run : Run) (event : RunEvent) (now : Int) (answer : Run × List RunEffect) :
    Prop where
  written : writtenBy answer.2 = LogWriter.sentBy (run.log.notes (run.shown event now))
  log : (∀ state, answer.1.phase ≠ .over state) →
    answer.1.log = run.log.after (run.shown event now)

theorem tells_ignored {run : Run} {event : RunEvent} {now : Int}
    (h : run.rounds event now = 0) : run.Tells event now (run, []) := by
  refine ⟨?_, fun _ => ?_⟩ <;> rw [shown, h] <;> rfl

theorem tells_conclude {run : Run} {event : RunEvent} {told : ControlEvent} {now : Int}
    (hbuffer : run.log.buffer = .empty) {front : List RunEffect} (hfront : writtenBy front = "")
    (hevent : event ≠ .stop)
    (htold : run.told event now = run.passOn told) :
    run.Tells event now (conclude now (.all true)
      ((run.control told now fun _ => true).1, front ++ (run.control told now fun _ => true).2)) := by
  have hshows := run.shows_control told now
  have hover : (run.control told now fun _ => true).1.controller.isOver =
      (run.controller.handle told).1.isOver := rfl
  have hrounds : run.rounds event now = (run.passOn told).length := by
    simp [rounds, hevent, htold]
  unfold conclude
  by_cases h : (run.controller.handle told).1.isOver = true
  · have hpass : run.passOn told = [told, .shutdown] := if_pos h
    have hsame : shownOf (run.controller.after [told, .shutdown]) now =
        shownOf (run.controller.after [told]) now := shownOf_shutdown _ now
    have hmid : (run.control told now fun _ => true).1.log.buffer = .empty := by
      rw [hshows.log]
      exact LogWriter.buffer_next hbuffer fun _ => rfl
    have hend := written_finish hmid (run.control told now fun _ => true).1.finalState now
    simp only [hover, h, if_true]
    refine ⟨?_, fun hphase => absurd rfl (hphase _)⟩
    rw [shown, hrounds, htold, hpass, hsame, writtenBy_append, writtenBy_append, hfront,
      hshows.written, hend, hshows.log]
    simp [LogWriter.notes, LogWriter.after, List.replicate]
    rfl
  · have hpass : run.passOn told = [told] := if_neg h
    simp only [hover, h, if_false, Bool.false_eq_true]
    refine ⟨?_, fun _ => ?_⟩
    · rw [shown, hrounds, htold, hpass, writtenBy_append, hfront, hshows.written]
      simp
    · rw [shown, hrounds, htold, hpass, hshows.log]
      rfl

theorem tells_begin {run : Run} (now : Int) (hphase : run.phase = .prepared) :
    run.Tells .begin now (run.handle .begin now (.all true)) := by
  have hshows := shows_control { run with phase := .active } (.start now) now
  have hshown : run.shown .begin now = [shownOf (run.controller.after [.start now]) now] := by
    simp [shown, rounds, told, hphase]
  simp only [handle, hphase]
  split
  · refine ⟨?_, fun _ => ?_⟩
    · have := hshows.written
      simp only [SinkAnswers.all, writtenBy_cons, writtenBy_append, this, hshown]
      simp [RunEffect.text?]
    · rw [hshown]
      exact hshows.log
  · refine ⟨?_, fun _ => ?_⟩
    · have := hshows.written
      simp only [SinkAnswers.all, writtenBy_cons, this, hshown]
      simp [RunEffect.text?]
    · rw [hshown]
      exact hshows.log

theorem tells_stop {run : Run} (hbuffer : run.log.buffer = .empty) (now : Int)
    (hphase : run.phase = .active) :
    run.Tells .stop now (run.handle .stop now (.all true)) := by
  have hshows := run.shows_publish now
  have hmid : (run.publish now fun _ => true).1.log.buffer = .empty := by
    rw [hshows.log]
    exact LogWriter.buffer_next hbuffer fun _ => rfl
  have hend := written_finish hmid .canceled now
  have hshown : run.shown .stop now =
      [shownOf run.controller now] ++ [shownOf run.controller now] := by
    have hsame := shownOf_shutdown run.controller now
    simp only [shown, rounds, told, hphase]
    rw [show run.controller.after [.shutdown] = (run.controller.handle .shutdown).1 from rfl, hsame]
    rfl
  simp only [handle, hphase]
  refine ⟨?_, fun hnot => absurd rfl (hnot _)⟩
  rw [hshows.log] at hend
  rw [writtenBy_append, hshown, LogWriter.notes_append, LogWriter.sentBy_append]
  exact congrArg₂ (· ++ ·) hshows.written hend

/-- Every event tells the log what `shown` says. -/
theorem tells_handle {run : Run} (hbuffer : run.log.buffer = .empty) (event : RunEvent)
    (now : Int) : run.Tells event now (run.handle event now (.all true)) := by
  cases hphase : run.phase with
  | prepared =>
    cases event with
    | begin => exact tells_begin now hphase
    | _ =>
      simp only [handle, hphase]
      exact tells_ignored (by simp [rounds, told, hphase])
  | active =>
    cases event with
    | begin =>
      simp only [handle, hphase]
      exact tells_ignored (by simp [rounds, told, hphase])
    | tick =>
      have htold : run.told .tick now = run.passOn (.tick now) := by simp [told, hphase]
      simp only [handle, hphase]
      exact tells_conclude hbuffer (run.writtenBy_staleRequests now) (by simp) htold
    | temperatures reading =>
      have hgoing : RunEvent.temperatures reading ≠ .stop := by simp
      have htold : run.told (.temperatures reading) now =
          run.passOn (.temperatures reading now) := by
        simp [told, hphase]
      simp only [handle, hphase]
      exact tells_conclude hbuffer writtenBy_nil hgoing htold
    | power reading =>
      have hgoing : RunEvent.power reading ≠ .stop := by simp
      have htold : run.told (.power reading) now = run.passOn (.power reading now) := by
        simp [told, hphase]
      simp only [handle, hphase]
      exact tells_conclude hbuffer writtenBy_nil hgoing htold
    | stop => exact tells_stop hbuffer now hphase
  | _ =>
    simp only [handle, hphase]
    exact tells_ignored (by simp [rounds, told, hphase])

/-! ## Whole runs -/

/-- A run after several events, and all it has wanted done, with a sink that takes everything. -/
def hearing (run : Run) (events : List (RunEvent × Int)) : Run × List RunEffect :=
  run.hear (events.map fun (event, now) => (event, now, .all true))

theorem exists_hear (run : Run) (events : List (RunEvent × Int)) :
    ∃ heard, run.hearing events = run.hear heard := ⟨_, rfl⟩

theorem hearing_concat (run : Run) (events : List (RunEvent × Int)) (event : RunEvent) (now : Int) :
    run.hearing (events ++ [(event, now)]) =
      (((run.hearing events).1.handle event now (.all true)).1,
        (run.hearing events).2 ++ ((run.hearing events).1.handle event now (.all true)).2) := by
  rw [hearing, List.map_append]
  exact hear_concat ..

/-- All that a run tells its controller during several events. -/
def toldBy (run : Run) : List (RunEvent × Int) → List ControlEvent :=
  observe fun past (event, now) => (run.hearing past).1.told event now

/-- All that a run shows during several events. -/
def shownBy (run : Run) : List (RunEvent × Int) → List LogWriter.Call :=
  observe fun past (event, now) => (run.hearing past).1.shown event now

theorem toldBy_concat (run : Run) (events : List (RunEvent × Int)) (event : RunEvent) (now : Int) :
    run.toldBy (events ++ [(event, now)]) =
      run.toldBy events ++ (run.hearing events).1.told event now := observe_concat ..

theorem shownBy_concat (run : Run) (events : List (RunEvent × Int)) (event : RunEvent) (now : Int) :
    run.shownBy (events ++ [(event, now)]) =
      run.shownBy events ++ (run.hearing events).1.shown event now := observe_concat ..

theorem controller_hearing (run : Run) (events : List (RunEvent × Int)) :
    (run.hearing events).1.controller = run.controller.after (run.toldBy events) := by
  induction events using List.reverseRecOn with
  | nil => rfl
  | append_singleton events last ih =>
    obtain ⟨event, now⟩ := last
    have hpass := ((run.hearing events).1.answers_handle event now (.all true)).1
    rw [hearing_concat, toldBy_concat, Controller.after_append, ← ih]
    exact hpass.controller

theorem takes_shownBy (run : Run) (events : List (RunEvent × Int)) :
    LogWriter.Takes (run.shownBy events) := by
  induction events using List.reverseRecOn with
  | nil => exact List.forall_mem_nil _
  | append_singleton events last ih =>
    obtain ⟨event, now⟩ := last
    rw [shownBy_concat]
    intro call hcall
    rcases List.mem_append.mp hcall with h | h
    · exact ih call h
    · rw [List.eq_of_mem_replicate h]
      exact fun _ => rfl

/-- What a run has written is what its log has made of all that has been shown. -/
theorem written_hearing {run : Run} {resolution openedAt : Int}
    (hlog : run.log = .opened resolution openedAt) (events : List (RunEvent × Int)) :
    writtenBy (run.hearing events).2 =
        LogWriter.sentBy ((LogWriter.opened resolution openedAt).notes (run.shownBy events)) ∧
      ((∀ state, (run.hearing events).1.phase ≠ .over state) →
        (run.hearing events).1.log =
          (LogWriter.opened resolution openedAt).after (run.shownBy events)) := by
  induction events using List.reverseRecOn with
  | nil => exact ⟨rfl, fun _ => hlog⟩
  | append_singleton events last ih =>
    obtain ⟨event, now⟩ := last
    obtain ⟨hwritten, hkept⟩ := ih
    rw [hearing_concat, shownBy_concat, LogWriter.notes_append, LogWriter.sentBy_append,
      LogWriter.after_append]
    by_cases hover : ∃ state, (run.hearing events).1.phase = .over state
    · obtain ⟨state, hstate⟩ := hover
      have hsame : (run.hearing events).1.handle event now (.all true) =
          ((run.hearing events).1, []) := by
        simp [handle, hstate]
      have hnone : (run.hearing events).1.shown event now = [] := by
        simp [shown, rounds, told, hstate]
      rw [hsame, hnone]
      refine ⟨?_, fun hnot => absurd hstate (hnot state)⟩
      simpa [LogWriter.notes] using hwritten
    · have hkept' := hkept fun state hstate => hover ⟨state, hstate⟩
      have hbuffer : (run.hearing events).1.log.buffer = .empty := by
        rw [hkept']
        exact (LogWriter.gapless resolution openedAt (run.takes_shownBy events)).buffer
      have htells := tells_handle hbuffer event now
      refine ⟨?_, fun hnot => ?_⟩
      · rw [writtenBy_append, hwritten, htells.written, hkept']
      · rw [htells.log hnot, hkept']

end Run
end DryKiln
