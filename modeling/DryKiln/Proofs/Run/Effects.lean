-- What a run wants done. During each event a run tells its controller of a few things; the commands
-- among its effects are the commands of the controller, and what makes it leave the units comes last.
import DryKiln.Proofs.Control.Trace
import DryKiln.Runner.Run

namespace DryKiln

/-- The unit whose reading arrives with an event. -/
def RunEvent.unit? : RunEvent → Option SensorUnit
  | temperatures _ => some .temperature
  | power _ => some .power
  | _ => none

/-! ## Effects -/

/-- The command that an effect is. -/
def RunEffect.command? : RunEffect → Option Command
  | .command sent => some sent
  | _ => none

/-- After this effect a run needs the units no more. -/
def RunEffect.leaves : RunEffect → Bool
  | archive | abandon => true
  | _ => false

/-- The commands among several effects, in order. -/
def commandsIn (effects : List RunEffect) : List Command := effects.filterMap RunEffect.command?

@[simp] theorem commandsIn_nil : commandsIn [] = [] := rfl

@[simp] theorem commandsIn_append (first second : List RunEffect) :
    commandsIn (first ++ second) = commandsIn first ++ commandsIn second :=
  List.filterMap_append

@[simp] theorem commandsIn_cons (effect : RunEffect) (rest : List RunEffect) :
    commandsIn (effect :: rest) = effect.command?.toList ++ commandsIn rest := by
  cases h : effect.command? <;> simp [commandsIn, h]

/-- The units are needed all the time. -/
def Stays (effects : List RunEffect) : Prop := ∀ effect ∈ effects, effect.leaves = false

/-- The units are needed until the last effect. -/
def LeavesAtLast (effects : List RunEffect) : Prop :=
  ∃ front last, effects = front ++ [last] ∧ Stays front ∧ last.leaves = true

theorem Stays.append {first second : List RunEffect} (h₁ : Stays first) (h₂ : Stays second) :
    Stays (first ++ second) := by
  intro effect h
  rcases List.mem_append.mp h with h | h
  · exact h₁ effect h
  · exact h₂ effect h

theorem Stays.cons {effect : RunEffect} {rest : List RunEffect} (h : effect.leaves = false)
    (hrest : Stays rest) : Stays (effect :: rest) :=
  Stays.append (List.forall_mem_singleton.mpr h) hrest

theorem LeavesAtLast.after {front effects : List RunEffect} (hfront : Stays front)
    (h : LeavesAtLast effects) : LeavesAtLast (front ++ effects) := by
  obtain ⟨middle, last, rfl, hmiddle, hlast⟩ := h
  exact ⟨front ++ middle, last, by simp, hfront.append hmiddle, hlast⟩

namespace Run

/-! ## Parts of an event -/

@[simp] theorem commandsIn_commandEffects (commands : List Command) :
    commandsIn (commandEffects commands) = commands := by
  induction commands with
  | nil => rfl
  | cons command rest ih =>
    rw [commandEffects, List.map_cons, commandsIn_cons]
    exact congrArg (command :: ·) ih

theorem stays_commandEffects (commands : List Command) : Stays (commandEffects commands) := by
  intro effect h
  obtain ⟨command, _, rfl⟩ := List.mem_map.mp h
  rfl

@[simp] theorem commandsIn_writeEffects (text : String) : commandsIn (writeEffects text) = [] := by
  unfold writeEffects
  split <;> rfl

theorem stays_writeEffects (text : String) : Stays (writeEffects text) := by
  unfold writeEffects
  split <;> simp [Stays, RunEffect.leaves]

@[simp] theorem commandsIn_staleRequests (run : Run) (now : Int) :
    commandsIn (run.staleRequests now) = [] := by
  unfold staleRequests
  dsimp only
  split <;> split <;> rfl

theorem stays_staleRequests (run : Run) (now : Int) : Stays (run.staleRequests now) := by
  unfold staleRequests
  dsimp only
  split <;> split <;> simp [Stays, RunEffect.leaves]

/-- What a run has become of, and its effects, when its controller is told of something. -/
structure Passes (run : Run) (told : List ControlEvent) (next : Run) (effects : List RunEffect) :
    Prop where
  controller : next.controller = run.controller.after told
  commands : commandsIn effects = run.controller.sent told

theorem passes_publish (run : Run) (now : Int) (accepts : WriteAnswers) :
    run.Passes [] (run.publish now accepts).1 (run.publish now accepts).2 :=
  ⟨rfl, commandsIn_writeEffects _⟩

theorem passes_control (run : Run) (event : ControlEvent) (now : Int) (accepts : WriteAnswers) :
    run.Passes [event] (run.control event now accepts).1 (run.control event now accepts).2 := by
  refine ⟨rfl, ?_⟩
  simp [control, publish, Controller.sent, Controller.run]

theorem stays_control (run : Run) (event : ControlEvent) (now : Int) (accepts : WriteAnswers) :
    Stays (run.control event now accepts).2 :=
  (stays_commandEffects _).append (stays_writeEffects _)

theorem passes_finish (run : Run) (state : RunState) (now : Int) (sink : SinkAnswers) :
    run.Passes [.shutdown] (run.finish state now sink).1 (run.finish state now sink).2 := by
  have h := run.passes_control .shutdown now sink.lastRow
  refine ⟨h.controller, ?_⟩
  simp [finish, h.commands, RunEffect.command?]

theorem leavesAtLast_finish (run : Run) (state : RunState) (now : Int) (sink : SinkAnswers) :
    LeavesAtLast (run.finish state now sink).2 := by
  refine ⟨.store state :: (run.control .shutdown now sink.lastRow).2 ++
    writeEffects ((run.control .shutdown now sink.lastRow).1.log.close sink.rest).sent, .archive,
    rfl, ?_, rfl⟩
  exact Stays.append (.cons rfl (stays_control _ _ _ _)) (stays_writeEffects _)

theorem Passes.trans {run middle last : Run} {first second : List ControlEvent}
    {effects more : List RunEffect} (h₁ : run.Passes first middle effects)
    (h₂ : middle.Passes second last more) : run.Passes (first ++ second) last (effects ++ more) := by
  refine ⟨?_, ?_⟩
  · rw [h₂.controller, h₁.controller, ← Controller.after_append]
  · rw [commandsIn_append, h₁.commands, h₂.commands, h₁.controller, ← Controller.sent_append]

/-! ## Whole events -/

/-- What an event tells the controller: the event itself, and a shutdown if the program is over
then. -/
def passOn (run : Run) (event : ControlEvent) : List ControlEvent :=
  if (run.controller.handle event).1.isOver then [event, .shutdown] else [event]

/-- What a run tells its controller during an event. -/
def told (run : Run) (event : RunEvent) (now : Int) : List ControlEvent :=
  match run.phase, event with
  | .prepared, .begin => [.start now]
  | .active, .tick => run.passOn (.tick now)
  | .active, .temperatures reading => run.passOn (.temperatures reading now)
  | .active, .power reading => run.passOn (.power reading now)
  | .active, .stop => [.shutdown]
  | _, _ => []

/-- A run that has not begun tells its controller of nothing but the beginning. -/
theorem told_of_prepared {run : Run} (event : RunEvent) (now : Int) (h : run.phase = .prepared) :
    run.told event now = [] ↔ event ≠ .begin := by
  cases event <;> simp [told, h]

/-- How an event changes the phase of a run, what it tells the controller, and whether the run
leaves the units. -/
inductive Course (run next : Run) (effects : List RunEffect) : List ControlEvent → Prop where
  | ignored (same : next = run) (nothing : effects = []) : Course run next effects []
  | begun (now : Int) (before : run.phase = .prepared) (after : next.phase = .active)
      (stays : Stays effects) : Course run next effects [.start now]
  | brokeOff (now : Int) (before : run.phase = .prepared) (after : next.phase = .brokenOff)
      (leaves : LeavesAtLast effects) : Course run next effects [.start now]
  | wentOn (event : ControlEvent) (before : run.phase = .active) (after : next.phase = .active)
      (inner : Controller.Undisturbed [event]) (stays : Stays effects) :
      Course run next effects [event]
  | ended (events : List ControlEvent) (state : RunState) (before : run.phase = .active)
      (after : next.phase = .over state) (inner : Controller.Undisturbed events)
      (leaves : LeavesAtLast effects) : Course run next effects (events ++ [.shutdown])

/-- The answer of a run to an event that tells its controller of these things. -/
def Answers (run : Run) (told : List ControlEvent) (answer : Run × List RunEffect) : Prop :=
  run.Passes told answer.1 answer.2 ∧ Course run answer.1 answer.2 told

theorem answers_ignored (run : Run) : run.Answers [] (run, []) := ⟨⟨rfl, rfl⟩, .ignored rfl rfl⟩

theorem answers_begin {run : Run} (now : Int) (sink : SinkAnswers) (hphase : run.phase = .prepared) :
    run.Answers [.start now] (run.handle .begin now sink) := by
  have hpass := passes_control { run with phase := .active } (.start now) now sink.row
  have hstays : Stays (.store .running ::
      (control { run with phase := .active } (.start now) now sink.row).2) :=
    .cons rfl (stays_control _ _ _ _)
  simp only [handle, hphase]
  split
  · refine ⟨⟨hpass.controller, ?_⟩, .brokeOff now hphase rfl ⟨_, _, rfl, hstays, rfl⟩⟩
    simp [hpass.commands, RunEffect.command?]
  · refine ⟨⟨hpass.controller, ?_⟩, .begun now hphase rfl hstays⟩
    simp [hpass.commands, RunEffect.command?]

/-- An event in the middle of a run, which ends it if the program is over. -/
theorem answers_conclude {run : Run} {event : ControlEvent} (now : Int) (sink : SinkAnswers)
    {front : List RunEffect} (hfront : commandsIn front = []) (hstays : Stays front)
    (hphase : run.phase = .active) (hevent : Controller.Undisturbed [event]) :
    run.Answers (run.passOn event) (conclude now sink
      ((run.control event now sink.row).1, front ++ (run.control event now sink.row).2)) := by
  have hpass := run.passes_control event now sink.row
  have hpass' : run.Passes [event] (run.control event now sink.row).1
      (front ++ (run.control event now sink.row).2) :=
    ⟨hpass.controller, by rw [commandsIn_append, hfront, List.nil_append, hpass.commands]⟩
  have hstay := hstays.append (run.stays_control event now sink.row)
  have hover : (run.control event now sink.row).1.controller.isOver =
      (run.controller.handle event).1.isOver := rfl
  unfold passOn conclude
  by_cases h : (run.controller.handle event).1.isOver = true
  · -- the shutdown of the end is told after the event, and its effects come after those of it
    simp only [hover, h, if_true]
    refine ⟨hpass'.trans (passes_finish _ _ now sink), ?_⟩
    exact .ended [event] _ hphase rfl hevent (.after hstay (leavesAtLast_finish _ _ now sink))
  · simp only [hover, h, if_false, Bool.false_eq_true]
    exact ⟨hpass', .wentOn event hphase hphase hevent hstay⟩

theorem answers_stop {run : Run} (now : Int) (sink : SinkAnswers) (hphase : run.phase = .active) :
    run.Answers [.shutdown] (run.handle .stop now sink) := by
  simp only [handle, hphase]
  refine ⟨(run.passes_publish now sink.row).trans (passes_finish _ .canceled now sink), ?_⟩
  exact .ended [] _ hphase rfl (by simp [Controller.Undisturbed])
    (.after (stays_writeEffects _) (leavesAtLast_finish _ _ now sink))

/-- Every event tells the controller what `told` says, and takes one of the courses. -/
theorem answers_handle (run : Run) (event : RunEvent) (now : Int) (sink : SinkAnswers) :
    run.Answers (run.told event now) (run.handle event now sink) := by
  have hnone : Stays [] := by simp [Stays]
  cases hphase : run.phase with
  | prepared =>
    cases event with
    | begin =>
      simp only [told, hphase]
      exact answers_begin now sink hphase
    | _ =>
      simp only [told, handle, hphase]
      exact run.answers_ignored
  | active =>
    cases event with
    | begin =>
      simp only [told, handle, hphase]
      exact run.answers_ignored
    | tick =>
      simp only [told, handle, hphase]
      exact answers_conclude now sink (run.commandsIn_staleRequests now)
        (run.stays_staleRequests now) hphase
        (Controller.undisturbed_singleton.mpr ⟨rfl, rfl⟩)
    | temperatures reading =>
      simp only [told, handle, hphase]
      exact answers_conclude now sink commandsIn_nil hnone hphase
        (Controller.undisturbed_singleton.mpr ⟨rfl, rfl⟩)
    | power reading =>
      simp only [told, handle, hphase]
      exact answers_conclude now sink commandsIn_nil hnone hphase
        (Controller.undisturbed_singleton.mpr ⟨rfl, rfl⟩)
    | stop =>
      simp only [told, hphase]
      exact answers_stop now sink hphase
  | _ =>
    simp only [told, handle, hphase]
    exact run.answers_ignored

end Run
end DryKiln
