-- The record of a run. Before it begins it is created, stored as pending and given a log. Whatever
-- it hears then, it stores that it is running, then the state in which it ends, and then goes into
-- the history; the state says what has become of its program.
import DryKiln.Proofs.Control.Tick
import DryKiln.Proofs.Storage.Sweep
import DryKiln.Runner.Launch
import Mathlib.Data.List.Induction

namespace DryKiln

/-! ## What is asked of the storage -/

/-- The effect is a call of the storage. -/
def RunEffect.isCall : RunEffect → Bool
  | .store _ | .archive => true
  | _ => false

/-- The calls of the storage among several effects, in order. -/
def callsIn (effects : List RunEffect) : List RunEffect := effects.filter RunEffect.isCall

@[simp] theorem callsIn_nil : callsIn [] = [] := rfl

@[simp] theorem callsIn_append (first second : List RunEffect) :
    callsIn (first ++ second) = callsIn first ++ callsIn second :=
  List.filter_append ..

theorem callsIn_cons (effect : RunEffect) (rest : List RunEffect) :
    callsIn (effect :: rest) = if effect.isCall then effect :: callsIn rest else callsIn rest := by
  cases h : effect.isCall <;> simp [callsIn, h]

namespace Run

/-! ## The launch -/

/-- What becomes of a run that is to be launched: it stops at the first of four faults, and what had
been done by then stays. -/
inductive Launching (storage : Storage) (tree : FileTree) (program : Program)
    (settings : RunSettings) (now : Int) :
    FileTree → Except StorageFault (Run × OpenFile) → Prop where
  | uncreated {unfinished : Unfinished StorageFault}
      (create : storage.createRun tree (runName program.name now) program = .error unfinished) :
      Launching storage tree program settings now unfinished.left (.error unfinished.fault)
  | unstated {created : FileTree} {unfinished : Unfinished StorageFault}
      (create : storage.createRun tree (runName program.name now) program = .ok created)
      (state : storage.updateState created (runName program.name now) .pending =
        .error unfinished) :
      Launching storage tree program settings now unfinished.left (.error unfinished.fault)
  | logless {created pending : FileTree} {fault : StorageFault}
      (create : storage.createRun tree (runName program.name now) program = .ok created)
      (state : storage.updateState created (runName program.name now) .pending = .ok pending)
      (log : storage.openLog pending (runName program.name now) = .error fault) :
      Launching storage tree program settings now pending (.error fault)
  | headless {created pending : FileTree} {opened : FileTree × OpenFile}
      {unfinished : Unfinished FileFault}
      (create : storage.createRun tree (runName program.name now) program = .ok created)
      (state : storage.updateState created (runName program.name now) .pending = .ok pending)
      (log : storage.openLog pending (runName program.name now) = .ok opened)
      (header : opened.1.write opened.2 LogWriter.header = .error unfinished) :
      Launching storage tree program settings now unfinished.left
        (.error (.file unfinished.fault))
  | launched {created pending : FileTree} {opened files : FileTree × OpenFile}
      (create : storage.createRun tree (runName program.name now) program = .ok created)
      (state : storage.updateState created (runName program.name now) .pending = .ok pending)
      (log : storage.openLog pending (runName program.name now) = .ok opened)
      (header : opened.1.write opened.2 LogWriter.header = .ok files) :
      Launching storage tree program settings now files.1
        (.ok (.prepare (runName program.name now) program settings now, files.2))

theorem launching (storage : Storage) (tree : FileTree) (program : Program)
    (settings : RunSettings) (now : Int) :
    Launching storage tree program settings now (launch storage tree program settings now).1
      (launch storage tree program settings now).2 := by
  unfold launch LogWriter.openOn
  cases create : storage.createRun tree (runName program.name now) program with
  | error unfinished =>
    simp only [create]
    exact .uncreated create
  | ok created =>
    cases state : storage.updateState created (runName program.name now) .pending with
    | error unfinished =>
      simp only [create, state]
      exact .unstated create state
    | ok pending =>
      cases log : storage.openLog pending (runName program.name now) with
      | error fault =>
        simp only [create, state, log]
        exact .logless create state log
      | ok opened =>
        cases header : opened.1.write opened.2 LogWriter.header with
        | error unfinished =>
          simp only [create, state, log, header]
          exact .headless create state log header
        | ok files =>
          simp only [create, state, log, header]
          exact .launched create state log header

/-! ## One event -/

@[simp] theorem callsIn_commandEffects (commands : List Command) :
    callsIn (commandEffects commands) = [] := by
  simp [callsIn, commandEffects, RunEffect.isCall]

@[simp] theorem callsIn_writeEffects (text : String) : callsIn (writeEffects text) = [] := by
  unfold writeEffects
  split <;> rfl

@[simp] theorem callsIn_staleRequests (run : Run) (now : Int) :
    callsIn (run.staleRequests now) = [] := by
  unfold staleRequests
  dsimp only
  split <;> split <;> rfl

@[simp] theorem callsIn_control (run : Run) (event : ControlEvent) (now : Int)
    (accepts : WriteAnswers) :
    callsIn (run.control event now accepts).2 = [] := by
  simp [control, publish]

@[simp] theorem callsIn_publish (run : Run) (now : Int) (accepts : WriteAnswers) :
    callsIn (run.publish now accepts).2 = [] :=
  callsIn_writeEffects _

theorem callsIn_finish (run : Run) (state : RunState) (now : Int) (sink : SinkAnswers) :
    callsIn (run.finish state now sink).2 = [.store state, .archive] := by
  simp [finish, callsIn_cons, RunEffect.isCall]

theorem stage_shutdown (c : Controller) : c.shutdown.1.stage = c.stage := by
  rw [Controller.shutdown_eq]

/-- The state in which a run ends says what has become of its program. -/
structure Ends (run : Run) (state : RunState) : Prop where
  completed : state = .completed ↔ run.controller.stage = .idle
  failed : state = .failed ↔ run.controller.stage = .failed
  canceled : state = .canceled ↔ run.controller.isOver = false

theorem isOver_iff (c : Controller) : c.isOver = true ↔ c.stage = .idle ∨ c.stage = .failed := by
  unfold Controller.isOver
  cases c.stage <;> simp [Stage.isTerminal]

theorem Ends.cases {run : Run} {state : RunState} (h : run.Ends state) :
    state = .completed ∨ state = .failed ∨ state = .canceled := by
  by_cases hover : run.controller.isOver = true
  · exact ((isOver_iff _).mp hover).imp h.completed.mpr fun hfailed => .inl (h.failed.mpr hfailed)
  · exact .inr (.inr (h.canceled.mpr (by simpa using hover)))

theorem Ends.isTerminal {run : Run} {state : RunState} (h : run.Ends state) :
    state.isTerminal = true := by
  rcases h.cases with rfl | rfl | rfl <;> rfl

/-- What an event makes of a run. -/
inductive Heard (run : Run) (event : RunEvent) (next : Run) (effects : List RunEffect) : Prop where
  | ignored (same : next = run) (nothing : effects = [])
      (idle : ¬ (event = .stop ∧ run.phase = .active))
  | begun (before : run.phase = .prepared) (event_eq : event = .begin)
      (after : next.phase = .active ∨ next.phase = .brokenOff)
      (calls : callsIn effects = [.store .running]) (name : next.name = run.name)
      (unfinished : next.controller.isOver = false)
  | wentOn (before : run.phase = .active) (going : event ≠ .stop) (after : next.phase = .active)
      (calls : callsIn effects = []) (name : next.name = run.name)
      (unfinished : next.controller.isOver = false)
  | ended (state : RunState) (before : run.phase = .active) (after : next.phase = .over state)
      (calls : callsIn effects = [.store state, .archive]) (name : next.name = run.name)
      (shown : next.status = next.controller.status) (ends : next.Ends state)
      (stopped : state = .canceled ↔ event = .stop)

theorem ends_finish {run : Run} {state : RunState} (now : Int) (sink : SinkAnswers)
    (h : run.Ends state) : (run.finish state now sink).1.Ends state := by
  have hstage : (run.finish state now sink).1.controller.stage = run.controller.stage :=
    stage_shutdown run.controller
  refine ⟨?_, ?_, ?_⟩
  · rw [hstage, h.completed]
  · rw [hstage, h.failed]
  · rw [Controller.isOver, hstage, h.canceled, Controller.isOver]

theorem ends_finalState {run : Run} (h : run.controller.isOver = true) :
    run.Ends run.finalState := by
  unfold finalState Controller.hasFailed
  rcases (isOver_iff _).mp h with hidle | hfailed
  · refine ⟨?_, ?_, ?_⟩ <;> simp [hidle, h]
  · refine ⟨?_, ?_, ?_⟩ <;> simp [hfailed, h]

theorem ends_canceled {run : Run} (h : run.controller.isOver = false) : run.Ends .canceled := by
  have hnot : ¬ (run.controller.stage = .idle ∨ run.controller.stage = .failed) := by
    rw [← isOver_iff, h]
    decide
  rw [not_or] at hnot
  refine ⟨?_, ?_, ?_⟩
  · simp [hnot.1]
  · simp [hnot.2]
  · simp [h]

theorem finalState_ne_canceled (run : Run) : run.finalState ≠ .canceled := by
  unfold finalState
  split <;> decide

theorem heard_conclude {run : Run} {event : RunEvent} (told : ControlEvent) (now : Int)
    (sink : SinkAnswers) {front : List RunEffect} (hfront : callsIn front = [])
    (hphase : run.phase = .active) (hevent : event ≠ .stop) :
    let answer := conclude now sink ((run.control told now sink.row).1,
      front ++ (run.control told now sink.row).2)
    run.Heard event answer.1 answer.2 := by
  have hcalls : callsIn (front ++ (run.control told now sink.row).2) = [] := by simp [hfront]
  unfold conclude
  by_cases hover : (run.control told now sink.row).1.controller.isOver = true
  · simp only [hover, if_true]
    have hends := ends_finish now sink (ends_finalState hover)
    refine .ended _ hphase rfl ?_ rfl rfl hends ?_
    · rw [callsIn_append, hcalls, callsIn_finish]
      rfl
    · simp [finalState_ne_canceled, hevent]
  · simp only [hover, if_false, Bool.false_eq_true]
    exact .wentOn hphase hevent hphase hcalls rfl (by simpa using hover)

theorem heard_begin {run : Run} (now : Int) (sink : SinkAnswers) (hphase : run.phase = .prepared) :
    run.Heard .begin (run.handle .begin now sink).1 (run.handle .begin now sink).2 := by
  simp only [handle, hphase]
  split
  · exact .begun hphase rfl (.inr rfl) (by simp [callsIn_cons, RunEffect.isCall]) rfl rfl
  · exact .begun hphase rfl (.inl rfl) (by simp [callsIn_cons, RunEffect.isCall]) rfl rfl

theorem heard_stop {run : Run} (now : Int) (sink : SinkAnswers) (hphase : run.phase = .active)
    (hover : run.controller.isOver = false) :
    run.Heard .stop (run.handle .stop now sink).1 (run.handle .stop now sink).2 := by
  simp only [handle, hphase]
  have hcanceled : (run.publish now sink.row).1.Ends .canceled := ends_canceled hover
  refine .ended .canceled hphase rfl ?_ rfl rfl (ends_finish now sink hcanceled) (by simp)
  simp [callsIn_finish]

/-- Every event does one of these things, as long as the program of an active run is not over. -/
theorem heard_handle (run : Run) (event : RunEvent) (now : Int) (sink : SinkAnswers)
    (h : run.phase = .active → run.controller.isOver = false) :
    run.Heard event (run.handle event now sink).1 (run.handle event now sink).2 := by
  cases hphase : run.phase with
  | prepared =>
    cases event with
    | begin => exact heard_begin now sink hphase
    | _ =>
      simp only [handle, hphase]
      exact .ignored rfl rfl (by simp [hphase])
  | active =>
    cases event with
    | begin =>
      simp only [handle, hphase]
      exact .ignored rfl rfl (by simp)
    | tick =>
      simp only [handle, hphase]
      exact heard_conclude (.tick now) now sink (run.callsIn_staleRequests now) hphase (by simp)
    | temperatures reading =>
      have hgoing : RunEvent.temperatures reading ≠ .stop := nofun
      simp only [handle, hphase]
      exact heard_conclude (.temperatures reading now) now sink callsIn_nil hphase hgoing
    | power reading =>
      have hgoing : RunEvent.power reading ≠ .stop := nofun
      simp only [handle, hphase]
      exact heard_conclude (.power reading now) now sink callsIn_nil hphase hgoing
    | stop => exact heard_stop now sink hphase (h hphase)
  | _ =>
    simp only [handle, hphase]
    exact .ignored rfl rfl (by simp [hphase])

/-! ## Many events -/

/-- The run after several events, and all it has wanted done, in order. -/
def hear (run : Run) : List (RunEvent × Int × SinkAnswers) → Run × List RunEffect
  | [] => (run, [])
  | (event, now, sink) :: rest =>
    let (next, effects) := run.handle event now sink
    let (last, later) := next.hear rest
    (last, effects ++ later)

theorem hear_append (run : Run) (first second : List (RunEvent × Int × SinkAnswers)) :
    run.hear (first ++ second) = (((run.hear first).1.hear second).1,
      (run.hear first).2 ++ ((run.hear first).1.hear second).2) := by
  induction first generalizing run with
  | nil => simp [hear]
  | cons head rest ih =>
    obtain ⟨event, now, sink⟩ := head
    simp [hear, ih]

theorem hear_concat (run : Run) (events : List (RunEvent × Int × SinkAnswers)) (event : RunEvent)
    (now : Int) (sink : SinkAnswers) :
    run.hear (events ++ [(event, now, sink)]) = (((run.hear events).1.handle event now sink).1,
      (run.hear events).2 ++ ((run.hear events).1.handle event now sink).2) := by
  rw [hear_append]
  simp [hear]

/-- A request to stop has been taken while the program was not over. -/
def StoppedEarly (run : Run) (events : List (RunEvent × Int × SinkAnswers)) : Prop :=
  ∃ before now sink after, events = before ++ (.stop, now, sink) :: after ∧
    (run.hear before).1.phase = .active ∧ (run.hear before).1.controller.isOver = false

theorem not_stoppedEarly_nil (run : Run) : ¬ run.StoppedEarly [] := by
  rintro ⟨before, now, sink, after, heq, _⟩
  cases before <;> cases heq

theorem stoppedEarly_concat (run : Run) (events : List (RunEvent × Int × SinkAnswers))
    (event : RunEvent) (now : Int) (sink : SinkAnswers) :
    run.StoppedEarly (events ++ [(event, now, sink)]) ↔ run.StoppedEarly events ∨
      event = .stop ∧ (run.hear events).1.phase = .active ∧
        (run.hear events).1.controller.isOver = false := by
  constructor
  · rintro ⟨before, now', sink', after, heq, htaken⟩
    rcases List.eq_nil_or_concat after with rfl | ⟨after, last, rfl⟩
    · obtain ⟨rfl, hlast⟩ := List.append_inj' heq rfl
      cases hlast
      exact .inr ⟨rfl, htaken⟩
    · left
      rw [List.concat_eq_append, ← List.cons_append, ← List.append_assoc] at heq
      obtain ⟨rfl, _⟩ := List.append_inj' heq rfl
      exact ⟨before, now', sink', after, rfl, htaken⟩
  · rintro (⟨before, now', sink', after, rfl, htaken⟩ | ⟨rfl, htaken⟩)
    · exact ⟨before, now', sink', after ++ [(event, now, sink)], by simp, htaken⟩
    · exact ⟨events, now, sink, [], rfl, htaken⟩

/-- What a run has asked of the storage, by the phase it is in. `stopped` says whether it has been
stopped early. -/
def Recorded (run : Run) (effects : List RunEffect) (stopped : Prop) : Prop :=
  match run.phase with
  | .prepared => callsIn effects = [] ∧ ¬ stopped
  | .active => callsIn effects = [.store .running] ∧ ¬ stopped ∧ run.controller.isOver = false
  | .brokenOff => callsIn effects = [.store .running] ∧ ¬ stopped
  | .over state => callsIn effects = [.store .running, .store state, .archive] ∧
      run.status = run.controller.status ∧ run.Ends state ∧ (state = .canceled ↔ stopped)

theorem Recorded.unfinished {run : Run} {effects : List RunEffect} {stopped : Prop}
    (h : run.Recorded effects stopped) (hphase : run.phase = .active) :
    run.controller.isOver = false := by
  rw [Recorded, hphase] at h
  exact h.2.2

/-- The calls come in this order, and none comes twice. -/
theorem Recorded.calls {run : Run} {effects : List RunEffect} {stopped : Prop}
    (h : run.Recorded effects stopped) :
    ∃ state, callsIn effects <+: [.store .running, .store state, .archive] := by
  unfold Recorded at h
  split at h
  · exact ⟨.running, by simp [h.1]⟩
  · exact ⟨.running, by simp [h.1]⟩
  · exact ⟨.running, by simp [h.1]⟩
  · rename_i state _
    exact ⟨state, by simp [h.1]⟩

theorem phase_of_outcome {run : Run} {outcome : RunOutcome} (h : run.outcome? = some outcome) :
    run.phase = .over outcome.state ∧ outcome = ⟨run.name, outcome.state, run.status⟩ := by
  unfold outcome? at h
  split at h
  · rename_i state hphase
    cases h
    exact ⟨hphase, rfl⟩
  · cases h

theorem Recorded.heard {run next : Run} {event : RunEvent} {effects more : List RunEffect}
    {stopped : Prop} (h : run.Recorded effects stopped) (hheard : run.Heard event next more) :
    next.Recorded (effects ++ more) (stopped ∨ event = .stop ∧ run.phase = .active ∧
      run.controller.isOver = false) := by
  unfold Recorded at h ⊢
  cases hheard with
  | ignored same nothing idle =>
    subst same nothing
    have hsame : (stopped ∨ event = .stop ∧ next.phase = .active ∧
        next.controller.isOver = false) ↔ stopped :=
      or_iff_left fun htaken => idle ⟨htaken.1, htaken.2.1⟩
    rw [List.append_nil, hsame]
    exact h
  | begun before event_eq after calls name unfinished =>
    subst event_eq
    rw [before] at h
    rcases after with after | after <;> simp [after, before, h, calls, unfinished]
  | wentOn before going after calls name unfinished =>
    rw [before] at h
    simp [after, h, calls, unfinished, going]
  | ended state before after calls name shown ends stopped =>
    rw [before] at h
    simp [after, before, h, calls, shown, ends, stopped]

theorem recorded_hear {run : Run} (hphase : run.phase = .prepared)
    (events : List (RunEvent × Int × SinkAnswers)) :
    (run.hear events).1.Recorded (run.hear events).2 (run.StoppedEarly events) ∧
      (run.hear events).1.name = run.name := by
  induction events using List.reverseRecOn with
  | nil => simp [hear, Recorded, hphase, not_stoppedEarly_nil]
  | append_singleton events last ih =>
    obtain ⟨event, now, sink⟩ := last
    obtain ⟨hrecorded, hname⟩ := ih
    have hheard := heard_handle (run.hear events).1 event now sink hrecorded.unfinished
    rw [hear_concat]
    refine ⟨?_, ?_⟩
    · rw [stoppedEarly_concat]
      exact hrecorded.heard hheard
    · rw [← hname]
      cases hheard with
      | ignored same => rw [same]
      | begun _ _ _ _ name => exact name
      | wentOn _ _ _ _ name => exact name
      | ended _ _ _ _ name => exact name

end Run
end DryKiln
