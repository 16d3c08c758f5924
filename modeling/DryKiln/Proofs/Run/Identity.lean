-- What a run keeps. Its name, its settings and its program are those with which it has been
-- prepared, whatever it hears, and the program that it shows is the one that it carries out.
import DryKiln.Proofs.Control.History
import DryKiln.Runner.Run

namespace DryKiln

/-- What makes a run the run that it is. -/
structure RunIdentity where
  name : String
  settings : RunSettings
  program : Program
deriving DecidableEq

namespace Run

def identity (run : Run) : RunIdentity := ⟨run.name, run.settings, run.controller.program⟩

/-- The program that is shown is the one that is carried out. -/
def Shown (run : Run) : Prop := run.status.program = run.controller.program

theorem shown_prepare (name : String) (program : Program) (settings : RunSettings) (now : Int) :
    (prepare name program settings now).Shown := rfl

/-! ## Parts of an event -/

@[simp] theorem identity_publish (run : Run) (now : Int) (accepts : WriteAnswers) :
    (run.publish now accepts).1.identity = run.identity := rfl

@[simp] theorem identity_control (run : Run) (event : ControlEvent) (now : Int)
    (accepts : WriteAnswers) :
    (run.control event now accepts).1.identity = run.identity := by
  have hprogram := run.controller.handle_program event
  exact congrArg (RunIdentity.mk run.name run.settings) hprogram

@[simp] theorem identity_finish (run : Run) (state : RunState) (now : Int) (sink : SinkAnswers) :
    (run.finish state now sink).1.identity = run.identity :=
  run.identity_control .shutdown now sink.lastRow

@[simp] theorem identity_conclude (now : Int) (sink : SinkAnswers) (before : Run × List RunEffect) :
    (conclude now sink before).1.identity = before.1.identity := by
  unfold conclude
  split
  · exact before.1.identity_finish _ now sink
  · rfl

theorem shown_control (run : Run) (event : ControlEvent) (now : Int) (accepts : WriteAnswers) :
    (run.control event now accepts).1.Shown := rfl

theorem shown_finish (run : Run) (state : RunState) (now : Int) (sink : SinkAnswers) :
    (run.finish state now sink).1.Shown := rfl

theorem shown_conclude (now : Int) (sink : SinkAnswers) {before : Run × List RunEffect}
    (h : before.1.Shown) : (conclude now sink before).1.Shown := by
  unfold conclude
  split
  · exact before.1.shown_finish _ now sink
  · exact h

/-! ## Whole events -/

/-- Whatever a run hears, it stays the same run. -/
@[simp] theorem identity_handle (run : Run) (event : RunEvent) (now : Int) (sink : SinkAnswers) :
    (run.handle event now sink).1.identity = run.identity := by
  unfold handle
  split
  · dsimp only
    split <;> rfl
  all_goals simp

theorem Shown.handle {run : Run} (h : run.Shown) (event : RunEvent) (now : Int)
    (sink : SinkAnswers) : (run.handle event now sink).1.Shown := by
  unfold Run.handle
  split
  · dsimp only
    split <;> rfl
  · apply shown_conclude
    exact run.shown_control (.tick now) now sink.row
  · apply shown_conclude
    exact run.shown_control (.temperatures _ now) now sink.row
  · apply shown_conclude
    exact run.shown_control (.power _ now) now sink.row
  · exact shown_finish _ _ now sink
  · exact h

/-- The ticks of a run that goes on are some time apart, and one that has broken off had none
between them. -/
def Timed (run : Run) : Prop :=
  (run.phase = .active → run.settings.tickLength ≠ 0) ∧
    (run.phase = .brokenOff → run.settings.tickLength = 0)

theorem phase_conclude (now : Int) (sink : SinkAnswers) (before : Run × List RunEffect) :
    (conclude now sink before).1.phase = before.1.phase ∨
      ∃ state, (conclude now sink before).1.phase = .over state := by
  unfold conclude
  split
  · exact .inr ⟨_, rfl⟩
  · exact .inl rfl

theorem Timed.conclude {now : Int} {sink : SinkAnswers} {before : Run × List RunEffect}
    (h : before.1.Timed) : (conclude now sink before).1.Timed := by
  have hsettings := congrArg RunIdentity.settings (identity_conclude now sink before)
  unfold Timed
  rw [show (Run.conclude now sink before).1.settings = before.1.settings from hsettings]
  rcases phase_conclude now sink before with hphase | ⟨state, hphase⟩ <;> rw [hphase]
  · exact h
  · exact ⟨nofun, nofun⟩

theorem Timed.handle {run : Run} (h : run.Timed) (event : RunEvent) (now : Int)
    (sink : SinkAnswers) : (run.handle event now sink).1.Timed := by
  unfold Run.handle
  split
  · dsimp only
    split
    · rename_i hzero
      exact ⟨nofun, fun _ => hzero⟩
    · rename_i hlong
      exact ⟨fun _ => hlong, nofun⟩
  · exact Timed.conclude h
  · exact Timed.conclude h
  · exact Timed.conclude h
  · exact ⟨nofun, nofun⟩
  · exact h

end Run
end DryKiln
