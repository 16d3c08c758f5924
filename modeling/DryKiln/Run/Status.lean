import DryKiln.Kiln.Reading
import DryKiln.Program.Basic
import DryKiln.Text.Blank
/-!
The life of a run, as it is stored and as it is shown.
-/

namespace DryKiln

/-- The stored state of a run. Only a state that cannot be read back is unknown. -/
inductive RunState where
  | pending
  | running
  | completed
  | failed
  | canceled
  | unknown
deriving DecidableEq, Repr

namespace RunState

def all : List RunState := [pending, running, completed, failed, canceled, unknown]

def label : RunState → String
  | pending => "pending"
  | running => "running"
  | completed => "completed"
  | failed => "failed"
  | canceled => "canceled"
  | unknown => "unknown"

def isTerminal : RunState → Bool
  | completed | failed | canceled => true
  | _ => false

def ofLabel? (s : String) : Option RunState := all.find? fun state => state.label == s

/-- The state in a stored text; blanks around it do not count. -/
def ofText (s : String) : RunState :=
  (ofLabel? (String.ofList (trimBlank s.toList))).getD .unknown

theorem ofLabel?_label (state : RunState) : ofLabel? state.label = some state := by
  cases state <;> decide

end RunState

/-- What can be seen of a run from outside. -/
structure Status where
  program : Program
  startedAt : Int
  stepName : String
  stepStartedAt : Int
  temperatures : Temperatures
  power : PerChannel UInt8
deriving DecidableEq, Repr

/-- The status of a run that has not started. -/
def Status.initial (program : Program) : Status := ⟨program, 0, "", 0, .zero, .fill 0⟩

structure HistoryEntry where
  name : String
  state : RunState
  /-- The second of the last change of the stored state, if known. -/
  completedAt : Option Int
deriving DecidableEq, Repr

end DryKiln
