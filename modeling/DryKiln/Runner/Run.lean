import DryKiln.Control.Controller
import DryKiln.Device.Fault
import DryKiln.Log.Writer
import DryKiln.Run.Status
/-!
One run of one program. A run is told of ticks, readings and a request to stop, and answers with
what it wants done. It does not hear what becomes of that: a state that cannot be stored or a
command that is not taken does not change the run.
-/

namespace DryKiln

structure RunSettings where
  /-- Milliseconds. -/
  tickLength : UInt64
  /-- A reading older than this many seconds is asked for again. -/
  staleAfter : Int
  /-- Rows of one step are at least this many seconds apart in the execution log. -/
  logResolution : Int
deriving DecidableEq, Repr

inductive RunPhase where
  | prepared
  | active
  /-- There is no time between two ticks, so the run cannot go on. -/
  | brokenOff
  /-- The program is over or has been stopped, and this state has been stored. -/
  | over (state : RunState)
deriving DecidableEq, Repr

structure Run where
  name : String
  settings : RunSettings
  controller : Controller
  log : LogWriter
  /-- What is shown of the run. -/
  status : Status
  phase : RunPhase
deriving DecidableEq, Repr

inductive RunEvent where
  | begin
  | tick
  | temperatures (reading : Temperatures)
  | power (reading : PowerReading)
  | stop
deriving DecidableEq, Repr

/-- Whether the sink of the log takes what it is given during an event: the row after the event,
the row after the actuators have been turned off, and what is left when the log is closed. -/
structure SinkAnswers where
  row : WriteAnswers
  lastRow : WriteAnswers
  rest : Bool

/-- The same answer every time. -/
def SinkAnswers.all (accepts : Bool) : SinkAnswers := ⟨fun _ => accepts, fun _ => accepts, accepts⟩

inductive RunEffect where
  | store (state : RunState)
  | request (unit : SensorUnit)
  | command (command : Command)
  | write (text : String)
  /-- The files of the run go into the history, and it needs the units no more. -/
  | archive
  /-- The run breaks off: its files stay where they are, and it needs the units no more. -/
  | abandon
deriving DecidableEq, Repr

structure RunOutcome where
  name : String
  state : RunState
  status : Status
deriving DecidableEq, Repr

namespace Run

/-- The run of a program, whose log has been opened at this second. -/
def prepare (name : String) (program : Program) (settings : RunSettings) (now : Int) : Run where
  name
  settings
  controller := .new program
  log := .opened settings.logResolution now
  status := .initial program
  phase := .prepared

def commandEffects (commands : List Command) : List RunEffect := commands.map .command

/-- A text for the log as an effect, unless it is empty. -/
def writeEffects (text : String) : List RunEffect := if text = "" then [] else [.write text]

/-- Shows the new status, and logs it if a row is due. -/
def publish (run : Run) (now : Int) (accepts : WriteAnswers) : Run × List RunEffect :=
  let status := run.controller.status
  let written := run.log.addLine status now accepts
  ({ run with status, log := written.log }, writeEffects written.sent)

/-- Gives the controller an event and publishes what comes of it. -/
def control (run : Run) (event : ControlEvent) (now : Int) (accepts : WriteAnswers) :
    Run × List RunEffect :=
  let (controller, commands) := run.controller.handle event
  let (published, effects) := { run with controller }.publish now accepts
  (published, commandEffects commands ++ effects)

/-- Asks for the readings that are too old. -/
def staleRequests (run : Run) (now : Int) : List RunEffect :=
  let live := run.controller.live
  let stale (updated : Int) : Bool := run.settings.staleAfter < secondsSince updated now
  (if stale live.temperatures.updated then [.request .temperature] else []) ++
    if stale live.power.updated then [.request .power] else []

/-- The run ends in a state: the state is stored, the actuators are turned off, the log is closed
and the files go into the history. -/
def finish (run : Run) (state : RunState) (now : Int) (sink : SinkAnswers) : Run × List RunEffect :=
  let (stopped, effects) := run.control .shutdown now sink.lastRow
  let closed := stopped.log.close sink.rest
  ({ stopped with log := closed.log, phase := .over state },
    .store state :: effects ++ writeEffects closed.sent ++ [.archive])

/-- The state in which a run ends when its controller is over. -/
def finalState (run : Run) : RunState := if run.controller.hasFailed then .failed else .completed

/-- Ends the run if its program is over. -/
def conclude (now : Int) (sink : SinkAnswers) (before : Run × List RunEffect) :
    Run × List RunEffect :=
  if before.1.controller.isOver then
    let (ended, effects) := before.1.finish before.1.finalState now sink
    (ended, before.2 ++ effects)
  else before

/-- The run after an event at this second, and what it wants done, in order. An event that comes
too early or too late changes nothing. -/
def handle (run : Run) (event : RunEvent) (now : Int) (sink : SinkAnswers) : Run × List RunEffect :=
  match run.phase, event with
  | .prepared, .begin =>
    let (begun, effects) := { run with phase := .active }.control (.start now) now sink.row
    if run.settings.tickLength = 0 then
      ({ begun with phase := .brokenOff }, .store .running :: effects ++ [.abandon])
    else (begun, .store .running :: effects)
  | .active, .tick =>
    let (ticked, effects) := run.control (.tick now) now sink.row
    conclude now sink (ticked, run.staleRequests now ++ effects)
  | .active, .temperatures reading =>
    conclude now sink (run.control (.temperatures reading now) now sink.row)
  | .active, .power reading => conclude now sink (run.control (.power reading now) now sink.row)
  | .active, .stop =>
    let (shown, before) := run.publish now sink.row
    let (stopped, effects) := shown.finish .canceled now sink
    (stopped, before ++ effects)
  | _, _ => (run, [])

/-- What is left of the run, once it is over. -/
def outcome? (run : Run) : Option RunOutcome :=
  match run.phase with
  | .over state => some ⟨run.name, state, run.status⟩
  | _ => none

end Run
end DryKiln
