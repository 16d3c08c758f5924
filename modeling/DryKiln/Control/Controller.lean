import DryKiln.Control.Regulator
import DryKiln.Run.Status
/-!
The controller that carries out one program. It goes from stage to stage, one tick at a time;
readings arrive between the ticks, and a tick works with the readings that were there when the
tick before it ended. What it wants of the power unit it returns as commands.
-/

namespace DryKiln

inductive Stage where
  | start
  | waiting
  | preHeat
  | nextStep
  | heatUp
  | acclimate
  | coolDown
  | idle
  | failed
deriving DecidableEq, Repr

namespace Stage

/-- All stages, in the order in which they are listed. -/
def all : List Stage :=
  [start, waiting, preHeat, nextStep, heatUp, acclimate, coolDown, idle, failed]

def label : Stage → String
  | start => "start"
  | waiting => "waiting"
  | preHeat => "preheat"
  | nextStep => "next_program_step"
  | heatUp => "heat_up"
  | acclimate => "acclimate"
  | coolDown => "cool_down"
  | idle => "idle"
  | failed => "failed"

/-- The stages that are never left by a tick. -/
def isTerminal : Stage → Bool
  | idle | failed => true
  | _ => false

/-- The stage that carries out a step of this kind. -/
def ofKind : StepKind → Stage
  | .heating => heatUp
  | .acclimate => acclimate
  | .cooling => coolDown

end Stage

/-- A reading and the second it was received. -/
structure Snapshot (α : Type) where
  updated : Int
  reading : α
deriving DecidableEq, Repr

structure Observed where
  temperatures : Snapshot Temperatures
  power : Snapshot PowerReading
deriving DecidableEq, Repr

def Observed.nothing : Observed := ⟨⟨0, .zero⟩, ⟨0, .zero⟩⟩

/-- A duration as a signed word: what does not fit is negative. -/
def signedSeconds (duration : UInt64) : Int := duration.toInt64.toInt

/-- The fan before the first step. -/
def preHeatFan : UInt8 := 50

/-- What is shown as the step before the first one and after the last one. -/
def initializingLabel : String := "Initializing"
def completedLabel : String := "Completed"

structure Controller where
  program : Program
  stage : Stage
  startedAt : Int
  /-- The actuators have been turned off for good. -/
  stopped : Bool
  /-- The current step; the number of steps once the last one is over. -/
  position : Option Nat
  /-- The second of the last change of stage. -/
  stepStartedAt : Int
  regulators : Option (PerChannel Regulator)
  /-- The percentages commanded last in the current step. -/
  stepPower : PerChannel UInt8
  /-- The readings as they arrive. -/
  live : Observed
  /-- The readings that the next tick works with. -/
  used : Observed
deriving DecidableEq, Repr

inductive ControlEvent where
  | start (now : Int)
  | tick (now : Int)
  | temperatures (reading : Temperatures) (received : Int)
  | power (reading : PowerReading) (received : Int)
  | shutdown
deriving DecidableEq, Repr

namespace Controller

/-- A controller that has not been started. -/
def new (program : Program) : Controller where
  program
  stage := .start
  startedAt := 0
  stopped := false
  position := none
  stepStartedAt := 0
  regulators := none
  stepPower := .fill 0
  live := .nothing
  used := .nothing

def step? (c : Controller) : Option Step := c.position.bind fun i => c.program.steps[i]?

/-- The name shown for the current step. -/
def stepLabel (c : Controller) : String :=
  match c.position with
  | none => initializingLabel
  | some i =>
    match c.program.steps[i]? with
    | some step => step.name
    | none => completedLabel

/-- The program is over, in whatever way. -/
def isOver (c : Controller) : Bool := c.stage.isTerminal

def hasFailed (c : Controller) : Bool := c.stage == .failed

/-- What can be seen of the run from outside. -/
def status (c : Controller) : Status where
  program := c.program
  startedAt := c.startedAt
  stepName := c.stepLabel
  stepStartedAt := c.stepStartedAt
  temperatures := c.used.temperatures.reading
  power := c.used.power.reading.map ChannelReading.percent

/-- Commands an actuator and remembers the percentage. -/
def command (c : Controller) (channel : Channel) (percent : UInt8) : Controller × List Command :=
  ({ c with stepPower := c.stepPower.set channel percent }, [⟨channel, percent⟩])

/-- Turns all actuators off, unless that has been done. -/
def shutdown (c : Controller) : Controller × List Command :=
  if c.stopped then (c, [])
  else ({ c with stopped := true }, Channel.all.map fun channel => ⟨channel, 0⟩)

/-- The seconds since the last change of stage have reached a limit. -/
def elapsed (c : Controller) (now : Int) (limit : UInt64) : Bool :=
  signedSeconds limit ≤ secondsSince c.stepStartedAt now

/-- The run has taken longer than its program allows. -/
def overdue (c : Controller) (now : Int) : Bool :=
  match c.program.maxRuntime with
  | some limit => signedSeconds limit < secondsSince c.startedAt now
  | none => false

/-- Regulates the three actuators by the readings in use, unless a newer reading is in use than the
live one. -/
def regulate (c : Controller) (now : Int) : Controller × List Command :=
  if c.live.temperatures.updated < c.used.temperatures.updated then (c, [])
  else
    match c.step?, c.regulators with
    | some step, some regulators =>
      let t := c.used.temperatures.reading
      let updated := PerChannel.ofFn fun channel =>
        let setpoint := if channel = .heater then step.target.getD 0 else 0
        (regulators.get channel).update setpoint t.oven t.material (c.stepPower.get channel) now
      let percents := updated.map Prod.snd
      ({ c with regulators := some (updated.map Prod.fst), stepPower := percents },
        Channel.all.map fun channel => ⟨channel, percents.get channel⟩)
    | _, _ => (c, [])

/-- What a tick finds in one stage: the controller and the commands, and the stage to be in. -/
abbrev Verdict := (Controller × List Command) × Stage

/-- Waits until both units have been read since the start. -/
def wait (c : Controller) : Verdict :=
  if c.startedAt ≤ c.live.power.updated ∧ c.startedAt ≤ c.live.temperatures.updated then
    ((c, []), .preHeat)
  else ((c, []), .waiting)

/-- Heats until the oven is at least as warm as the material. -/
def preHeat (c : Controller) : Verdict :=
  if c.live.temperatures.reading.oven < c.live.temperatures.reading.material then
    if c.used.power.reading.heater.percent = 0 then (c.command .heater fullPower, .preHeat)
    else ((c, []), .preHeat)
  else ((c, []), .nextStep)

/-- Goes on to the next step, or past the last one. -/
def advance (c : Controller) (now : Int) : Verdict :=
  let next := match c.position with
    | none => 0
    | some i => i + 1
  let moved := { c with stepStartedAt := now, position := some (min next c.program.steps.length) }
  match c.program.steps[next]? with
  | some step => ((moved, []), .ofKind step.kind)
  | none => ((moved, []), .idle)

/-- Heats until the material has the target temperature; fails when the time is over first. -/
def heatUp (c : Controller) (now : Int) : Verdict :=
  match c.step? with
  | none => ((c, []), .nextStep)
  | some step =>
    if step.target.getD 0 ≤ c.used.temperatures.reading.material then ((c, []), .nextStep)
    else if step.runtime.any (c.elapsed now) then ((c, []), .failed)
    else (c.regulate now, .heatUp)

/-- Keeps the temperature until the time is over. -/
def acclimate (c : Controller) (now : Int) : Verdict :=
  if c.elapsed now ((c.step?.bind Step.runtime).getD 0) then ((c, []), .nextStep)
  else (c.regulate now, .acclimate)

/-- Cools until the time is over or the material has the target temperature. -/
def coolDown (c : Controller) (now : Int) : Verdict :=
  match c.step? with
  | none => ((c, []), .nextStep)
  | some step =>
    if step.runtime.any (c.elapsed now) then ((c, []), .nextStep)
    else if step.target.any (c.used.temperatures.reading.material ≤ ·) then ((c, []), .nextStep)
    else (c.regulate now, .coolDown)

/-- What a tick finds. A run that takes too long fails in every stage but the first. -/
def evaluate (c : Controller) (now : Int) : Verdict :=
  if c.stage ≠ .start ∧ c.overdue now then ((c, []), .failed)
  else
    match c.stage with
    | .start => ((c, []), .waiting)
    | .waiting => c.wait
    | .preHeat => c.preHeat
    | .nextStep => c.advance now
    | .heatUp => c.heatUp now
    | .acclimate => c.acclimate now
    | .coolDown => c.coolDown now
    | .idle => ((c, []), .idle)
    | .failed => ((c, []), .failed)

/-- What is done on entering a stage. -/
def enter (c : Controller) (now : Int) : Controller × List Command :=
  match c.stage with
  | .start => ({ c with startedAt := now, stopped := false }, [])
  | .waiting => ({ c with position := none }, [])
  | .preHeat => c.command .fan preHeatFan
  | .nextStep => ({ c with stepStartedAt := now }, [])
  | .heatUp | .acclimate | .coolDown =>
    ({ c with
        regulators := c.step?.map fun step => .ofFn fun channel => .fresh (step.phase channel)
        stepPower := .fill 0 }, [])
  | .idle | .failed => c.shutdown

/-- Starts the program, from whatever stage. -/
def start (c : Controller) (now : Int) : Controller × List Command :=
  enter { c with stage := .start, stepStartedAt := now } now

/-- The change to the stage that a tick has found. -/
def moveTo (c : Controller) (now : Int) (next : Stage) : Controller × List Command :=
  if next = c.stage then (c, []) else enter { c with stage := next, stepStartedAt := now } now

/-- One tick. The live readings come into use when it ends. -/
def tick (c : Controller) (now : Int) : Controller × List Command :=
  if c.stage.isTerminal then (c, [])
  else
    let ((worked, sent), next) := c.evaluate now
    let (moved, more) := worked.moveTo now next
    ({ moved with used := moved.live }, sent ++ more)

def recordTemperatures (c : Controller) (reading : Temperatures) (received : Int) : Controller :=
  { c with live := { c.live with temperatures := ⟨received, reading⟩ } }

def recordPower (c : Controller) (reading : PowerReading) (received : Int) : Controller :=
  { c with live := { c.live with power := ⟨received, reading⟩ } }

/-- One event: the controller after it and the commands it sends. -/
def handle (c : Controller) : ControlEvent → Controller × List Command
  | .start now => c.start now
  | .tick now => c.tick now
  | .temperatures reading received => (c.recordTemperatures reading received, [])
  | .power reading received => (c.recordPower reading received, [])
  | .shutdown => c.shutdown

/-- Several events: the controller after them and all commands in order. -/
def run (c : Controller) : List ControlEvent → Controller × List Command
  | [] => (c, [])
  | event :: events =>
    let (next, sent) := c.handle event
    let (last, later) := next.run events
    (last, sent ++ later)

end Controller
end DryKiln
