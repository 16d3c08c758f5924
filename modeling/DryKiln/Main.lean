import DryKiln.CommandLine.StartUp
import DryKiln.Runner.Launch
import DryKiln.Shell.Client
import DryKiln.Shell.Disk
import Std.Async.Signal
import Std.Time
/-!
The command line: the files and the network of the machine around what the other modules decide.
-/

open Std.Async

namespace DryKiln
namespace Shell

/-- A run at work on the machine. -/
structure Work where
  config : Config
  storage : Storage
  run : Run
  tree : FileTree
  logFile : OpenFile

/-- The clock in seconds. -/
def clock : IO Int := return (← Std.Time.Timestamp.now).toSecondsSinceUnixEpoch.val

def complain (text : String) : IO Unit := do (← IO.getStderr).putStrLn text

def fail {α : Type} (text : String) : IO α := throw (IO.userError text)

/-- What comes back from the network of a configuration. -/
def ask (config : Config) (request : Http.Request) : IO Http.Reply :=
  Client.exchange config.httpTimeout request

/-- Does to the files what a run wants done, and says what it wants of the units. -/
def perform (work : Work) (effects : List RunEffect) :
    IO (Work × List SensorUnit × List Command) := do
  let (tree, logFile) := effects.foldl (Run.store work.storage work.run.name) (work.tree, work.logFile)
  match ← (Disk.store work.tree tree).toBaseIO with
  | .ok _ => pure ()
  | .error e => complain (toString e)
  let requests := effects.filterMap fun
    | .request unit => some unit
    | _ => none
  let commands := effects.filterMap fun
    | .command command => some command
    | _ => none
  return ({ work with tree, logFile }, requests, commands)

/-- Reads a unit for a run; a read that fails is no event. -/
def readUnit (work : Work) (unit : SensorUnit) : IO (Option RunEvent) := do
  match unit with
  | .temperature =>
    match Http.temperaturesOf (← ask work.config (Http.readRequest work.config.sensorUnit.url)) with
    | .ok reading => return some (.temperatures reading)
    | .error fault => complain fault.message; return none
  | .power =>
    match Http.powerOf (← ask work.config (Http.readRequest work.config.powerUnit.url)) with
    | .ok reading => return some (.power reading)
    | .error fault => complain fault.message; return none

/-- Gives a run an event, then reads the units that it wants read, then delivers its commands. -/
partial def take (work : Work) (event : RunEvent) : IO Work := do
  let sink := SinkAnswers.all (work.tree.hasRoom work.logFile)
  let (run, effects) := work.run.handle event (← clock) sink
  let (work, requests, commands) ← perform { work with run } effects
  let mut work := work
  for unit in requests do
    if let some reading ← readUnit work unit then
      work ← take work reading
  for command in commands do
    let reply ← ask work.config (Http.commandRequest work.config.powerUnit.url command)
    match Http.takenOf reply with
    | .ok _ => pure ()
    | .error fault => complain fault.message
  return work

/-- Waits until an instant of the monotonic clock; true if the operator interrupts meanwhile. -/
partial def waitUntil (interrupted : IO Bool) (instant : Nat) : IO Bool := do
  if ← interrupted then return true
  let now ← IO.monoMsNow
  if instant ≤ now then return false
  IO.sleep (UInt32.ofNat (min 100 (instant - now)))
  waitUntil interrupted instant

/-- Ticks while the run goes on. -/
partial def tickOn (interrupted : IO Bool) (work : Work) : IO Work := do
  if work.run.phase ≠ .active then return work
  let next := (← IO.monoMsNow) + work.config.tickLength.toNat
  if ← waitUntil interrupted next then take work .stop
  else tickOn interrupted (← take work .tick)

/-- The temperatures and the power unit must answer before a run begins. -/
def reachUnits (config : Config) : IO Unit := do
  match Http.temperaturesOf (← ask config (Http.readRequest config.sensorUnit.url)) with
  | .ok _ => pure ()
  | .error fault => fail (EngineFault.sensorUnreachable .temperature fault).message
  match Http.powerOf (← ask config (Http.readRequest config.powerUnit.url)) with
  | .ok _ => pure ()
  | .error fault => fail (EngineFault.sensorUnreachable .power fault).message

/-- Runs a program to its end, or until the operator interrupts. -/
def runProgram (tree : FileTree) (config : Config) (program : Program) : IO Unit := do
  let program ← match program.ready config.defaults with
    | .ok program => pure program
    | .error fault => fail (EngineFault.invalidProgram fault).message
  reachUnits config
  let storage : Storage := ⟨config.basePath⟩
  let settings : RunSettings := ⟨config.tickLength, config.staleAfter, config.logResolution⟩
  let (launched, result) := Run.launch storage tree program settings (← clock)
  Disk.store tree launched
  match result with
  | .error fault => fail fault.message
  | .ok (run, logFile) =>
    let signal ← Signal.Waiter.mk .sigint false
    let interrupt ← signal.wait
    let work ← take ⟨config, storage, run, launched, logFile⟩ .begin
    let ended ← tickOn (IO.hasFinished interrupt) work
    signal.stop
    if let some outcome := ended.run.outcome? then
      complain ("run " ++ outcome.name ++ " " ++ outcome.state.label)

/-- The configuration with the root of its runs as a path from the root of the machine. -/
def rooted (config : Config) : IO Config := do
  return { config with basePath := ← Disk.absolute config.basePath }

/-- A task with its path from the root of the machine. -/
def rootedTask : Task → IO Task
  | .run path => return .run (← Disk.absolute path)
  | task => return task

/-- Carries out a command line that makes sense. -/
def carryOut (invocation : Invocation) : IO Unit := do
  let configPath ← Disk.absolute invocation.configPath
  let config ← match Config.load (← Disk.load .empty configPath) configPath with
    | .ok config => rooted config
    | .error fault => fail (StartUpFault.config configPath fault).message
  let task ← rootedTask invocation.task
  let stored ← Disk.load .empty config.basePath
  let tree ← match task with
    | .run path => Disk.load stored path
    | _ => pure stored
  let (after, result) := task.startUp tree config
  Disk.store tree after
  match result with
  | .error fault => fail fault.message
  | .ok (.print text) => IO.print text
  | .ok (.run config program) => runProgram after config program

end Shell
end DryKiln

/-- Carries out the command line; the status is 0 for success, 1 for a failure and 2 for misuse. -/
def main (arguments : List String) : IO UInt32 := do
  match DryKiln.Invocation.ofArguments arguments with
  | .error refusal =>
    IO.print refusal.output
    if refusal = .misuse then DryKiln.Shell.complain DryKiln.HelpTopic.program.text
    return refusal.exitCode.toUInt32
  | .ok invocation =>
    match ← (DryKiln.Shell.carryOut invocation).toBaseIO with
    | .ok _ => return 0
    | .error e =>
      DryKiln.Shell.complain ("FATAL: " ++ toString e)
      return 1
