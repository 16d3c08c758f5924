import DryKiln.Bench.Basic
import DryKiln.Config.Basic
/-!
The engine: at most one program runs at a time. A run that has ended by itself frees its place.
-/

namespace DryKiln

/-- The timing of runs in a configuration. -/
def Config.runSettings (config : Config) : RunSettings :=
  ⟨config.tickLength, config.staleAfter, config.logResolution⟩

/-- An engine on a test bench. -/
structure Engine where
  config : Config
  bench : Bench
  /-- The position of the run that was started last, unless it has been taken away. -/
  slot : Option Nat
deriving DecidableEq, Repr

namespace Engine

/-- An engine that has started nothing. -/
def new (config : Config) (bench : Bench) : Engine := ⟨config, bench, none⟩

/-- The position of the run that is going on. -/
def running? (engine : Engine) : Option Nat := engine.slot.filter fun i => !engine.bench.isFinished i

/-- A program is running. -/
def isRunning (engine : Engine) : Bool := engine.running?.isSome

/-- The status of the running program. -/
def status? (engine : Engine) : Option Status :=
  engine.running?.bind fun i => (engine.bench.run? i).map fun live => live.run.status

/-- Starts a program; the answer is the name of its run. -/
def start (engine : Engine) (program : Program) : Engine × Except EngineFault String :=
  if engine.isRunning then (engine, .error .alreadyRunning)
  else
    let engine := { engine with slot := none }
    match program.ready engine.config.defaults with
    | .error fault => (engine, .error (.invalidProgram fault))
    | .ok ready =>
      match engine.bench.prepare ready engine.config.runSettings with
      | (bench, .error fault) => ({ engine with bench }, .error fault)
      | (bench, .ok (run, logFile)) =>
        let (bench, i) := bench.start run logFile
        ({ engine with bench, slot := some i }, .ok run.name)

/-- Stops the running program; how it has ended, unless that takes more than so many
milliseconds. -/
def stop (engine : Engine) (limit : Nat) : Engine × Except EngineFault (Option Ending) :=
  match engine.running? with
  | none => ({ engine with slot := none }, .error .notRunning)
  | some i =>
    let bench := engine.bench.stop i limit
    ({ engine with bench, slot := none }, .ok (bench.ending? i))

/-- What somebody who waits for a program comes to know. -/
inductive Awaited where
  | nothingStarted
  | ended (ending : Ending)
  /-- It is still going on. -/
  | givenUp
deriving DecidableEq, Repr

/-- Looks once in every tick whether the program has ended, until an instant is reached, at most so
many times. -/
def waitTo (instant : Nat) : Nat → Engine → Engine × Awaited
  | 0, engine => (engine, .givenUp)
  | looks + 1, engine =>
    match engine.slot with
    | none => (engine, .nothingStarted)
    | some i =>
      match engine.bench.ending? i with
      | some ending => ({ engine with slot := none }, .ended ending)
      | none =>
        let now := engine.bench.site.now
        let tickLength := engine.config.tickLength.toNat
        if instant < now + tickLength then
          ({ engine with bench := engine.bench.sleep (instant - now) }, .givenUp)
        else waitTo instant looks { engine with bench := engine.bench.pass tickLength }

/-- Waits until the program has ended, but only so many milliseconds. -/
def wait (engine : Engine) (limit : Nat) : Engine × Awaited :=
  engine.waitTo (engine.bench.site.now + limit) (limit + 2)

end Engine
end DryKiln
