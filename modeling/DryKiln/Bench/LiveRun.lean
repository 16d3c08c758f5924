import DryKiln.Bench.Kiln
import DryKiln.Runner.Launch
/-!
A run at work on a test bench: the run itself, the two pollers that read for it, and the gateway
that delivers its commands. They take turns in small steps, the run before the pollers and the
pollers before the gateway.
-/

namespace DryKiln

/-- What the runs of a test bench share. -/
structure BenchSite where
  /-- The second at which the bench was set up. -/
  epoch : Int
  /-- Milliseconds since then. -/
  now : Nat
  storage : Storage
  tree : FileTree
  kiln : BenchKiln
deriving DecidableEq, Repr

/-- The clock in seconds. -/
def BenchSite.clock (site : BenchSite) : Int := site.epoch + (site.now / 1000 : Nat)

inductive Ending where
  | outcome (outcome : RunOutcome)
  /-- Nothing is left of it but its files. -/
  | brokenOff
deriving DecidableEq, Repr

/-- A run at work. -/
structure LiveRun where
  run : Run
  logFile : OpenFile
  temperatures : Poller Temperatures
  power : Poller PowerReading
  gateway : Gateway
  nextTick : Nat
  stopAsked : Bool
deriving DecidableEq, Repr

namespace LiveRun

/-- A run that will begin at the next opportunity. -/
def fresh (run : Run) (logFile : OpenFile) : LiveRun :=
  ⟨run, logFile, .fresh, .fresh, .fresh, 0, false⟩

/-- The instant of the tick after one at this instant. -/
def tickAfter (live : LiveRun) (now : Nat) : Nat := now + live.run.settings.tickLength.toNat

/-- The event that the run takes next, if one is due, and what is left of its surroundings. -/
def nextEvent? (live : LiveRun) (now : Nat) : Option (RunEvent × LiveRun) :=
  match live.run.phase with
  | .over _ => none
  | .brokenOff => none
  | .prepared =>
    some (.begin, { live with gateway := live.gateway.start, nextTick := live.tickAfter now })
  | .active =>
    if live.nextTick ≤ now then some (.tick, { live with nextTick := live.tickAfter now })
    else
      match live.temperatures.receive with
      | (rest, .reading reading) => some (.temperatures reading, { live with temperatures := rest })
      | _ =>
        match live.power.receive with
        | (rest, .reading reading) => some (.power reading, { live with power := rest })
        | _ => if live.stopAsked then some (.stop, live) else none

/-- Lets go of a poller: nobody will ask it or hear of it again. -/
def leave {α : Type} (p : Poller α) : Poller α := p.hangUp.deafen

/-- Asks a poller to stop, and lets go of it. -/
def release {α : Type} (p : Poller α) : Poller α := leave (p.send .stop).1

/-- Does what the run wants done. -/
def perform (pair : BenchSite × LiveRun) (effect : RunEffect) : BenchSite × LiveRun :=
  let (site, live) := pair
  let (tree, logFile) := Run.store site.storage live.run.name (site.tree, live.logFile) effect
  let site := { site with tree }
  let live := { live with logFile }
  match effect with
  | .request .temperature => (site, { live with temperatures := (live.temperatures.send .read).1 })
  | .request .power => (site, { live with power := (live.power.send .read).1 })
  | .command command => (site, { live with gateway := live.gateway.send command })
  | .archive => (site, { live with
      gateway := live.gateway.close
      temperatures := release live.temperatures
      power := release live.power })
  | .abandon => (site, { live with
      gateway := live.gateway.close
      temperatures := leave live.temperatures
      power := leave live.power })
  | _ => (site, live)

/-- What the log file answers while the run does what it does at one event. -/
def sink (site : BenchSite) (live : LiveRun) : SinkAnswers := .all (site.tree.hasRoom live.logFile)

def take (site : BenchSite) (live : LiveRun) (event : RunEvent) : BenchSite × LiveRun :=
  let (run, effects) := live.run.handle event site.clock (sink site live)
  effects.foldl perform (site, { live with run })

def pollTemperatures? (site : BenchSite) (live : LiveRun) : Option (BenchSite × LiveRun) :=
  (live.temperatures.step? site.kiln.temperatureSensor site.now site.kiln.temperatureReads).map
    fun (temperatures, reads) =>
      let kiln := { site.kiln with temperatureReads := site.kiln.temperatureReads + reads }
      ({ site with kiln }, { live with temperatures })

def pollPower? (site : BenchSite) (live : LiveRun) : Option (BenchSite × LiveRun) :=
  (live.power.step? site.kiln.powerSensor site.now site.kiln.powerReads).map
    fun (power, reads) =>
      let kiln := { site.kiln with powerReads := site.kiln.powerReads + reads }
      ({ site with kiln }, { live with power })

def deliver? (site : BenchSite) (live : LiveRun) : Option (BenchSite × LiveRun) :=
  live.gateway.step?.map fun (gateway, command) =>
    let kiln := match command with
      | some command => site.kiln.deliver command
      | none => site.kiln
    ({ site with kiln }, { live with gateway })

/-- One step; nothing if all have to wait. -/
def step? (site : BenchSite) (live : LiveRun) : Option (BenchSite × LiveRun) :=
  match live.nextEvent? site.now with
  | some (event, live) => some (take site live event)
  | none =>
    (pollTemperatures? site live).or ((pollPower? site live).or (deliver? site live))

/-- The instants at which something will happen by itself. -/
def instants (live : LiveRun) : List Nat :=
  (if live.run.phase = .active then [live.nextTick] else []) ++
    live.temperatures.nextEnd.toList ++ live.power.nextEnd.toList

/-- How the run has ended, once it is over and nobody works for it any more. One that breaks off
has ended at once. -/
def ending? (live : LiveRun) : Option Ending :=
  if live.run.phase = .brokenOff then some .brokenOff
  else if live.temperatures.isFinished && live.power.isFinished && live.gateway.isFinished then
    live.run.outcome?.map .outcome
  else none

def isFinished (live : LiveRun) : Bool := live.ending?.isSome

end LiveRun
end DryKiln
