import DryKiln.Bench.LiveRun
/-!
A test bench: runs at work on one kiln, in a time of its own that jumps from one instant at which
something happens to the next.
-/

namespace DryKiln

/-- A test bench. Runs stay on it when they are over. -/
structure Bench where
  site : BenchSite
  runs : List LiveRun
deriving DecidableEq, Repr

namespace Bench

def setUp (epoch : Int) (storage : Storage) (tree : FileTree) (kiln : BenchKiln) : Bench :=
  ⟨⟨epoch, 0, storage, tree, kiln⟩, []⟩

/-- One step of the first run that does not have to wait. -/
def stepRuns? (site : BenchSite) : List LiveRun → Option (BenchSite × List LiveRun)
  | [] => none
  | live :: rest =>
    match live.step? site with
    | some (site, live) => some (site, live :: rest)
    | none => (stepRuns? site rest).map fun (site, rest) => (site, live :: rest)

/-- One step; nothing if all have to wait for another instant. -/
def step? (bench : Bench) : Option Bench :=
  (stepRuns? bench.site bench.runs).map fun (site, runs) => ⟨site, runs⟩

/-- So many steps, or fewer if all have to wait. -/
def steps : Nat → Bench → Bench
  | 0, bench => bench
  | count + 1, bench =>
    match bench.step? with
    | some next => steps count next
    | none => bench

/-- More steps than a run can take at one instant: it begins, ticks and stops at most once, a
poller has four requests and four readings in its queues, and no event has more than three commands
twice. -/
def stepsAtOnce : Nat := 128

/-- Lets everything happen that happens at this instant. -/
def settle (bench : Bench) : Bench := bench.steps (stepsAtOnce * bench.runs.length)

/-- The next instant at which something will happen by itself. -/
def nextInstant? (bench : Bench) : Option Nat := (bench.runs.flatMap LiveRun.instants).min?

/-- The bench at a later instant, nothing having happened. -/
def at_ (bench : Bench) (now : Nat) : Bench := { bench with site := { bench.site with now } }

/-- Lets everything happen that happens before an instant, in at most so many jumps. -/
def passTo (instant : Nat) : Nat → Bench → Bench
  | 0, bench => bench.at_ instant
  | jumps + 1, bench =>
    let settled := bench.settle
    match settled.nextInstant? with
    | some next =>
      if next < instant then passTo instant jumps (settled.at_ next) else settled.at_ instant
    | none => settled.at_ instant

/-- Lets so many milliseconds pass. What happens at the end of them has not happened then. -/
def pass (bench : Bench) (milliseconds : Nat) : Bench :=
  bench.passTo (bench.site.now + milliseconds) (milliseconds + 1)

/-- Sleeps so many milliseconds. Whoever does not sleep at all gives nobody a turn. -/
def sleep (bench : Bench) (milliseconds : Nat) : Bench :=
  if milliseconds = 0 then bench else bench.pass milliseconds

def run? (bench : Bench) (i : Nat) : Option LiveRun := bench.runs[i]?

/-- The run at a position is finished, or there is none. -/
def isFinished (bench : Bench) (i : Nat) : Bool := (bench.run? i).all LiveRun.isFinished

/-- Lets time pass until a run is finished or an instant is reached, in at most so many jumps. -/
def awaitTo (i instant : Nat) : Nat → Bench → Bench
  | 0, bench => bench
  | jumps + 1, bench =>
    let settled := bench.settle
    if settled.isFinished i then settled
    else
      match settled.nextInstant? with
      | some next =>
        if next < instant then awaitTo i instant jumps (settled.at_ next)
        else settled.at_ instant
      | none => settled.at_ instant

/-- Waits until a run is finished, but only so many milliseconds. -/
def await (bench : Bench) (i limit : Nat) : Bench :=
  bench.awaitTo i (bench.site.now + limit) (limit + 1)

/-- How a run has ended; nothing if it is still going on. -/
def ending? (bench : Bench) (i : Nat) : Option Ending := (bench.run? i).bind LiveRun.ending?

def askToStop (bench : Bench) (i : Nat) : Bench :=
  { bench with runs := bench.runs.modify i fun live => { live with stopAsked := true } }

/-- Stops a run and waits until it is finished, but only so many milliseconds. -/
def stop (bench : Bench) (i limit : Nat) : Bench := (bench.askToStop i).await i limit

def readTemperatures (bench : Bench) : Bench × Except SensorFault Temperatures :=
  let kiln := bench.site.kiln
  let number := kiln.temperatureReads
  let begun := { bench with
    site := { bench.site with kiln := { kiln with temperatureReads := number + 1 } } }
  let ended := begun.sleep kiln.temperatureSensor.delay
  (ended, ended.site.kiln.temperatureSensor.answer number)

def readPower (bench : Bench) : Bench × Except SensorFault PowerReading :=
  let kiln := bench.site.kiln
  let number := kiln.powerReads
  let begun := { bench with
    site := { bench.site with kiln := { kiln with powerReads := number + 1 } } }
  let ended := begun.sleep kiln.powerSensor.delay
  (ended, ended.site.kiln.powerSensor.answer number)

/-- Prepares a run: both units must answer, and its files are stored. -/
def prepare (bench : Bench) (program : Program) (settings : RunSettings) :
    Bench × Except EngineFault (Run × OpenFile) :=
  match bench.readTemperatures with
  | (bench, .error fault) => (bench, .error (.sensorUnreachable .temperature fault))
  | (bench, .ok _) =>
    match bench.readPower with
    | (bench, .error fault) => (bench, .error (.sensorUnreachable .power fault))
    | (bench, .ok _) =>
      let (tree, launched) :=
        Run.launch bench.site.storage bench.site.tree program settings bench.site.clock
      ({ bench with site := { bench.site with tree } }, launched.mapError .storage)

/-- Puts a prepared run to work, and its position. -/
def start (bench : Bench) (run : Run) (logFile : OpenFile) : Bench × Nat :=
  ({ bench with runs := bench.runs ++ [.fresh run logFile] }, bench.runs.length)

end Bench
end DryKiln
