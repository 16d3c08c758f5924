import DryKiln.Device.Gateway
import DryKiln.Device.Poller
import DryKiln.Kiln.Reading
/-!
The kiln of a test bench. Its temperatures are set by hand; its power unit reports what it has been
told, unless that is set by hand too. Both units can be made slow or out of order.
-/

namespace DryKiln

structure BenchKiln where
  temperatures : Temperatures
  /-- What the power unit reports; if absent, what it has been told. -/
  reported : Option PowerReading
  temperatureFault : Option SensorFault
  powerFault : Option SensorFault
  /-- The actuators whose commands fail. -/
  dead : List Channel
  /-- Milliseconds of a read of the temperatures and of the power unit. -/
  temperatureDelay : Nat
  powerDelay : Nat
  /-- What the power unit has been told last. -/
  powers : PerChannel UInt8
  /-- All commands that the power unit has taken, the latest first. -/
  delivered : List Command
  temperatureReads : Nat
  powerReads : Nat
deriving DecidableEq, Repr

namespace BenchKiln

/-- A cold kiln in which everything works at once. -/
def idle : BenchKiln where
  temperatures := .zero
  reported := none
  temperatureFault := none
  powerFault := none
  dead := []
  temperatureDelay := 0
  powerDelay := 0
  powers := .fill 0
  delivered := []
  temperatureReads := 0
  powerReads := 0

def orFault {α : Type} (fault : Option SensorFault) (value : α) : Except SensorFault α :=
  match fault with
  | some fault => .error fault
  | none => .ok value

def temperatureSensor (kiln : BenchKiln) : Sensor Temperatures :=
  ⟨kiln.temperatureDelay, fun _ => orFault kiln.temperatureFault kiln.temperatures⟩

/-- What the power unit reports if it is read. -/
def powerReading (kiln : BenchKiln) : PowerReading :=
  kiln.reported.getD (.ofPercents kiln.powers)

/-- The power unit as it is read. -/
def powerSensor (kiln : BenchKiln) : Sensor PowerReading :=
  ⟨kiln.powerDelay, fun _ => orFault kiln.powerFault kiln.powerReading⟩

def takes (kiln : BenchKiln) (command : Command) : Bool := !kiln.dead.contains command.channel

/-- A command reaches the power unit. -/
def deliver (kiln : BenchKiln) (command : Command) : BenchKiln :=
  if kiln.takes command then
    { kiln with
      powers := kiln.powers.set command.channel command.percent
      delivered := command :: kiln.delivered }
  else kiln

end BenchKiln
end DryKiln
