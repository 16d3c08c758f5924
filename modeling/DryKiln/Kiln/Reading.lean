import DryKiln.Kiln.Channel
/-!
What the sensor unit and the power unit report.
-/

namespace DryKiln

/-- Temperatures in degrees Celsius. -/
structure Temperatures where
  oven : Float32
  material : Float32
deriving DecidableEq, Repr

def Temperatures.zero : Temperatures := ⟨0, 0⟩

/-- Whether an actuator is switched on. -/
inductive Switch where
  | on
  | off
deriving DecidableEq, Repr

def Switch.label : Switch → String
  | on => "On"
  | off => "Off"

/-- The switch position with this name. -/
def Switch.ofLabel? (s : String) : Option Switch := [on, off].find? fun p => p.label == s

/-- What the power unit reports of one actuator. -/
structure ChannelReading where
  switch : Switch
  percent : UInt8
deriving DecidableEq, Repr

/-- An actuator nothing is said about. -/
def ChannelReading.idle : ChannelReading := ⟨.off, 0⟩

/-- What the power unit reports. -/
abbrev PowerReading := PerChannel ChannelReading

def PowerReading.zero : PowerReading := .fill .idle

/-- The report of a power unit whose actuators run at these percentages. -/
def PowerReading.ofPercents (percents : PerChannel UInt8) : PowerReading :=
  percents.map fun percent => ⟨if 0 < percent then .on else .off, percent⟩

end DryKiln
