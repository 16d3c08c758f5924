import DryKiln.Control.Feedback
/-!
From temperatures to the percentage of one actuator.
-/

namespace DryKiln

def fullPower : UInt8 := 100

/-- The smaller of two numbers; of a number and NaN the number. -/
def lesser (a b : Float32) : Float32 :=
  if a.isNaN then b else if b.isNaN then a else if b < a then b else a

/-- The larger of two numbers; of a number and NaN the number. -/
def greater (a b : Float32) : Float32 :=
  if a.isNaN then b else if b.isNaN then a else if a < b then b else a

/-- The temperature that a band regulation heats towards: the setpoint, moved into the band above
the material temperature. -/
def bandTarget (setpoint material low high : Float32) : Float32 :=
  greater (lesser setpoint (material + high)) (material + low)

/-- Full power while the oven is below the target of the band, else none. -/
def bandPower (setpoint oven material low high : Float32) : UInt8 :=
  if oven < bandTarget setpoint material low high then fullPower else 0

/-- A percentage between none and full power, without its fraction; NaN is none. -/
def clampPower (raw : Float32) : UInt8 :=
  if raw.isNaN then 0
  else if raw < 0 then 0
  else if Float32.ofNat fullPower.toNat < raw then fullPower
  else raw.toUInt8

/-- The regulation of one actuator during one step, with the memory that it needs. -/
structure Regulator where
  regulation : Regulation
  loop : Feedback
deriving DecidableEq, Repr

namespace Regulator

def fresh (regulation : Regulation) : Regulator := ⟨regulation, .fresh⟩

/-- The next percentage. The percentage commanded last matters to a feedback loop alone. -/
def update (regulator : Regulator) (setpoint : Float32) (oven material : Float32)
    (previous : UInt8) (now : Int) : Regulator × UInt8 :=
  match regulator.regulation with
  | .constant percent => (regulator, min percent fullPower)
  | .band low high => (regulator, bandPower setpoint oven material low high)
  | .feedback gains =>
    let (loop, correction) := regulator.loop.sample gains (setpoint - oven) now
    ({ regulator with loop },
      match correction with
      | some correction => clampPower (Float32.ofNat previous.toNat + correction)
      | none => 0)

end Regulator
end DryKiln
