import DryKiln.Program.Basic
import DryKiln.Time.Calendar
/-!
A feedback loop sampled at whole seconds. Its answer is a correction of the power, not the power.
A loop lives for one step, so nothing is carried over into the next.
-/

namespace DryKiln

structure Feedback where
  /-- The error of the latest sample. -/
  error : Float32
  /-- The errors summed over time. -/
  integral : Float32
  /-- The change of the error in a second. -/
  derivative : Float32
  /-- The second of the latest sample; absent before the first one. -/
  lastUpdate : Option Int
deriving DecidableEq, Repr

namespace Feedback

def fresh : Feedback := ⟨0, 0, 0, none⟩

/-- The memory after a sample that has one before it. If no time has passed, the sum stays and
the change is zero. -/
def observe (loop : Feedback) (error : Float32) (last now : Int) : Feedback :=
  if 0 < secondsSince last now then
    let seconds := Float32.ofInt (secondsSince last now)
    { error
      integral := loop.integral + error * seconds
      derivative := (error - loop.error) / seconds
      lastUpdate := some now }
  else { loop with error, derivative := 0, lastUpdate := some now }

/-- The correction that the memory asks for. -/
def correction (loop : Feedback) (gains : Gains) : Float32 :=
  gains.kp * loop.error + gains.ki * loop.integral + gains.kd * loop.derivative

/-- One sample: the new memory and the correction. The first sample only notes the time. -/
def sample (loop : Feedback) (gains : Gains) (error : Float32) (now : Int) :
    Feedback × Option Float32 :=
  match loop.lastUpdate with
  | none => ({ loop with lastUpdate := some now }, none)
  | some last =>
    let next := loop.observe error last now
    (next, some (next.correction gains))

end Feedback
end DryKiln
