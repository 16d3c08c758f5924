import DryKiln.Program.Basic
/-!
A regulation as an author gives it: any of the settings may be there, and the method may be named
or not. Settling it takes the method whose settings are there, and exactly one must be.
-/

namespace DryKiln

inductive Method where
  | constant
  | band
  | feedback
deriving DecidableEq, Repr

namespace Method

def label : Method → String
  | constant => "simple"
  | band => "delta"
  | feedback => "pid"

def ofLabel? (s : String) : Option Method := [constant, band, feedback].find? fun m => m.label == s

end Method

def Regulation.method : Regulation → Method
  | constant _ => .constant
  | band _ _ => .band
  | feedback _ => .feedback

/-- Why given settings do not make a regulation. -/
inductive RegulationFault where
  | notOneMethod
  | halfBand
  | otherMethod (named : Method)
deriving DecidableEq, Repr

def RegulationFault.message : RegulationFault → String
  | notOneMethod => "exactly one control method required: power, min/max delta or pid"
  | halfBand => "min_delta and max_delta must both be defined"
  | otherMethod named => "power type \x60" ++ named.label ++ "\x60 does not match its settings"

structure GivenRegulation where
  method : Option Method
  percent : Option UInt8
  low : Option Float32
  high : Option Float32
  gains : Option Gains
deriving DecidableEq, Repr

namespace GivenRegulation

/-- The regulation whose settings are there, whatever method is named. -/
def inferred (given : GivenRegulation) : Except RegulationFault Regulation :=
  match given.percent, given.low, given.high, given.gains with
  | some percent, none, none, none => .ok (.constant percent)
  | none, some low, some high, none => .ok (.band low high)
  | none, some _, none, none => .error .halfBand
  | none, none, some _, none => .error .halfBand
  | none, none, none, some gains => .ok (.feedback gains)
  | _, _, _, _ => .error .notOneMethod

def settle (given : GivenRegulation) : Except RegulationFault Regulation := do
  let regulation ← given.inferred
  match given.method with
  | some named => if named = regulation.method then return regulation else throw (.otherMethod named)
  | none => return regulation

end GivenRegulation
end DryKiln
