import DryKiln.Kiln.Channel
/-!
Drying programs: a list of steps that are run in order. Every step regulates the three actuators
in its own way.
-/

namespace DryKiln

/-- What a step is for; it decides how the step is carried out and when it is over. -/
inductive StepKind where
  | heating
  | cooling
  | acclimate
deriving DecidableEq, Repr

namespace StepKind

/-- All kinds, in the order in which they are listed. -/
def all : List StepKind := [heating, cooling, acclimate]

def label : StepKind → String
  | heating => "heating"
  | cooling => "cooling"
  | acclimate => "acclimate"

def ofLabel? (s : String) : Option StepKind := all.find? fun k => k.label == s

theorem ofLabel?_label (k : StepKind) : ofLabel? k.label = some k := by cases k <;> decide

end StepKind

structure Gains where
  kp : Float32
  ki : Float32
  kd : Float32
deriving DecidableEq, Repr

/-- Gains that do nothing. -/
def Gains.zero : Gains := ⟨0, 0, 0⟩

/-- How one actuator is regulated during one step. -/
inductive Regulation where
  /-- A fixed percentage. -/
  | constant (percent : UInt8)
  /-- Full power or none, so that the oven stays in a band above the material temperature. -/
  | band (low high : Float32)
  /-- A feedback loop on the oven temperature. -/
  | feedback (gains : Gains)
deriving DecidableEq, Repr

namespace Regulation

/-- Nothing at all. -/
def off : Regulation := constant 0

/-- A fixed percentage, whichever. -/
def isConstant : Regulation → Bool
  | constant _ => true
  | _ => false

end Regulation

/-- One step of a program. A phase that is not set is filled from the defaults before a run; one
that is not filled either is off. -/
structure Step where
  name : String
  kind : StepKind
  target : Option Float32
  /-- Seconds. -/
  runtime : Option UInt64
  phases : PerChannel (Option Regulation)
deriving DecidableEq, Repr

/-- How an actuator is regulated during the step. -/
def Step.phase (step : Step) (channel : Channel) : Regulation :=
  (step.phases.get channel).getD .off

structure Program where
  name : String
  steps : List Step
  /-- The longest the whole run may take, in seconds. -/
  maxRuntime : Option UInt64
deriving DecidableEq, Repr

/-- What fills the heater phases that a program leaves open. -/
structure Defaults where
  /-- Gains by the name of the kind of step, sorted by name. -/
  gains : List (String × Gains)
  lowDelta : Float32
  highDelta : Float32
deriving DecidableEq, Repr

/-- The gains for a kind of step; all zero if none are given. -/
def Defaults.gainsFor (defaults : Defaults) (kind : StepKind) : Gains :=
  match defaults.gains.find? fun entry => entry.1 == kind.label with
  | some entry => entry.2
  | none => .zero

/-- The defaults of an installation that sets none. -/
def Defaults.standard : Defaults :=
  ⟨[(StepKind.acclimate.label, ⟨2.0, 0.01, 0.5⟩)], 2.0, 10.0⟩

end DryKiln
