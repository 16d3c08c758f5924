import DryKiln.Decimal.Layout
import DryKiln.Program.Basic
import DryKiln.Text.Blank
/-!
Filling a program from the defaults, and checking that it can be run.
-/

namespace DryKiln

/-- The highest target temperature of the kiln. -/
def maxTarget : Float32 := 200.0

inductive ProgramFault where
  | emptyName
  | noSteps
  | missingPhase (step : String) (channel : Channel)
  | invalidPower (step : String) (channel : Channel) (percent : UInt8)
  | invalidDelta (step : String)
  | nonConstantPower (step : String) (channel : Channel)
  | targetTooHigh (step : String) (target : Float32)
  | missingTarget (step : String)
  | missingRuntime (step : String)
deriving DecidableEq, Repr

def ProgramFault.kind : ProgramFault → String
  | emptyName => "EmptyName"
  | noSteps => "NoSteps"
  | missingPhase _ _ => "MissingPhase"
  | invalidPower _ _ _ => "InvalidPower"
  | invalidDelta _ => "InvalidDelta"
  | nonConstantPower _ _ => "NonConstantPower"
  | targetTooHigh _ _ => "TargetTooHigh"
  | missingTarget _ => "MissingTarget"
  | missingRuntime _ => "MissingRuntime"

/-- The text shown to the author of the program. -/
def ProgramFault.message : ProgramFault → String
  | emptyName => "program name cannot be empty"
  | noSteps => "program must have at least one step"
  | missingPhase step channel => about step (channel.label ++ " has no power settings")
  | invalidPower step channel percent =>
    about step (channel.label ++ " power " ++ toString percent.toNat ++ " is not between 0 and 100")
  | invalidDelta step => about step "min_delta must not exceed max_delta"
  | nonConstantPower step channel => about step (channel.label ++ " must use simple power control")
  | targetTooHigh step target =>
    about step ("target temperature " ++ messageText target ++ " exceeds the kiln limit")
  | missingTarget step => about step "target temperature is required"
  | missingRuntime step => about step "acclimate step must have a runtime"
where
  about (step text : String) : String := "step '" ++ step ++ "': " ++ text

namespace Step

/-- The regulation that the defaults give an actuator of this kind of step. -/
def defaultPhase (defaults : Defaults) (kind : StepKind) : Channel → Regulation
  | .heater =>
    match kind with
    | .acclimate => .feedback (defaults.gainsFor .acclimate)
    | .heating => .band defaults.lowDelta defaults.highDelta
    | .cooling => .off
  | _ => .off

/-- Fills the phases that are not set. -/
def fill (defaults : Defaults) (step : Step) : Step :=
  { step with
    phases := .ofFn fun channel =>
      some ((step.phases.get channel).getD (defaultPhase defaults step.kind channel)) }

/-- Only the heater may be regulated, and not while cooling. -/
def mustBeConstant (step : Step) (channel : Channel) : Bool :=
  channel != .heater || step.kind == .cooling

/-- The settings of one phase taken by themselves. -/
def checkRegulation (step : Step) (channel : Channel) : Regulation → Except ProgramFault Unit
  | .constant percent =>
    if 100 < percent then throw (.invalidPower step.name channel percent) else pure ()
  | .band low high => if high < low then throw (.invalidDelta step.name) else pure ()
  | .feedback _ => pure ()

/-- One phase of the step. -/
def checkPhase (step : Step) (channel : Channel) : Except ProgramFault Unit :=
  match step.phases.get channel with
  | none => throw (.missingPhase step.name channel)
  | some regulation => do
    step.checkRegulation channel regulation
    if step.mustBeConstant channel && !regulation.isConstant then
      throw (.nonConstantPower step.name channel)

def checkGoal (step : Step) : Except ProgramFault Unit := do
  if let some target := step.target then
    if maxTarget < target then throw (.targetTooHigh step.name target)
  if step.kind != .cooling && step.target.isNone then throw (.missingTarget step.name)
  if step.kind == .acclimate && step.runtime.isNone then throw (.missingRuntime step.name)

def check (step : Step) : Except ProgramFault Unit := do
  step.checkPhase .heater
  step.checkPhase .fan
  step.checkPhase .humidifier
  step.checkGoal

end Step

namespace Program

/-- Fills the phases that are not set. -/
def fill (defaults : Defaults) (program : Program) : Program :=
  { program with steps := program.steps.map (Step.fill defaults) }

/-- The program can be run; if not, its first fault. -/
def check (program : Program) : Except ProgramFault Unit := do
  if trimBlank program.name.toList = [] then throw .emptyName
  if program.steps = [] then throw .noSteps
  program.steps.forM Step.check

/-- The program as the engine runs it: filled and checked. -/
def ready (defaults : Defaults) (program : Program) : Except ProgramFault Program :=
  let filled := program.fill defaults
  filled.check.map fun _ => filled

end Program
end DryKiln
