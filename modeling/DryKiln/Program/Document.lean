import DryKiln.Document.Format
import DryKiln.Program.Method
/-!
Programs and defaults as documents. What is written reads back; reading also takes lists in place
of records and settings without a named method.
-/

namespace DryKiln

/-- Why a text is not the document it should be. -/
inductive DocumentFault where
  /-- Not well formed, or not of the right shape. -/
  | unreadable
  | regulation (fault : RegulationFault)
deriving DecidableEq, Repr

/-- What has been read, or else an unreadable document. -/
def readable {α : Type} : Option α → Except DocumentFault α
  | some value => .ok value
  | none => .error .unreadable

namespace Document

/-- A finite number as it is written; null stands for all others. -/
def ofBinary32 (x : Float32) : Document :=
  match Numeral.ofBinary32? x with
  | some n => .number n
  | none => .null

/-- A whole number. -/
def ofWhole (n : Int) : Document := .number (.whole n)

/-- A field that is written only if it is set. -/
def ofSet {α : Type} (name : String) (encode : α → Document) : Option α → List (String × Document)
  | some value => [(name, encode value)]
  | none => []

/-- A field of several of which each has a fault of its own: missing and null are the same. -/
def settable {α : Type} (read : Document → Except DocumentFault α) :
    Option Document → Except DocumentFault (Option α)
  | none => .ok none
  | some .null => .ok none
  | some d => some <$> read d

end Document

open Document

namespace Gains

def ofDocument? (format : Format) (d : Document) : Option Gains := do
  match ← format.slots? [⟨"kp", false⟩, ⟨"ki", false⟩, ⟨"kd", false⟩] d with
  | [kp, ki, kd] =>
    return ⟨← required? binary32? kp, ← required? binary32? ki, ← required? binary32? kd⟩
  | _ => none

def toDocument (gains : Gains) : Document :=
  .record [("kp", ofBinary32 gains.kp), ("ki", ofBinary32 gains.ki), ("kd", ofBinary32 gains.kd)]

end Gains

namespace GivenRegulation

def ofDocument? (d : Document) : Option GivenRegulation := do
  match ← d.slots? [⟨"type", false⟩, ⟨"power", false⟩, ⟨"min_delta", false⟩, ⟨"max_delta", false⟩,
      ⟨"pid", false⟩] with
  | [method, percent, low, high, gains] =>
    return ⟨← optional? (fun d => d.label? >>= Method.ofLabel?) method, ← optional? percent? percent,
      ← optional? binary32? low, ← optional? binary32? high, ← optional? (Gains.ofDocument? .json) gains⟩
  | _ => none

end GivenRegulation

namespace Regulation

def ofDocument (d : Document) : Except DocumentFault Regulation := do
  let given ← readable (GivenRegulation.ofDocument? d)
  given.settle.mapError .regulation

/-- The method comes first. -/
def toDocument (regulation : Regulation) : Document :=
  .record (("type", .text regulation.method.label) :: match regulation with
    | constant percent => [("power", ofWhole percent.toNat)]
    | band low high => [("min_delta", ofBinary32 low), ("max_delta", ofBinary32 high)]
    | feedback gains => [("pid", gains.toDocument)])

end Regulation

namespace Step

def ofDocument (d : Document) : Except DocumentFault Step := do
  match ← readable (d.slots? [⟨"name", false⟩, ⟨"type", false⟩, ⟨"temperature_target", true⟩,
      ⟨"runtime", true⟩, ⟨"heater", true⟩, ⟨"fan", true⟩, ⟨"humidifier", true⟩]) with
  | [name, kind, target, runtime, heater, fan, humidifier] =>
    return {
      name := ← readable (required? text? name)
      kind := ← readable (required? (fun d => d.label? >>= StepKind.ofLabel?) kind)
      target := ← readable (optional? binary32? target)
      runtime := ← readable (optional? duration? runtime)
      phases := ⟨← settable Regulation.ofDocument heater, ← settable Regulation.ofDocument fan,
        ← settable Regulation.ofDocument humidifier⟩ }
  | _ => throw .unreadable

/-- What is not set is not written. -/
def toDocument (step : Step) : Document :=
  .record ([("name", .text step.name), ("type", .text step.kind.label)] ++
    ofSet "temperature_target" ofBinary32 step.target ++
    ofSet "runtime" (fun seconds => ofWhole seconds.toNat) step.runtime ++
    Channel.all.flatMap fun channel =>
      ofSet channel.label Regulation.toDocument (step.phases.get channel))

end Step

namespace Program

def ofDocument (d : Document) : Except DocumentFault Program := do
  match ← readable (d.slots? [⟨"name", false⟩, ⟨"steps", false⟩, ⟨"max_runtime", true⟩]) with
  | [name, steps, maxRuntime] =>
    return {
      name := ← readable (required? text? name)
      steps := ← (← readable (required? items? steps)).mapM Step.ofDocument
      maxRuntime := ← readable (optional? duration? maxRuntime) }
  | _ => throw .unreadable

def toDocument (program : Program) : Document :=
  .record ([("name", .text program.name), ("steps", .list (program.steps.map Step.toDocument))] ++
    ofSet "max_runtime" (fun seconds => ofWhole seconds.toNat) program.maxRuntime)

end Program

namespace Defaults

def ofDocument? (format : Format) (d : Document) : Option Defaults := do
  match ← format.slots? [⟨"pid_settings", true⟩, ⟨"min_delta_heating", false⟩,
      ⟨"max_delta_heating", false⟩] d with
  | [gains, low, high] =>
    return ⟨← defaulted? [] (dictionary? (Gains.ofDocument? format)) gains, ← required? binary32? low,
      ← required? binary32? high⟩
  | _ => none

def toDocument (defaults : Defaults) : Document :=
  .record [("pid_settings", .record (defaults.gains.map fun entry => (entry.1, entry.2.toDocument))),
    ("min_delta_heating", ofBinary32 defaults.lowDelta),
    ("max_delta_heating", ofBinary32 defaults.highDelta)]

end Defaults
end DryKiln
