import DryKiln.Program.Document
import DryKiln.Run.Status
/-!
Readings, power commands, statuses and history entries as documents.
-/

namespace DryKiln

open Document

namespace Temperatures

/-- A reading names the oven first. -/
def ofReading? (d : Document) : Option Temperatures := do
  match ← d.slots? [⟨"oven", false⟩, ⟨"material", false⟩] with
  | [oven, material] => return ⟨← required? binary32? oven, ← required? binary32? material⟩
  | _ => none

def toReading (t : Temperatures) : Document :=
  .record [("oven", ofBinary32 t.oven), ("material", ofBinary32 t.material)]

/-- A status names the material first. -/
def ofStatus? (d : Document) : Option Temperatures := do
  match ← d.slots? [⟨"material", false⟩, ⟨"oven", false⟩] with
  | [material, oven] =>
    let material ← required? binary32? material
    return ⟨← required? binary32? oven, material⟩
  | _ => none

def toStatus (t : Temperatures) : Document :=
  .record [("material", ofBinary32 t.material), ("oven", ofBinary32 t.oven)]

/-- The values of an answer of the sensor unit, sorted by name. -/
def responseValues? (d : Document) : Option (List (String × Float32)) := do
  match ← d.slots? [⟨"data", false⟩] with
  | [values] => required? (dictionary? binary32?) values
  | _ => none

/-- The reading in the values of an answer. -/
def ofValues? (values : List (String × Float32)) : Option Temperatures :=
  return ⟨← values.lookup "oven", ← values.lookup "material"⟩

end Temperatures

namespace ChannelReading

def ofDocument? (d : Document) : Option ChannelReading := do
  match ← d.slots? [⟨"status", true⟩, ⟨"percent", true⟩] with
  | [switch, percent] =>
    return ⟨← defaulted? .off (fun d => d.label? >>= Switch.ofLabel?) switch,
      ← defaulted? 0 percent? percent⟩
  | _ => none

def toDocument (reading : ChannelReading) : Document :=
  .record [("status", .text reading.switch.label), ("percent", ofWhole reading.percent.toNat)]

end ChannelReading

namespace PerChannel

/-- A table with a field for each actuator. -/
def ofDocument? {α : Type} (read : Document → Option α) (d : Document) : Option (PerChannel α) := do
  match ← d.slots? [⟨"heater", false⟩, ⟨"fan", false⟩, ⟨"humidifier", false⟩] with
  | [heater, fan, humidifier] =>
    return ⟨← required? read heater, ← required? read fan, ← required? read humidifier⟩
  | _ => none

def toDocument {α : Type} (encode : α → Document) (table : PerChannel α) : Document :=
  .record (Channel.all.map fun channel => (channel.label, encode (table.get channel)))

end PerChannel

namespace PowerReading

def ofDocument? (d : Document) : Option PowerReading := PerChannel.ofDocument? ChannelReading.ofDocument? d

def toDocument (reading : PowerReading) : Document :=
  PerChannel.toDocument ChannelReading.toDocument reading

/-- The values of an answer of the power unit, sorted by name. -/
def responseValues? (d : Document) : Option (List (String × ChannelReading)) := do
  match ← d.slots? [⟨"data", false⟩] with
  | [values] => required? (dictionary? ChannelReading.ofDocument?) values
  | _ => none

/-- The reading in the values of an answer. -/
def ofValues? (values : List (String × ChannelReading)) : Option PowerReading :=
  return ⟨← values.lookup Channel.heater.label, ← values.lookup Channel.fan.label,
    ← values.lookup Channel.humidifier.label⟩

def percents (reading : PowerReading) : PerChannel UInt8 := reading.map ChannelReading.percent

end PowerReading

/-- The percentages of a status as a document. -/
def percentsOfDocument? (d : Document) : Option (PerChannel UInt8) := PerChannel.ofDocument? percent? d

/-- The percentages of a status as a document. -/
def percentsToDocument (percents : PerChannel UInt8) : Document :=
  percents.toDocument fun percent => ofWhole percent.toNat

def commandToDocument (percent : UInt8) : Document := .record [("percent", ofWhole percent.toNat)]

def commandOfDocument? (d : Document) : Option UInt8 := do
  match ← d.slots? [⟨"percent", false⟩] with
  | [percent] => required? percent? percent
  | _ => none

/-- The text of an error that a unit reports; empty if it reports none. -/
def reportedError? (d : Document) : Option String := do
  match ← d.slots? [⟨"error", true⟩] with
  | [message] => defaulted? "" text? message
  | _ => none

namespace RunState

def ofDocument? (d : Document) : Option RunState := d.label? >>= ofLabel?

def toDocument (state : RunState) : Document := .text state.label

end RunState

namespace Status

def ofDocument (d : Document) : Except DocumentFault Status := do
  match ← readable (d.slots? [⟨"program", false⟩, ⟨"started_at", true⟩, ⟨"current_step", true⟩,
      ⟨"current_step_started_at", true⟩, ⟨"temperatures", true⟩, ⟨"power_status", true⟩]) with
  | [program, startedAt, stepName, stepStartedAt, temperatures, power] =>
    let program ← match program with
      | some d => Program.ofDocument d
      | none => throw .unreadable
    return {
      program
      startedAt := ← readable (defaulted? 0 instant? startedAt)
      stepName := ← readable (defaulted? "" text? stepName)
      stepStartedAt := ← readable (defaulted? 0 instant? stepStartedAt)
      temperatures := ← readable (defaulted? .zero Temperatures.ofStatus? temperatures)
      power := ← readable (defaulted? (.fill 0) percentsOfDocument? power) }
  | _ => throw .unreadable

def toDocument (status : Status) : Document :=
  .record [("program", status.program.toDocument), ("started_at", ofWhole status.startedAt),
    ("current_step", .text status.stepName), ("current_step_started_at", ofWhole status.stepStartedAt),
    ("temperatures", status.temperatures.toStatus), ("power_status", percentsToDocument status.power)]

end Status

namespace HistoryEntry

def ofDocument? (d : Document) : Option HistoryEntry := do
  match ← d.slots? [⟨"name", false⟩, ⟨"state", false⟩, ⟨"completed_at", true⟩] with
  | [name, state, completedAt] =>
    return ⟨← required? text? name, ← required? RunState.ofDocument? state,
      ← optional? instant? completedAt⟩
  | _ => none

def toDocument (entry : HistoryEntry) : Document :=
  .record ([("name", .text entry.name), ("state", entry.state.toDocument)] ++
    ofSet "completed_at" ofWhole entry.completedAt)

end HistoryEntry
end DryKiln
