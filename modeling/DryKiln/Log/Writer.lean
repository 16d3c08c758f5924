import DryKiln.Decimal.Layout
import DryKiln.Log.Buffer
import DryKiln.Run.Status
import DryKiln.Text.Utf8
import DryKiln.Time.Calendar
/-!
The execution log: one row for each step that a run enters, and one whenever the last is too old.
A row that the sink does not take waits in the buffer and goes out with the next one it takes. If it
does not fit there, it breaks off, and every later row is added behind the piece that is left. A row
that is longer than the buffer goes to the sink in several writes, and any of them may be refused.
-/

namespace DryKiln

def logColumns : List String :=
  ["time", "step", "steptime", "material", "oven", "heater", "fan", "humidifier"]

def csvLine (fields : List String) : String := String.ofList (Csv.row (fields.map String.toList))

/-- An execution log that is being written. -/
structure LogWriter where
  /-- Rows of one step are at least this many seconds apart. -/
  resolution : Int
  openedAt : Int
  lastRow : Option Int
  lastStep : String
  /-- What the sink has not taken yet. -/
  buffer : Csv.Buffer
  isOpen : Bool
deriving DecidableEq, Repr

namespace LogWriter

/-- What goes to the sink when a log is opened. -/
def header : String := csvLine logColumns

/-- A log that is opened at a second, with its header written. -/
def opened (resolution now : Int) : LogWriter := ⟨resolution, now, none, "", .empty, true⟩

/-- Opens a log on a sink by writing its header. If the sink does not take that, there is no log. -/
def openOn {ε σ : Type} (write : String → Except ε σ) (resolution now : Int) :
    Except ε (σ × LogWriter) := do
  let sink ← write header
  return (sink, opened resolution now)

def rowOf (log : LogWriter) (status : Status) (now : Int) : List String :=
  [toString (secondsSince log.openedAt now), status.stepName,
    toString (secondsSince status.stepStartedAt now),
    oneDecimalText status.temperatures.material, oneDecimalText status.temperatures.oven,
    toString status.power.heater.toNat, toString status.power.fan.toNat,
    toString status.power.humidifier.toNat]

/-- A row is needed: the step is another one, or the last row is too old. -/
def needsRow (log : LogWriter) (status : Status) (now : Int) : Bool :=
  status.stepName != log.lastStep ||
    match log.lastRow with
    | none => true
    | some last => log.resolution ≤ secondsSince last now

/-- What became of a request to the log. -/
structure Written where
  log : LogWriter
  /-- What reached the sink, read as a text. -/
  sent : String
  /-- A row has been written for good. -/
  wrote : Bool
deriving DecidableEq, Repr

/-- Bytes, the latest first, as a text. -/
def textOf (bytes : List UInt8) : String := String.ofList (Utf8.decode bytes.reverse)

/-- Adds a row if one is needed. -/
def addLine (log : LogWriter) (status : Status) (now : Int) (accepts : WriteAnswers) : Written :=
  if !log.needsRow status now || !log.isOpen then ⟨log, "", false⟩
  else
    let row := log.rowOf status now
    let fields := row.map String.toList
    if !log.buffer.isEven then
      let (buffer, sent) := log.buffer.addBehind fields accepts
      ⟨{ log with buffer }, textOf sent, false⟩
    else if log.buffer.goesOut fields accepts then
      ⟨{ log with lastRow := some now, lastStep := status.stepName, buffer := .empty },
        textOf log.buffer.held ++ csvLine row, true⟩
    else
      let (buffer, sent) := log.buffer.addRefused fields accepts
      ⟨{ log with buffer }, textOf sent, false⟩

/-- Closes the log. What is still in the buffer is given to the sink once. -/
def close (log : LogWriter) (accepts : Bool) : Written :=
  ⟨{ log with isOpen := false, buffer := .empty },
    if log.isOpen && accepts then textOf log.buffer.held else "", false⟩

end LogWriter
end DryKiln
