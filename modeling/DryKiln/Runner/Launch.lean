import DryKiln.Device.Fault
import DryKiln.Program.Admission
import DryKiln.Runner.Run
import DryKiln.Storage.Basic
import DryKiln.Time.Calendar
/-!
The start of a run: what it is called, why it may not begin, and what is stored before it does. From
then on its effects change its files.
-/

namespace DryKiln

/-- The name of a run of a program that was started at a second. A second without a date counts as
the start of 1970. -/
def runName (program : String) (started : Int) : String :=
  let moment := Moment.ofSeconds (if calendarRange started then started else 0)
  program ++ String.ofList ('@' :: moment.text)

/-- Why the engine does not start or stop a program. -/
inductive EngineFault where
  | alreadyRunning
  | notRunning
  | invalidProgram (fault : ProgramFault)
  | sensorUnreachable (unit : SensorUnit) (fault : SensorFault)
  | storage (fault : StorageFault)
deriving DecidableEq, Repr

def EngineFault.kind : EngineFault → String
  | alreadyRunning => "AlreadyRunning"
  | notRunning => "NotRunning"
  | invalidProgram _ => "InvalidProgram"
  | sensorUnreachable _ _ => "SensorUnreachable"
  | storage _ => "Storage"

def EngineFault.message : EngineFault → String
  | alreadyRunning => "program already running"
  | notRunning => "no program running"
  | invalidProgram fault => "invalid program: " ++ fault.message
  | sensorUnreachable unit fault => unit.label ++ " sensor unreachable: " ++ fault.message
  | storage fault => fault.message

namespace Run

/-- Stores a new run as pending with an empty log. What has been stored before a fault stays. -/
def launch (storage : Storage) (tree : FileTree) (program : Program) (settings : RunSettings)
    (now : Int) : FileTree × Except StorageFault (Run × OpenFile) :=
  let name := runName program.name now
  match storage.createRun tree name program with
  | .error unfinished => (unfinished.left, .error unfinished.fault)
  | .ok created =>
    match storage.updateState created name .pending with
    | .error unfinished => (unfinished.left, .error unfinished.fault)
    | .ok pending =>
      match storage.openLog pending name with
      | .error fault => (pending, .error fault)
      | .ok (opened, file) =>
        match LogWriter.openOn (opened.write file) settings.logResolution now with
        | .error unfinished => (unfinished.left, .error (.file unfinished.fault))
        | .ok ((logged, file), log) =>
          (logged, .ok ({ prepare name program settings now with log }, file))

/-- What an effect of the run does to its files. A fault is passed over. -/
def store (storage : Storage) (name : String) (files : FileTree × OpenFile) :
    RunEffect → FileTree × OpenFile
  | .store state => (FileTree.after (storage.updateState files.1 name state), files.2)
  | .write text => files.1.tryWrite files.2 text
  | .archive => ((storage.moveToHistory files.1 name).1, files.2)
  | .request _ => files
  | .command _ => files
  | .abandon => files

end Run
end DryKiln
