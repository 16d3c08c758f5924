import DryKiln.CommandLine.Arguments
import DryKiln.Config.Load
import DryKiln.Http.Units
import DryKiln.Json.Reader
import DryKiln.Storage.Basic
/-!
What a command line does with the files before any unit is reached. Only the task that runs a
program has anything left to do then.
-/

namespace DryKiln

/-- Why a task fails before any unit is reached. -/
inductive StartUpFault where
  | config (path : String) (fault : LoadFault)
  | storage (fault : StorageFault)
  | programFile (path : String) (fault : FileFault)
  | programText (fault : DocumentFault)
deriving DecidableEq, Repr

/-- The text shown to the author of a program document that cannot be used. -/
def DocumentFault.message : DocumentFault → String
  | unreadable => "not a program document"
  | regulation fault => fault.message

def StartUpFault.message : StartUpFault → String
  | config path fault =>
    "cannot load " ++ path ++ ": " ++ fault.message?.getD "not a configuration document"
  | storage fault => fault.message
  | programFile path fault => "cannot read " ++ path ++ ": " ++ fault.message
  | programText fault => fault.message

/-- What is left to do. -/
inductive StartedUp where
  /-- Nothing but to print a text. -/
  | print (text : String)
  /-- The program is to be run. -/
  | run (config : Config) (program : Program)
deriving DecidableEq, Repr

/-- Archives the runs that an earlier process left behind. -/
def sweepRuns (tree : FileTree) (config : Config) :
    FileTree × Except StorageFault (List String) :=
  let storage : Storage := ⟨config.basePath⟩
  match storage.prepare tree with
  | .error fault => (tree, .error fault)
  | .ok prepared => storage.sweep prepared

def readProgram (tree : FileTree) (path : String) : Except StartUpFault Program := do
  let text ← (tree.readText path).mapError (.programFile path)
  ((readable (Json.read? text)).bind Program.ofDocument).mapError .programText

def defaultsText (config : Config) : String := Json.text .indented config.defaults.toDocument ++ "\n"

def Task.startUp (tree : FileTree) (config : Config) :
    Task → FileTree × Except StartUpFault StartedUp
  | .defaults => (tree, .ok (.print (defaultsText config)))
  | .sweep =>
    let (swept, result) := sweepRuns tree config
    (swept, (result.map fun _ => .print "").mapError .storage)
  | .run path =>
    let (swept, result) := sweepRuns tree config
    (swept, match result with
      | .error fault => .error (.storage fault)
      | .ok _ => (readProgram swept path).map (.run config))

def Invocation.startUp (tree : FileTree) (invocation : Invocation) :
    FileTree × Except StartUpFault StartedUp :=
  match Config.load tree invocation.configPath with
  | .error fault => (tree, .error (.config invocation.configPath fault))
  | .ok config => invocation.task.startUp tree config

/-- What becomes of a process. -/
inductive Fate where
  | exits (code : UInt8) (output : String)
  /-- It goes on, and runs a program that has been filled and checked. -/
  | runs (config : Config) (program : Program)
deriving DecidableEq, Repr

/-- Carries out a command line up to the first answers of the units. -/
def process (network : Http.Network) (tree : FileTree) (arguments : List String) :
    FileTree × Fate :=
  match Invocation.ofArguments arguments with
  | .error refusal => (tree, .exits refusal.exitCode refusal.output)
  | .ok invocation =>
    match invocation.startUp tree with
    | (tree, .error _) => (tree, .exits 1 "")
    | (tree, .ok (.print text)) => (tree, .exits 0 text)
    | (tree, .ok (.run config program)) =>
      match Http.reach network config.defaults config.sensorUnit config.powerUnit program with
      | .ok ready => (tree, .runs config ready)
      | .error _ => (tree, .exits 1 "")

end DryKiln
