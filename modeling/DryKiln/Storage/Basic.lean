import DryKiln.Files.Tree
import DryKiln.Json.Writer
import DryKiln.Program.Document
import DryKiln.Run.Status
/-!
Stored runs. A run that is going on has its program, its state and its execution log in one
directory; when it is over, each of them moves to its place in the history.
-/

namespace DryKiln

inductive StorageFault where
  | runExists (run : String)
  | file (fault : FileFault)
  /-- The text of a program was refused before it was complete. -/
  | brokenText (fault : FileFault)
deriving DecidableEq, Repr

def StorageFault.kind : StorageFault → String
  | runExists _ => "AlreadyExists"
  | file _ => "Io"
  | brokenText _ => "Encode"

def StorageFault.message : StorageFault → String
  | runExists run => "run '" ++ run ++ "' already exists"
  | file fault => "storage I/O error: " ++ fault.message
  | brokenText fault => "cannot encode run record: " ++ fault.message

/-- A tree operation as a storage operation. -/
def stored {α : Type} (result : Except FileFault α) : Except StorageFault α :=
  result.mapError .file

inductive Artifact where
  | program
  | state
  | log
deriving DecidableEq, Repr

namespace Artifact

/-- The files in the order in which they are moved. -/
def all : List Artifact := [program, state, log]

def extension : Artifact → String
  | program => "json"
  | state => "txt"
  | log => "csv"

def fileName (artifact : Artifact) (run : String) : String := run ++ "." ++ artifact.extension

end Artifact

structure Storage where
  base : String
deriving DecidableEq, Repr

namespace Storage

def runningDir (storage : Storage) : String := joinPath storage.base "running"

def historyDir (storage : Storage) : String := joinPath storage.base "history"

/-- Where an artifact goes when its run is over. -/
def archiveDir (storage : Storage) : Artifact → String
  | .program => storage.historyDir
  | .state => joinPath storage.historyDir "status"
  | .log => joinPath storage.historyDir "logs"

def runningFile (storage : Storage) (artifact : Artifact) (run : String) : String :=
  joinPath storage.runningDir (artifact.fileName run)

def archiveFile (storage : Storage) (artifact : Artifact) (run : String) : String :=
  joinPath (storage.archiveDir artifact) (artifact.fileName run)

/-- Makes the directories that are missing. -/
def prepare (storage : Storage) (tree : FileTree) : Except StorageFault FileTree := do
  let tree ← stored (tree.makeDirectories storage.runningDir)
  let tree ← stored (tree.makeDirectories (storage.archiveDir .state))
  stored (tree.makeDirectories (storage.archiveDir .log))

def programText (program : Program) : String := Json.text .indented program.toDocument

/-- How many bytes of a program are gathered before the first of them is written. -/
def programBuffer : Nat := 8192

/-- What is wrong with a run whose program file has taken only so many bytes of the program. If what
is left is more than the buffer holds, then the program breaks off before it is complete. -/
def unwritten (text : String) (taken : Nat) (fault : FileFault) : StorageFault :=
  if taken + programBuffer < text.utf8ByteSize then .brokenText fault else .file fault

/-- Stores the program of a new run. If the disk does not take all of it, then its file is left with
no more than the beginning. -/
def createRun (storage : Storage) (tree : FileTree) (run : String) (program : Program) :
    Except (Unfinished StorageFault) FileTree :=
  match tree.create (storage.runningFile .program run) with
  | .error .alreadyExists => .error ⟨tree, .runExists run⟩
  | .error fault => .error ⟨tree, .file fault⟩
  | .ok (created, file) =>
    match created.write file (programText program) with
    | .error unfinished =>
      .error ⟨unfinished.left,
        unwritten (programText program) (created.takes file) unfinished.fault⟩
    | .ok (written, _) => .ok written

def updateState (storage : Storage) (tree : FileTree) (run : String) (state : RunState) :
    Except (Unfinished StorageFault) FileTree :=
  (tree.writeText (storage.runningFile .state run) state.label).mapError
    fun unfinished => ⟨unfinished.left, .file unfinished.fault⟩

/-- Opens the execution log of a run; it is empty then. -/
def openLog (storage : Storage) (tree : FileTree) (run : String) :
    Except StorageFault (FileTree × OpenFile) :=
  stored (tree.openEmpty (storage.runningFile .log run))

/-- Moves one file of a run into the history. A file that is not there is no fault. -/
def archive (storage : Storage) (tree : FileTree) (run : String) (artifact : Artifact) :
    FileTree × Option FileFault :=
  match tree.rename (storage.runningFile artifact run) (storage.archiveFile artifact run) with
  | .ok moved => (moved, none)
  | .error .notFound => (tree, none)
  | .error fault => (tree, some fault)

/-- Moves all files of a run into the history: each is tried, and the last fault is reported. -/
def moveToHistory (storage : Storage) (tree : FileTree) (run : String) :
    FileTree × Except StorageFault Unit :=
  let (tree, fault) := Artifact.all.foldl
    (fun (tree, fault) artifact =>
      let (moved, next) := storage.archive tree run artifact
      (moved, next.or fault))
    (tree, none)
  (tree, match fault with
    | some fault => .error (.file fault)
    | none => .ok ())

/-- The names of the runs that have a program file in a directory, sorted. A file that cannot be
looked at, because its path is too long, is not listed. -/
def runsIn (tree : FileTree) (directory : String) : Except StorageFault (List String) := do
  let children ← stored (tree.list directory)
  let names := children.filterMap fun (name, entry) =>
    match entry, splitExtension name with
    | .file _ _, (stem, some extension) =>
      if extension = Artifact.program.extension ∧
          FileTree.badText (joinPath directory name) = none then some stem
      else none
    | _, _ => none
  return names.mergeSort fun a b => a ≤ b

def listRunning (storage : Storage) (tree : FileTree) : Except StorageFault (List String) :=
  runsIn tree storage.runningDir

/-- The stored state of a run in the history, if it has one. -/
def archivedState? (storage : Storage) (tree : FileTree) (run : String) : Option RunState :=
  match tree.readText (storage.archiveFile .state run) with
  | .ok text => some (.ofText text)
  | .error _ => none

/-- The runs that are over, with their states, if those are known. -/
def listHistory (storage : Storage) (tree : FileTree) :
    Except StorageFault (List (String × Option RunState)) := do
  let runs ← runsIn tree storage.historyDir
  return runs.map fun run => (run, storage.archivedState? tree run)

/-- Cancels and archives the given runs, up to the first that cannot be archived. A run whose state
cannot be stored is archived all the same. -/
def cancelAll (storage : Storage) (tree : FileTree) :
    List String → FileTree × Except StorageFault Unit
  | [] => (tree, .ok ())
  | run :: runs =>
    let marked := FileTree.after (storage.updateState tree run .canceled)
    match storage.moveToHistory marked run with
    | (moved, .ok ()) => cancelAll storage moved runs
    | (moved, .error fault) => (moved, .error fault)

/-- Cancels the runs that an earlier process left behind, and moves them into the history. -/
def sweep (storage : Storage) (tree : FileTree) : FileTree × Except StorageFault (List String) :=
  match storage.listRunning tree with
  | .error fault => (tree, .error fault)
  | .ok runs =>
    let (swept, result) := storage.cancelAll tree runs
    (swept, result.map fun _ => runs)

end Storage
end DryKiln
