import DryKiln.Config.Basic
import DryKiln.Files.Tree
import DryKiln.Toml.Reader
/-!
Loading the configuration from a TOML text or from a file with one.
-/

namespace DryKiln

inductive LoadFault where
  | fileNotFound (path : String)
  | fileNotRead (path : String) (fault : FileFault)
  | unreadable
  | invalid (fault : ConfigFault)
deriving DecidableEq, Repr

def LoadFault.kind : LoadFault → String
  | fileNotFound _ => "FileNotFound"
  | fileNotRead _ _ => "ParseError"
  | unreadable => "ParseError"
  | invalid _ => "ValidationError"

/-- The text shown to the operator; nothing if it is that of the reader of the text. -/
def LoadFault.message? : LoadFault → Option String
  | fileNotFound path => some ("configuration file " ++ path ++ " does not exist")
  | fileNotRead path fault =>
    some ("cannot parse configuration: " ++ path ++ ": " ++ fault.message)
  | unreadable => none
  | invalid fault => some ("invalid configuration: " ++ fault.message)

namespace Config

/-- A configuration that has been read, checked. -/
def checked (format : Format) (d : Document) : Except LoadFault Config :=
  match ofDocument? format d with
  | none => .error .unreadable
  | some config => (config.check.mapError .invalid).map fun _ => config

def ofToml (text : String) : Except LoadFault Config :=
  match Toml.read? text with
  | none => .error .unreadable
  | some d => checked .toml d

def load (tree : FileTree) (path : String) : Except LoadFault Config :=
  match tree.readText path with
  | .error .notFound => .error (.fileNotFound path)
  | .error fault => .error (.fileNotRead path fault)
  | .ok text => ofToml text

end Config
end DryKiln
