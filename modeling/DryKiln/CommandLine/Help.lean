import DryKiln.Config.Basic
/-!
What is printed when somebody asks how the program is used, or which one it is.
-/

namespace DryKiln

/-- What help can be asked about. -/
inductive HelpTopic where
  | program
  | run
  | sweep
  | defaults
  | help
deriving DecidableEq, Repr

namespace HelpTopic

/-- The words that name a task, or ask for help. -/
def named : List (String × HelpTopic) :=
  [("run", run), ("sweep", sweep), ("defaults", defaults), ("help", help)]

/-- What it is for, in one line. -/
def summary : HelpTopic → String
  | program => "Executes kiln drying programs"
  | run => "Run a program (JSON) to completion; Ctrl+C cancels it"
  | sweep => "Move runs left over from a previous process to history as canceled"
  | defaults => "Print the configured program defaults as JSON"
  | help => "Print this message or the help of the given subcommand(s)"

def programName : String := "halko_control_unit"

/-- The arguments, as a row. -/
def usage : HelpTopic → String
  | program => programName ++ " [OPTIONS] <COMMAND>"
  | run => programName ++ " run <PROGRAM>"
  | sweep => programName ++ " sweep"
  | defaults => programName ++ " defaults"
  | help => programName ++ " help [COMMAND]..."

/-- A row of a table with two columns; the first is so many characters wide. -/
def row (width : Nat) (name meaning : String) : String :=
  "  " ++ name ++ String.ofList (List.replicate (width - name.length) ' ') ++ "  " ++ meaning

/-- The only option of a task. -/
def helpOption : List String := ["", "Options:", row 10 "-h, --help" "Print help"]

/-- What is told about the arguments, line by line. -/
def details : HelpTopic → List String
  | program =>
    ["", "Commands:"] ++ named.map (fun (name, topic) => row 8 name topic.summary) ++
    ["", "Options:",
      row 21 "-c, --config <CONFIG>"
        ("Path to the configuration TOML [default: " ++ standardConfigPath ++ "]"),
      row 21 "-v, --verbose" "Enable verbose logging (DEBUG level)",
      row 21 "    --json" "Output logs in JSON format",
      row 21 "-h, --help" "Print help",
      row 21 "-V, --version" "Print version"]
  | run => ["", "Arguments:", row 9 "<PROGRAM>" ""] ++ helpOption
  | sweep => helpOption
  | defaults => helpOption
  | help => ["", "Arguments:", row 12 "[COMMAND]..." "Print help for the subcommand(s)"]

def text (topic : HelpTopic) : String :=
  String.join (([topic.summary, "", "Usage: " ++ topic.usage] ++ topic.details).map (· ++ "\n"))

end HelpTopic

def versionText : String := HelpTopic.programName ++ " 0.1.0\n"

end DryKiln
