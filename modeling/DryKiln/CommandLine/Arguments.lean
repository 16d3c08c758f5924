import DryKiln.CommandLine.Help
/-!
The arguments of the command line. Options come before the task; every option may be given once.
-/

namespace DryKiln

/-- What the program is asked to do. -/
inductive Task where
  | run (path : String)
  /-- Archive the runs that an earlier process left behind. -/
  | sweep
  | defaults
deriving DecidableEq, Repr

/-- A command line that makes sense. -/
structure Invocation where
  configPath : String
  verbose : Bool
  json : Bool
  task : Task
deriving DecidableEq, Repr

/-- Why a command line is not carried out. -/
inductive Refusal where
  | help (topic : HelpTopic)
  | version
  | misuse
deriving DecidableEq, Repr

def Refusal.exitCode : Refusal → UInt8
  | misuse => 2
  | _ => 0

def Refusal.output : Refusal → String
  | help topic => topic.text
  | version => versionText
  | misuse => ""

structure GivenOptions where
  configPath : Option String
  /-- A path that was an argument of its own. It is looked at when the next option comes, or after
  the task has been read. -/
  heldPath : Option String
  verbose : Bool
  json : Bool
deriving DecidableEq, Repr

namespace GivenOptions

def none : GivenOptions := ⟨Option.none, Option.none, false, false⟩

/-- Looks at a path of the configuration; it may neither be empty nor given twice. -/
def admitPath (given : GivenOptions) (path : String) : Except Refusal GivenOptions :=
  if path = "" ∨ given.configPath.isSome then throw .misuse
  else return { given with configPath := some path }

/-- Looks at the path that has been held back. -/
def settle (given : GivenOptions) : Except Refusal GivenOptions :=
  match given.heldPath with
  | Option.none => return given
  | some path => admitPath { given with heldPath := Option.none } path

def takeConfig (given : GivenOptions) (path : String) : Except Refusal GivenOptions := do
  (← given.settle).admitPath path

def takeVerbose (given : GivenOptions) : Except Refusal GivenOptions := do
  let given ← given.settle
  if given.verbose then throw .misuse else return { given with verbose := true }

def takeJson (given : GivenOptions) : Except Refusal GivenOptions := do
  let given ← given.settle
  if given.json then throw .misuse else return { given with json := true }

/-- Ends the reading, unless a path that was held back is wrong. -/
def refuse {α : Type} (given : GivenOptions) (refusal : Refusal) : Except Refusal α := do
  let _ ← given.settle
  throw refusal

end GivenOptions

inductive ArgumentShape where
  | word
  /-- Two dashes: only words follow. -/
  | escape
  /-- Two dashes and a name, and a value behind an equals sign. -/
  | long (name : String) (value : Option String)
  /-- A dash and letters. -/
  | short (letters : List Char)
deriving DecidableEq, Repr

def ArgumentShape.of (argument : String) : ArgumentShape :=
  match argument.toList with
  | ['-', '-'] => .escape
  | '-' :: '-' :: rest =>
    let name := rest.takeWhile (· != '=')
    match rest.dropWhile (· != '=') with
    | [] => .long (String.ofList name) none
    | _ :: value => .long (String.ofList name) (some (String.ofList value))
  | ['-'] => .word
  | '-' :: letters => .short letters
  | _ => .word

/-- What a row of option letters comes to: it may ask for the path of the configuration, which is
then the next argument. -/
inductive LettersRead where
  | done (given : GivenOptions)
  | configDue (given : GivenOptions)

/-- Reads a row of option letters. The rest of the row behind the letter of the configuration is its
path. -/
def readLetters (given : GivenOptions) : List Char → Except Refusal LettersRead
  | [] => return .done given
  | 'v' :: rest => do readLetters (← given.takeVerbose) rest
  | 'h' :: _ => given.refuse (.help .program)
  | 'V' :: _ => given.refuse .version
  | ['c'] => return .configDue (← given.settle)
  | 'c' :: '=' :: rest => return .done (← given.takeConfig (String.ofList rest))
  | 'c' :: rest => return .done (← given.takeConfig (String.ofList rest))
  | _ => throw .misuse

/-- The words of a task, at most so many; help may be asked for among them. -/
def taskWords (topic : HelpTopic) (most : Nat) : List String → Except Refusal (List String)
  | [] => return []
  | argument :: rest =>
    match ArgumentShape.of argument with
    | .escape => if most < rest.length ∨ rest.contains "" then throw .misuse else return rest
    | .long "help" none => throw (.help topic)
    | .short ('h' :: _) => throw (.help topic)
    | .word =>
      match most with
      | 0 => throw .misuse
      | most + 1 =>
        if argument = "" then throw .misuse
        else (argument :: ·) <$> taskWords topic most rest
    | _ => throw .misuse

/-- The arguments behind the word that asks for help: at most one word that has help. -/
def helpOn : List String → Refusal
  | [] => .help .program
  | [word] =>
    match HelpTopic.named.lookup word with
    | some topic => .help topic
    | none => .misuse
  | _ => .misuse

/-- The task that a word names, with the arguments behind it; nothing if it names none. -/
def readTask? (name : String) (rest : List String) : Option (Except Refusal Task) :=
  if name = "run" then some do
    match ← taskWords .run 1 rest with
    | [path] => return .run path
    | _ => throw .misuse
  else if name = "sweep" then some ((taskWords .sweep 0 rest).map fun _ => .sweep)
  else if name = "defaults" then some ((taskWords .defaults 0 rest).map fun _ => .defaults)
  else if name = "help" then some (throw (helpOn rest))
  else none

/-- The path of the configuration as an argument of its own; it may not look like an option. -/
def configArgument (argument : String) : Except Refusal String :=
  match ArgumentShape.of argument with
  | .word => return argument
  | _ => throw .misuse

def readArguments (given : GivenOptions) : List String → Except Refusal Invocation
  | [] => throw .misuse
  | argument :: rest =>
    match ArgumentShape.of argument with
    | .word =>
      match readTask? argument rest with
      | some task => do
        let task ← task
        let given ← given.settle
        return ⟨given.configPath.getD standardConfigPath, given.verbose, given.json, task⟩
      | none => throw .misuse
    | .escape => throw .misuse
    | .long "config" (some path) => do readArguments (← given.takeConfig path) rest
    | .long "config" none =>
      match rest with
      | [] => throw .misuse
      | path :: rest => do
        let given ← given.settle
        readArguments { given with heldPath := some (← configArgument path) } rest
    | .long "verbose" none => do readArguments (← given.takeVerbose) rest
    | .long "json" none => do readArguments (← given.takeJson) rest
    | .long "help" none => given.refuse (.help .program)
    | .long "version" none => given.refuse .version
    | .long _ _ => throw .misuse
    | .short letters =>
      match readLetters given letters with
      | .error refusal => throw refusal
      | .ok (.done given) => readArguments given rest
      | .ok (.configDue given) =>
        match rest with
        | [] => throw .misuse
        | path :: rest => do
          readArguments { given with heldPath := some (← configArgument path) } rest

def Invocation.ofArguments (arguments : List String) : Except Refusal Invocation :=
  readArguments .none arguments

end DryKiln
