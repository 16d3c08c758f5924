/-!
Names of files: paths as texts, and the names along them.
-/

namespace DryKiln

/-- The names from the root down to a file. -/
abbrev Path := List String

/-- The pieces between slashes; there is one more than there are slashes. -/
def splitSlash : List Char → List (List Char)
  | [] => [[]]
  | c :: cs =>
    match splitSlash cs with
    | [] => [[c]]
    | piece :: pieces => if c = '/' then [] :: piece :: pieces else (c :: piece) :: pieces

/-- The names of a path text, empty ones and dots included. -/
def pathNames (path : String) : List String := (splitSlash path.toList).map String.ofList

/-- A path below another. A path that starts with a slash stays what it is. -/
def joinPath (base path : String) : String :=
  match path.toList with
  | '/' :: _ => path
  | _ =>
    if base = "" || base.toList.getLast? = some '/' then base ++ path else base ++ "/" ++ path

/-- The parts of a file name before and behind its last dot. A dot in front does not count. -/
def splitExtension (name : String) : String × Option String :=
  let reversed := name.toList.reverse
  let extension := reversed.takeWhile (· != '.')
  match reversed.dropWhile (· != '.') with
  | [] => (name, none)
  | _ :: stem =>
    if stem = [] || name = ".." then (name, none)
    else (String.ofList stem.reverse, some (String.ofList extension.reverse))

end DryKiln
