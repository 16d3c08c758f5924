import DryKiln.Files.Path
/-!
A tree of files, and what can be done with it: making directories, creating, writing, reading,
renaming and listing files. Each operation either does what it is asked or says why not; then the
tree is as it was, unless the answer has a tree of its own.
-/

namespace DryKiln

/-- Why an operation on files fails. -/
inductive FileFault where
  | notFound
  | permissionDenied
  | alreadyExists
  | notDirectory
  | isDirectory
  | invalidArgument
  | storageFull
  | nameTooLong
  | notEmpty
  | nulInName
  | notText
deriving DecidableEq, Repr

/-- The text of the operating system. -/
def FileFault.message : FileFault → String
  | notFound => "No such file or directory (os error 2)"
  | permissionDenied => "Permission denied (os error 13)"
  | alreadyExists => "File exists (os error 17)"
  | notDirectory => "Not a directory (os error 20)"
  | isDirectory => "Is a directory (os error 21)"
  | invalidArgument => "Invalid argument (os error 22)"
  | storageFull => "No space left on device (os error 28)"
  | nameTooLong => "File name too long (os error 36)"
  | notEmpty => "Directory not empty (os error 39)"
  | nulInName => "file name contained an unexpected NUL byte"
  | notText => "stream did not contain valid UTF-8"

/-- What a file holds: a text, or bytes that are none. -/
inductive Contents where
  | text (value : String)
  | bytes (raw : List UInt8)
deriving DecidableEq, Repr

namespace Contents

/-- The contents with these bytes. -/
def ofBytes (raw : List UInt8) : Contents :=
  match String.fromUTF8? ⟨raw.toArray⟩ with
  | some value => text value
  | none => bytes raw

/-- The bytes. -/
def toBytes : Contents → List UInt8
  | text value => value.toUTF8.toList
  | bytes raw => raw

/-- Writes bytes over the contents from a position on. A gap before them is filled with zeros. -/
def overwriteBytes (position : Nat) (added : List UInt8) (contents : Contents) : Contents :=
  if added = [] then contents
  else
    let raw := contents.toBytes
    ofBytes (raw.take position ++ List.replicate (position - raw.length) 0 ++ added ++
      raw.drop (position + added.length))

/-- Writes a text over the contents from a position on. -/
def overwrite (position : Nat) (s : String) (contents : Contents) : Contents :=
  let whole := contents.overwriteBytes position s.toUTF8.toList
  match contents with
  | text value => if value.utf8ByteSize = position then text (value ++ s) else whole
  | bytes _ => whole

end Contents

/-- What a path names. A file keeps its identity when it is renamed. -/
inductive Entry where
  | directory
  | file (id : Nat) (contents : Contents)
deriving DecidableEq, Repr

/-- A tree of files. The root directory is always there and not among the entries. -/
structure FileTree where
  entries : List (Path × Entry)
  /-- The identity of the next new file. -/
  nextId : Nat
  /-- The files that may not be opened for writing. -/
  locked : List Nat := []
  /-- The files for which the disk does not take all of a text, those that are not there yet
  included. -/
  full : List Nat := []
  /-- How many bytes of a text the disk takes for such a file: none, if it is not listed here. -/
  taken : List (Nat × Nat) := []
deriving DecidableEq, Repr

/-- A file that has been opened for writing, and where the next write goes. -/
structure OpenFile where
  id : Nat
  position : Nat
deriving DecidableEq, Repr

/-- A fault, and the tree with what had been done before it. -/
structure Unfinished (ε : Type) where
  left : FileTree
  fault : ε
deriving DecidableEq, Repr

namespace FileTree

/-- A tree with nothing but its root. -/
def empty : FileTree := { entries := [], nextId := 0 }

/-- The tree after an operation, whether it has had a fault or not. -/
def after {ε : Type} : Except (Unfinished ε) FileTree → FileTree
  | .ok tree => tree
  | .error unfinished => unfinished.left

/-- What a path names, if anything. -/
def get? (tree : FileTree) (path : Path) : Option Entry :=
  if path = [] then some .directory else tree.entries.lookup path

/-- The tree with an entry at a path, whatever was there. -/
def put (tree : FileTree) (path : Path) (entry : Entry) : FileTree :=
  { tree with entries := (path, entry) :: tree.entries.filter fun e => e.1 != path }

/-- The tree without a path and all below it. -/
def erase (tree : FileTree) (path : Path) : FileTree :=
  { tree with entries := tree.entries.filter fun e => !path.isPrefixOf e.1 }

/-- What lies directly in a directory: names and entries. -/
def children (tree : FileTree) (path : Path) : List (String × Entry) :=
  tree.entries.filterMap fun e =>
    match e.1.reverse with
    | name :: up => if up.reverse = path then some (name, e.2) else none
    | [] => none

/-- A name that the file system cannot hold. -/
def tooLong (name : String) : Bool := 255 < name.utf8ByteSize

/-- Goes along names, all of which must be directories. -/
def walk (tree : FileTree) (from_ : Path) : List String → Except FileFault Path
  | [] => .ok from_
  | name :: names =>
    if name = "" ∨ name = "." then walk tree from_ names
    else if name = ".." then walk tree from_.dropLast names
    else if tooLong name then .error .nameTooLong
    else
      match tree.get? (from_ ++ [name]) with
      | none => .error .notFound
      | some (.file _ _) => .error .notDirectory
      | some .directory => walk tree (from_ ++ [name]) names

/-- A name that only leads to a directory. -/
def isDots (name : String) : Bool := name = "" || name = "." || name = ".."

/-- A path text that no operation accepts. -/
def badText (path : String) : Option FileFault :=
  if path.toList.contains '\x00' then some .nulInName
  else if path = "" then some .notFound
  else if 4095 < path.utf8ByteSize then some .nameTooLong
  else none

/-- The place of a row of names; what is at its end need not be there. -/
def placeOf (tree : FileTree) (names : List String) : Except FileFault Path :=
  match names.getLast? with
  | none => .ok []
  | some last =>
    if isDots last then tree.walk [] names
    else do
      let directory ← tree.walk [] names.dropLast
      if tooLong last then throw .nameTooLong
      return directory ++ [last]

/-- The place of a path text; what is at its end need not be there. -/
def resolve (tree : FileTree) (path : String) : Except FileFault Path :=
  match badText path with
  | some fault => .error fault
  | none => tree.placeOf (pathNames path)

/-- A path text names a directory. -/
def isDirectory (tree : FileTree) (path : String) : Bool :=
  match tree.resolve path with
  | .ok place => tree.get? place == some .directory
  | .error _ => false

/-- Makes one directory, whose parent must be there. -/
def makeDirectory (tree : FileTree) (names : List String) : Except FileFault FileTree := do
  let place ← tree.placeOf names
  match tree.get? place with
  | some _ => throw .alreadyExists
  | none => return tree.put place .directory

/-- The names lead to a directory. -/
def hasDirectory (tree : FileTree) (names : List String) : Bool :=
  match tree.placeOf names with
  | .ok place => tree.get? place == some .directory
  | .error _ => false

/-- Makes a directory of names in reverse and all that are missing above it. -/
def makeAll (tree : FileTree) : List String → Except FileFault FileTree
  | [] => .ok tree
  | name :: up =>
    let names := (name :: up).reverse
    match tree.makeDirectory names with
    | .ok made => .ok made
    | .error .notFound => do
      let above ← tree.makeAll up
      match above.makeDirectory names with
      | .ok made => return made
      | .error fault => if above.hasDirectory names then return above else throw fault
    | .error fault => if tree.hasDirectory names then .ok tree else .error fault

/-- Makes a directory and all that are missing above it. -/
def makeDirectories (tree : FileTree) (path : String) : Except FileFault FileTree :=
  match badText path with
  | some .nulInName => .error .nulInName
  | some .nameTooLong => .error .nameTooLong
  | _ => tree.makeAll ((pathNames path).filter fun name => name != "" && name != ".").reverse

/-- Puts a new file with contents at a place. -/
def addFile (tree : FileTree) (place : Path) (contents : Contents) : FileTree × OpenFile :=
  ({ tree.put place (.file tree.nextId contents) with nextId := tree.nextId + 1 },
    ⟨tree.nextId, 0⟩)

/-- Creates an empty file that must not be there yet. -/
def create (tree : FileTree) (path : String) : Except FileFault (FileTree × OpenFile) := do
  let place ← tree.resolve path
  match tree.get? place with
  | some _ => throw .alreadyExists
  | none => return tree.addFile place (.text "")

/-- Opens a file that is emptied, or created if it is not there. -/
def openEmpty (tree : FileTree) (path : String) : Except FileFault (FileTree × OpenFile) := do
  let place ← tree.resolve path
  match tree.get? place with
  | some .directory => throw .isDirectory
  | some (.file id _) =>
    if id ∈ tree.locked then throw .permissionDenied
    else return (tree.put place (.file id (.text "")), ⟨id, 0⟩)
  | none => return tree.addFile place (.text "")

/-- The tree with the contents of a file changed, wherever it is. If the file has been removed,
nothing can be seen of it. -/
def alter (tree : FileTree) (id : Nat) (change : Contents → Contents) : FileTree :=
  { tree with
    entries := tree.entries.map fun e =>
      match e.2 with
      | .file other contents => if other = id then (e.1, .file other (change contents)) else e
      | .directory => e }

/-- The tree when a text has been written to an open file. -/
def overwrite (tree : FileTree) (file : OpenFile) (s : String) : FileTree × OpenFile :=
  (tree.alter file.id (·.overwrite file.position s),
    { file with position := file.position + s.utf8ByteSize })

/-- How many bytes of a text the disk takes for an open file that it does not take all of. -/
def takes (tree : FileTree) (file : OpenFile) : Nat := (tree.taken.lookup file.id).getD 0

/-- The tree when only the beginning of a text has been written to an open file. -/
def cut (tree : FileTree) (file : OpenFile) (s : String) : FileTree × OpenFile :=
  let added := s.toUTF8.toList.take (tree.takes file)
  (tree.alter file.id (·.overwriteBytes file.position added),
    { file with position := file.position + added.length })

/-- The disk takes what is written to an open file. -/
def hasRoom (tree : FileTree) (file : OpenFile) : Bool := !tree.full.contains file.id

/-- Writes to an open file. -/
def write (tree : FileTree) (file : OpenFile) (s : String) :
    Except (Unfinished FileFault) (FileTree × OpenFile) :=
  if tree.hasRoom file then .ok (tree.overwrite file s)
  else .error ⟨(tree.cut file s).1, .storageFull⟩

/-- Writes to an open file, and passes a fault over. -/
def tryWrite (tree : FileTree) (file : OpenFile) (s : String) : FileTree × OpenFile :=
  if tree.hasRoom file then tree.overwrite file s else tree.cut file s

/-- Gives a file a new text, and creates it if it is not there. If the disk does not take all of the
text, then the file holds no more than its beginning. -/
def writeText (tree : FileTree) (path s : String) : Except (Unfinished FileFault) FileTree :=
  match tree.openEmpty path with
  | .error fault => .error ⟨tree, fault⟩
  | .ok (opened, file) => (opened.write file s).map Prod.fst

/-- The text of a file. -/
def readText (tree : FileTree) (path : String) : Except FileFault String := do
  let place ← tree.resolve path
  match tree.get? place with
  | none => throw .notFound
  | some .directory => throw .isDirectory
  | some (.file _ (.text s)) => return s
  | some (.file _ (.bytes _)) => throw .notText

/-- The names and entries in a directory. -/
def list (tree : FileTree) (path : String) : Except FileFault (List (String × Entry)) := do
  let place ← tree.resolve path
  match tree.get? place with
  | none => throw .notFound
  | some (.file _ _) => throw .notDirectory
  | some .directory => return tree.children place

/-- Moves a place and all below it to another place, which is free. -/
def moveAll (tree : FileTree) (source target : Path) : FileTree :=
  { tree with
    entries := tree.entries.map fun e =>
      if source.isPrefixOf e.1 then (target ++ e.1.drop source.length, e.2) else e }

/-- Renames a file or a directory. What is at the new name is replaced, if it is of the same kind
and not a directory that holds something. -/
def rename (tree : FileTree) (oldPath newPath : String) : Except FileFault FileTree := do
  if let some fault := badText oldPath then throw fault
  if let some fault := badText newPath then throw fault
  let oldNames := pathNames oldPath
  let newNames := pathNames newPath
  let oldParent ← tree.walk [] oldNames.dropLast
  let newParent ← tree.walk [] newNames.dropLast
  let oldName := oldNames.getLastD ""
  let newName := newNames.getLastD ""
  if isDots oldName || isDots newName then throw .invalidArgument
  if tooLong oldName then throw .nameTooLong
  let source := oldParent ++ [oldName]
  match tree.get? source with
  | none => throw .notFound
  | some moved =>
    if tooLong newName then throw .nameTooLong
    let target := newParent ++ [newName]
    if source = target then return tree
    if source.isPrefixOf target then throw .invalidArgument
    match moved, tree.get? target with
    | _, none => return tree.moveAll source target
    | .file _ _, some (.file _ _) => return (tree.erase target).moveAll source target
    | .file _ _, some .directory => throw .isDirectory
    | .directory, some (.file _ _) => throw .notDirectory
    | .directory, some .directory =>
      if tree.children target = [] then return (tree.erase target).moveAll source target
      else throw .notEmpty

/-- Removes a file, or a directory with all it holds. -/
def remove (tree : FileTree) (path : String) : Except FileFault FileTree := do
  let place ← tree.resolve path
  match tree.get? place with
  | none => throw .notFound
  | some _ => return tree.erase place

/-- Puts a file where it is wanted, with the directories above it; a path that ends in a slash
makes a directory. -/
def plant (tree : FileTree) (path : String) (contents : Contents) : Except FileFault FileTree := do
  let names := pathNames path
  if names.getLast? = some "" then tree.makeDirectories path
  else
    let above ← tree.makeAll (names.dropLast.filter fun name => name != "" && name != ".").reverse
    let (opened, file) ← above.openEmpty path
    return opened.alter file.id fun _ => contents

/-- The regular files below a directory: their paths from there and what they hold. -/
def filesBelow (tree : FileTree) (directory : Path) : List (Path × Contents) :=
  tree.entries.filterMap fun e =>
    match e.2 with
    | .file _ contents =>
      if directory.isPrefixOf e.1 then some (e.1.drop directory.length, contents) else none
    | .directory => none

end FileTree
end DryKiln
