import DryKiln.Files.Tree
/-!
Files of the machine: reading them into a tree, and carrying what has become of the tree back.
-/

namespace DryKiln
namespace Disk

def absolute (path : String) : IO String := do
  return joinPath (toString (← IO.currentDir)) path

/-- The path text of a place. -/
def placeText (place : Path) : String := "/" ++ String.intercalate "/" place

/-- Puts a directory with those above it into a tree. -/
def plantDirectory (tree : FileTree) (path : String) : FileTree :=
  (tree.makeDirectories path).toOption.getD tree

/-- Puts a file or directory of the machine into a tree, and what is in it. What is not there is left
out. -/
partial def load (tree : FileTree) (path : String) : IO FileTree := do
  match ← ((← IO.currentDir) / path).readDir.toBaseIO with
  | .ok children =>
    let mut tree := plantDirectory tree path
    for child in children do
      tree ← load tree (joinPath path child.fileName)
    return tree
  | .error _ =>
    match ← (IO.FS.readBinFile path).toBaseIO with
    | .ok bytes => return (tree.plant path (.ofBytes bytes.toList)).toOption.getD tree
    | .error _ => return tree

/-- The files of a tree with their places. -/
def files (tree : FileTree) : List (Nat × Path × Contents) :=
  tree.entries.filterMap fun (place, entry) =>
    match entry with
    | .file id contents => some (id, place, contents)
    | .directory => none

/-- Writes contents to a file; what is only added is written behind what is there. -/
def writeContents (path : String) (old : Option Contents) (new : Contents) : IO Unit := do
  match old, new with
  | some (.text before), .text after =>
    if before.isPrefixOf after then
      let handle ← IO.FS.Handle.mk path .append
      handle.putStr (after.drop before.length).toString
    else IO.FS.writeFile path after
  | _, _ => IO.FS.writeBinFile path ⟨new.toBytes.toArray⟩

/-- Does to the machine what has been done to a tree. -/
def store (before after : FileTree) : IO Unit := do
  for (place, entry) in after.entries.reverse do
    if entry = .directory && (before.get? place).isNone then
      IO.FS.createDirAll (placeText place)
  let known := files before
  for (id, place, _) in files after do
    match known.lookup id with
    | some (old, _) => if old ≠ place then IO.FS.rename (placeText old) (placeText place)
    | none => pure ()
  for (id, place, contents) in files after do
    let old := (known.lookup id).map Prod.snd
    if old ≠ some contents then writeContents (placeText place) old contents
  for (id, place, _) in known do
    if ((files after).lookup id).isNone && (after.get? place).isNone then
      IO.FS.removeFile (placeText place)

end Disk
end DryKiln
