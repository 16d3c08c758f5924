import DryKiln.Document.Basic
/-!
The tables of a TOML document while it is being read. A table may be opened by a header once, and
by dotted keys only where no header has opened it.
-/

namespace DryKiln
namespace Toml

/-- How a table came to be. -/
inductive Origin where
  /-- A header names a table below it. -/
  | implied
  /-- A key with dots goes through it. -/
  | dotted
  /-- A header names it. -/
  | declared
deriving DecidableEq, Repr

/-- A value in a table that is still open. -/
inductive Node where
  /-- A value that nothing can be added to. -/
  | leaf (value : Document)
  | table (origin : Origin) (fields : List (String × Node))
  /-- The tables of a list, the latest first. -/
  | tables (items : List (List (String × Node)))

abbrev Fields := List (String × Node)

/-- The table with one field replaced or added at the end. -/
def setField (key : String) (value : Node) : Fields → Fields
  | [] => [(key, value)]
  | field :: fields =>
    if field.1 = key then (key, value) :: fields else field :: setField key value fields

/-- Changes the table at the end of a path; tables on the way are made if they are missing. -/
def change (made : Origin) (edit : Origin → Fields → Option Fields) (origin : Origin)
    (fields : Fields) : List String → Option Fields
  | [] => edit origin fields
  | key :: path =>
    match fields.lookup key with
    | none => do
      let inner ← change made edit made [] path
      return setField key (.table made inner) fields
    | some (.table inside inner) =>
      if made = .dotted ∧ inside = .declared then none
      else do
        let inner ← change made edit inside inner path
        return setField key (.table inside inner) fields
    | some (.tables (latest :: earlier)) => do
      let latest ← change made edit .declared latest path
      return setField key (.tables (latest :: earlier)) fields
    | some _ => none

/-- Adds a field to the table at the end of a dotted path. A table takes either plain keys or
dotted ones. -/
def assign (path : List String) (key : String) (value : Document) (origin : Origin)
    (fields : Fields) : Option Fields :=
  change .dotted
    (fun origin fields =>
      if (origin == .dotted) == path.isEmpty then none
      else
        match fields.lookup key with
        | some _ => none
        | none => some (setField key (.leaf value) fields))
    origin fields path

def declare (path : List String) (key : String) (fields : Fields) : Option Fields :=
  change .implied
    (fun _ fields =>
      match fields.lookup key with
      | none => some (setField key (.table .declared []) fields)
      | some (.table .implied inner) => some (setField key (.table .declared inner) fields)
      | some _ => none)
    .declared fields path

/-- Opens a further table of a list by its header. -/
def declareItem (path : List String) (key : String) (fields : Fields) : Option Fields :=
  change .implied
    (fun _ fields =>
      match fields.lookup key with
      | none => some (setField key (.tables [[]]) fields)
      | some (.tables items) => some (setField key (.tables ([] :: items)) fields)
      | some _ => none)
    .declared fields path

/-- Adds a field below the table that a header has opened. -/
def assignBelow (header path : List String) (key : String) (value : Document) (fields : Fields) :
    Option Fields :=
  change .implied (assign path key value) .declared fields header

mutual

def Node.toDocument : Node → Document
  | .leaf value => value
  | .table _ fields => .record (fieldsToDocument fields)
  | .tables items => .list (itemsToDocument items).reverse

def fieldsToDocument : List (String × Node) → List (String × Document)
  | [] => []
  | (key, value) :: fields => (key, value.toDocument) :: fieldsToDocument fields

def itemsToDocument : List (List (String × Node)) → List Document
  | [] => []
  | fields :: items => .record (fieldsToDocument fields) :: itemsToDocument items

end

end Toml
end DryKiln
