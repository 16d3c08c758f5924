import DryKiln.Document.Basic
/-!
Reading values out of documents. A record may be written with its field names or as the list of
its fields in order; a field nobody knows is skipped, a known one may not come twice.
-/

namespace DryKiln
namespace Document

/-- A text. -/
def text? : Document → Option String
  | .text s => some s
  | _ => none

/-- A number of the controller: a temperature, a gain or a band. -/
def binary32? : Document → Option Float32
  | .number n => n.toBinary32?
  | _ => none

/-- A whole number between two bounds. -/
def whole? (low high : Int) : Document → Option Int
  | .number (.whole n) => if low ≤ n ∧ n ≤ high then some n else none
  | _ => none

/-- A percentage as it fits one byte. -/
def percent? (d : Document) : Option UInt8 := (d.whole? 0 255).map fun n => UInt8.ofNat n.toNat

/-- A duration in seconds or milliseconds: an unsigned machine word. -/
def duration? (d : Document) : Option UInt64 :=
  (d.whole? 0 (UInt64.size - 1)).map fun n => UInt64.ofNat n.toNat

/-- A point in time or a signed duration: a signed machine word. -/
def instant? (d : Document) : Option Int := d.whole? Int64.minValue.toInt Int64.maxValue.toInt

/-- The label of a choice: a text, or a record with the label as its only key and nothing as its
value. -/
def label? : Document → Option String
  | .text s => some s
  | .record [(s, .null)] => some s
  | _ => none

/-- The items of a list. -/
def items? : Document → Option (List Document)
  | .list items => some items
  | _ => none

/-- The fields of a record with free keys. -/
def entries? : Document → Option (List (String × Document))
  | .record fields => some fields
  | _ => none

/-- A field of a record. -/
structure Field where
  name : String
  /-- The list form may end before this field. -/
  mayTrail : Bool := false
deriving Repr

/-- The value given for a field: none, one, or a failure if it is given twice. -/
def single? (name : String) (fields : List (String × Document)) : Option (Option Document) :=
  match fields.filter fun field => field.1 == name with
  | [] => some none
  | [field] => some (some field.2)
  | _ => none

/-- The fields of a list form, in order. -/
def positional? : List Field → List Document → Option (List (Option Document))
  | [], [] => some []
  | [], _ :: _ => none
  | field :: fields, [] => if field.mayTrail then (none :: ·) <$> positional? fields [] else none
  | _ :: fields, item :: items => (some item :: ·) <$> positional? fields items

/-- One slot for each field: what the document gives for it, if anything. -/
def slots? (fields : List Field) : Document → Option (List (Option Document))
  | .record given => fields.mapM fun field => single? field.name given
  | .list items => positional? fields items
  | _ => none

/-- A field that has to be there. -/
def required? {α : Type} (read : Document → Option α) : Option Document → Option α
  | none => none
  | some d => read d

/-- A field that may be missing or null. -/
def optional? {α : Type} (read : Document → Option α) : Option Document → Option (Option α)
  | none => some none
  | some .null => some none
  | some d => some <$> read d

/-- A field with a default; null is not the default. -/
def defaulted? {α : Type} (absent : α) (read : Document → Option α) : Option Document → Option α
  | none => some absent
  | some d => read d

/-- Puts an entry into entries sorted by key; it takes the place of one with the same key. -/
def putEntry {α : Type} (key : String) (value : α) : List (String × α) → List (String × α)
  | [] => [(key, value)]
  | entry :: rest =>
    if key < entry.1 then (key, value) :: entry :: rest
    else if key = entry.1 then (key, value) :: rest
    else entry :: putEntry key value rest

/-- The entries of a record with free keys, sorted by key; of several with one key the last
counts. -/
def dictionary? {α : Type} (read : Document → Option α) (d : Document) :
    Option (List (String × α)) := do
  let entries ← (← d.entries?).mapM fun (key, value) => (key, ·) <$> read value
  return entries.foldl (fun sorted entry => putEntry entry.1 entry.2 sorted) []

end Document
end DryKiln
