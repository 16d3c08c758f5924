import DryKiln.Document.Fields
/-!
The two formats that documents are written in, where they differ about what a value may be read
from: records in place of labels, lists in place of records, and fields that nobody knows.
-/

namespace DryKiln

/-- The format of a document. -/
inductive Format where
  | json
  | toml
deriving DecidableEq, Repr

namespace Document

mutual

/-- There is no invalid number in the value. -/
def isSkippable : Document → Bool
  | .invalid => false
  | .list items => areSkippable items
  | .record fields => haveSkippable fields
  | _ => true

/-- There is no invalid number in the items. -/
def areSkippable : List Document → Bool
  | [] => true
  | item :: items => item.isSkippable && areSkippable items

/-- There is no invalid number in the fields. -/
def haveSkippable : List (String × Document) → Bool
  | [] => true
  | (_, value) :: fields => value.isSkippable && haveSkippable fields

end

/-- A value without contents: an empty record or an empty list. -/
def isHollow : Document → Bool
  | .record [] => true
  | .list [] => true
  | _ => false

end Document

namespace Format

open Document

/-- The label of a choice: a text, or a record with the label as its only key. The value of that
key holds nothing, which JSON writes as null and TOML as an empty record or list. -/
def label? (format : Format) (d : Document) : Option String :=
  match format, d with
  | .json, d => d.label?
  | .toml, .text s => some s
  | .toml, .record [(s, value)] => if value.isHollow then some s else none
  | .toml, _ => none

/-- One slot for each field. In JSON a list has no more items than there are fields. In TOML the
items after those are not looked at; but a record's unknown fields are, and they may not hold an
invalid number. -/
def slots? (format : Format) (fields : List Field) (d : Document) :
    Option (List (Option Document)) :=
  match format, d with
  | .json, d => d.slots? fields
  | .toml, .record given =>
    let unknown := given.filter fun entry => fields.all fun field => field.name != entry.1
    if haveSkippable unknown then (Document.record given).slots? fields else none
  | .toml, .list items => positional? fields (items.take fields.length)
  | .toml, _ => none

end Format
end DryKiln
