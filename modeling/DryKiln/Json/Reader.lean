import DryKiln.Json.Token
/-!
Reading a JSON text into a document. The containers that are still open are kept in a stack, so a
text may be nested to any depth.
-/

namespace DryKiln
namespace Json

/-- A container that is still open, with what it holds so far in reverse. -/
inductive Frame where
  | list (items : List Document)
  /-- The key is the one whose value is due. It is absent if it holds half a surrogate pair. -/
  | record (fields : List (Option String × Document)) (key : Option String)
deriving Repr

/-- What has to come next. -/
inductive Goal where
  | value
  | valueOrEndList
  | keyOrEndRecord
  | key
  | colon
  | commaOrEnd
  | nothing (done : Document)
deriving Repr

/-- A reader: what has to come next, and the open containers, innermost first. -/
structure Reader where
  goal : Goal
  stack : List Frame
deriving Repr

/-- A record of fields in reverse. A record with a key that is no text cannot be read from. -/
def recordOf (fields : List (Option String × Document)) : Document :=
  match fields.reverse.mapM fun (key, value) => key.map (·, value) with
  | some named => .record named
  | none => .other

namespace Reader

/-- A value is complete. -/
def place (d : Document) : List Frame → Reader
  | [] => ⟨.nothing d, []⟩
  | .list items :: stack => ⟨.commaOrEnd, .list (d :: items) :: stack⟩
  | .record fields key :: stack => ⟨.commaOrEnd, .record ((key, d) :: fields) key :: stack⟩

/-- A token that starts a value. -/
def startValue (stack : List Frame) : Token → Option Reader
  | .null => some (place .null stack)
  | .flag value => some (place (.flag value) stack)
  | .number (some value) => some (place (.number value) stack)
  | .number none => some (place .invalid stack)
  | .text (some value) => some (place (.text value) stack)
  | .text none => some (place .other stack)
  | .beginList => some ⟨.valueOrEndList, .list [] :: stack⟩
  | .beginRecord => some ⟨.keyOrEndRecord, .record [] none :: stack⟩
  | _ => none

/-- A key of the innermost record. -/
def takeKey (key : Option String) : List Frame → Option Reader
  | .record fields _ :: stack => some ⟨.colon, .record fields key :: stack⟩
  | _ => none

/-- The end of the innermost container, if the token is its end. -/
def close (token : Token) : List Frame → Option Reader
  | .list items :: stack =>
    if token = .endList then some (place (.list items.reverse) stack) else none
  | .record fields _ :: stack =>
    if token = .endRecord then some (place (recordOf fields) stack) else none
  | [] => none

/-- A comma in the innermost container. -/
def separate : List Frame → Option Reader
  | .list items :: stack => some ⟨.value, .list items :: stack⟩
  | .record fields key :: stack => some ⟨.key, .record fields key :: stack⟩
  | [] => none

/-- The reader after a token. -/
def step (reader : Reader) (token : Token) : Option Reader :=
  match reader.goal with
  | .value => startValue reader.stack token
  | .valueOrEndList =>
    if token = .endList then close token reader.stack else startValue reader.stack token
  | .keyOrEndRecord =>
    match token with
    | .text key => takeKey key reader.stack
    | token => close token reader.stack
  | .key =>
    match token with
    | .text key => takeKey key reader.stack
    | _ => none
  | .colon => if token = .colon then some ⟨.value, reader.stack⟩ else none
  | .commaOrEnd => if token = .comma then separate reader.stack else close token reader.stack
  | .nothing _ => none

/-- The reader after several tokens. -/
def steps (reader : Reader) (tokens : List Token) : Option Reader := tokens.foldlM step reader

/-- The document, once nothing more has to come. -/
def done? (reader : Reader) : Option Document :=
  match reader.goal with
  | .nothing d => some d
  | _ => none

end Reader

/-- The scan and the reader after a character: each token goes to the reader as it completes. -/
def feed (state : Scan × Reader) (c : Char) : Option (Scan × Reader) := do
  let (scan, tokens) ← state.1.step c
  let reader ← state.2.steps tokens
  return (scan, reader)

/-- The document of a row of characters. -/
def ofChars? (cs : List Char) : Option Document := do
  let (scan, reader) ← cs.foldlM feed (.ground, ⟨.value, []⟩)
  let reader ← reader.steps (← scan.finish)
  reader.done?

/-- The document of a JSON text. -/
def read? (text : String) : Option Document := ofChars? text.toList

end Json
end DryKiln
