/-!
Rows of a comma-separated table, and their way to the sink. A field is quoted only if it has to be;
a quote inside quotes is written twice; a row ends with a line feed.

Rows are gathered in a buffer; it goes out when a row is complete, and also whenever the next piece
of a row does not fit any more. If the sink refuses it then, the row breaks off, and what is already
in the buffer stays there.
-/

namespace DryKiln

/-- Whether a sink takes what it is given: the first time, the second time, and so on. -/
abbrev WriteAnswers : Type := Nat → Bool

namespace Csv

/-- A character that a field without quotes cannot hold. -/
def isSpecial (c : Char) : Bool := c = ',' || c = '"' || c = '\r' || c = '\n'

/-- The field has to be quoted. -/
def needsQuotes (cs : List Char) : Bool := cs.any isSpecial

/-- The text with every quote written twice. -/
def doubleQuotes : List Char → List Char
  | [] => []
  | c :: cs => if c = '"' then '"' :: '"' :: doubleQuotes cs else c :: doubleQuotes cs

def field (cs : List Char) : List Char :=
  if needsQuotes cs then '"' :: doubleQuotes cs ++ ['"'] else cs

def row : List (List Char) → List Char
  | [] => ['\n']
  | [last] => field last ++ ['\n']
  | first :: rest => field first ++ ',' :: row rest

/-- How many bytes the buffer holds. -/
def capacity : Nat := 8192

/-- What is put into the buffer at once, and how the row stands until it is there. -/
structure Piece where
  bytes : List UInt8
  /-- The fields that are complete. -/
  fields : Nat
  /-- A quote has been opened and not closed. -/
  inQuotes : Bool
deriving DecidableEq, Repr

/-- The closing quote, if there is one to close. -/
def closing (fields : Nat) (inQuotes : Bool) : List Piece :=
  if inQuotes then [⟨[34], fields, true⟩] else []

/-- What stands between the fields that are complete and the next one. -/
def separator (fields : Nat) (inQuotes : Bool) : List Piece :=
  if fields = 0 then [] else closing fields inQuotes ++ [⟨[44], fields, false⟩]

/-- A character inside a field: its bytes one by one, but the two quotes for one stay together. -/
def character (fields : Nat) (inQuotes : Bool) (c : Char) : List Piece :=
  if c = '"' then [⟨[34, 34], fields, inQuotes⟩]
  else (String.utf8EncodeChar c).map fun byte => ⟨[byte], fields, inQuotes⟩

/-- A field up to its closing quote. -/
def opened (fields : Nat) (cs : List Char) : List Piece :=
  (if needsQuotes cs then [⟨[34], fields, true⟩] else []) ++
    cs.flatMap (character fields (needsQuotes cs))

/-- The fields of a row, up to the closing quote of the last one. -/
def pieces (fields : Nat) (inQuotes : Bool) : List (List Char) → List Piece
  | [] => []
  | cs :: rest =>
    separator fields inQuotes ++ opened fields cs ++ pieces (fields + 1) (needsQuotes cs) rest

/-- The last field of a row is in quotes. -/
def endsInQuotes (row : List (List Char)) : Bool := (row.getLast?.map needsQuotes).getD false

/-- A row from its first field to its line feed. -/
def wholeRow (row : List (List Char)) : List Piece :=
  pieces 0 false row ++ closing row.length (endsInQuotes row) ++ [⟨[10], row.length, false⟩]

/-- What became of some pieces. Bytes are listed the latest first. -/
structure Filled where
  held : List UInt8
  /-- What went to the sink. -/
  sent : List UInt8
  /-- The piece that did not find room. -/
  stuck : Option Piece
  /-- How often the sink has been given something. -/
  writes : Nat
deriving DecidableEq, Repr

/-- Puts pieces into a buffer that holds so many bytes, when the sink has been given something so
many times. -/
def fill (accepts : WriteAnswers) (writes size : Nat) (held sent : List UInt8) : List Piece → Filled
  | [] => ⟨held, sent, none, writes⟩
  | piece :: rest =>
    if size + piece.bytes.length ≤ capacity then
      fill accepts writes (size + piece.bytes.length) (piece.bytes.reverse ++ held) sent rest
    else if accepts writes then
      fill accepts (writes + 1) piece.bytes.length piece.bytes.reverse (held ++ sent) rest
    else ⟨held, sent, some piece, writes + 1⟩

/-- The buffer of a table between two rows. -/
structure Buffer where
  /-- The bytes that the sink has not taken, the latest first. -/
  held : List UInt8
  /-- The complete fields of a row that has broken off. -/
  fields : Nat
  /-- The field it has broken off in is in quotes. -/
  inQuotes : Bool
deriving DecidableEq, Repr

/-- The buffer that is left behind a row that did not go out. If all of its pieces found room, so
many fields are behind it. -/
def Filled.buffer (filled : Filled) (fields : Nat) (inQuotes : Bool) : Buffer :=
  match filled.stuck with
  | some piece => ⟨filled.held, piece.fields, piece.inQuotes⟩
  | none => ⟨filled.held, fields, inQuotes⟩

namespace Buffer

def empty : Buffer := ⟨[], 0, false⟩

/-- No row has broken off. -/
def isEven (buffer : Buffer) : Bool := buffer.fields = 0

/-- Puts pieces behind what is in the buffer. -/
def gather (buffer : Buffer) (accepts : WriteAnswers) (pieces : List Piece) : Filled :=
  fill accepts 0 buffer.held.length buffer.held [] pieces

/-- Adds a row behind one that has broken off. The fields are taken for more of that row, which then
has too many of them and gets no line feed. -/
def addBehind (buffer : Buffer) (row : List (List Char)) (accepts : WriteAnswers) :
    Buffer × List UInt8 :=
  let filled := buffer.gather accepts (pieces buffer.fields buffer.inQuotes row)
  (filled.buffer (buffer.fields + row.length) (endsInQuotes row), filled.sent)

/-- A row goes out: all of it finds room, and the sink takes what is in the buffer then. -/
def goesOut (buffer : Buffer) (row : List (List Char)) (accepts : WriteAnswers) : Bool :=
  let filled := buffer.gather accepts (wholeRow row)
  filled.stuck.isNone && accepts filled.writes

/-- Adds a row that does not go out: all of it or, if there is no room, its beginning. What went to
the sink to make room for it is gone. -/
def addRefused (buffer : Buffer) (row : List (List Char)) (accepts : WriteAnswers) :
    Buffer × List UInt8 :=
  let filled := buffer.gather accepts (wholeRow row)
  (filled.buffer 0 false, filled.sent)

end Buffer
end Csv
end DryKiln
