import DryKiln.Document.Basic
/-!
Writing a document as JSON text, on one line or indented by two spaces.
-/

namespace DryKiln
namespace Json

/-- Whether a text has line breaks. -/
inductive Style where
  | compact
  | indented
deriving DecidableEq, Repr

namespace Style

/-- A line break with the indentation of a depth. -/
def line : Style → Nat → List Char
  | compact, _ => []
  | indented, depth => '\n' :: List.replicate (2 * depth) ' '

/-- What stands between a key and its value. -/
def colon : Style → List Char
  | compact => [':']
  | indented => [':', ' ']

end Style

/-- A hexadecimal digit. -/
def hexDigit (n : Nat) : Char := if n < 10 then Char.ofNat (48 + n) else Char.ofNat (87 + n)

/-- A character inside quotes. Only quotes, backslashes and control characters are escaped. -/
def escape (c : Char) : List Char :=
  if c = '"' then ['\\', '"']
  else if c = '\\' then ['\\', '\\']
  else if c = '\x08' then ['\\', 'b']
  else if c = '\x0c' then ['\\', 'f']
  else if c = '\n' then ['\\', 'n']
  else if c = '\r' then ['\\', 'r']
  else if c = '\t' then ['\\', 't']
  else if c.toNat < 0x20 then
    ['\\', 'u', '0', '0', hexDigit (c.toNat / 16), hexDigit (c.toNat % 16)]
  else [c]

/-- A quoted text. -/
def quote (s : String) : List Char := '"' :: s.toList.flatMap escape ++ ['"']

/-- A whole number. -/
def writeWhole (n : Int) : List Char :=
  if n < 0 then '-' :: Nat.toDigits 10 n.natAbs else Nat.toDigits 10 n.natAbs

/-- A number; what is no decimal is written as null. -/
def writeNumeral : Numeral → List Char
  | .whole n => writeWhole n
  | .scaled d => d.write .document
  | .infinite _ => "null".toList
  | .notANumber => "null".toList

mutual

/-- The text of a document at a depth. -/
def write (style : Style) (depth : Nat) : Document → List Char
  | .null => "null".toList
  | .flag value => if value then "true".toList else "false".toList
  | .number value => writeNumeral value
  | .text value => quote value
  | .list [] => ['[', ']']
  | .list (item :: items) =>
    '[' :: style.line (depth + 1) ++ write style (depth + 1) item ++
      writeItems style (depth + 1) items ++ style.line depth ++ [']']
  | .record [] => ['\x7b', '\x7d']
  | .record ((key, value) :: fields) =>
    '\x7b' :: style.line (depth + 1) ++ quote key ++ style.colon ++
      write style (depth + 1) value ++ writeFields style (depth + 1) fields ++
      style.line depth ++ ['\x7d']
  | .other => "null".toList
  | .invalid => "null".toList

/-- The items after the first. -/
def writeItems (style : Style) (depth : Nat) : List Document → List Char
  | [] => []
  | item :: items =>
    ',' :: style.line depth ++ write style depth item ++ writeItems style depth items

/-- The fields after the first. -/
def writeFields (style : Style) (depth : Nat) : List (String × Document) → List Char
  | [] => []
  | (key, value) :: fields =>
    ',' :: style.line depth ++ quote key ++ style.colon ++ write style depth value ++
      writeFields style depth fields

end

/-- The JSON text of a document. -/
def text (style : Style) (d : Document) : String := String.ofList (write style 0 d)

end Json
end DryKiln
