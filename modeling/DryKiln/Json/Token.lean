import DryKiln.Decimal.Estimate
import DryKiln.Document.Basic
/-!
The tokens of a JSON text. A machine takes the text character by character; its state is what it
is in the middle of. A number or a word ends with the first character that cannot belong to it,
and that character then starts or is something else.
-/

namespace DryKiln
namespace Json

inductive Token where
  | beginRecord
  | endRecord
  | beginList
  | endList
  | colon
  | comma
  | null
  | flag (value : Bool)
  /-- Absent if the number is too large. -/
  | number (value : Option Numeral)
  /-- Absent if the text holds half a surrogate pair. -/
  | text (value : Option String)
deriving DecidableEq, Repr

/-- A piece of a quoted text: a character, or one half of a surrogate pair. -/
inductive Piece where
  | char (c : Char)
  | half (unit : Nat)
deriving DecidableEq, Repr

/-- The first half of a surrogate pair. -/
def isHighHalf (unit : Nat) : Bool := 0xD800 ≤ unit && unit ≤ 0xDBFF

/-- The second half of a surrogate pair. -/
def isLowHalf (unit : Nat) : Bool := 0xDC00 ≤ unit && unit ≤ 0xDFFF

/-- The characters of the pieces; nothing if a half stands alone. -/
def pairHalves : List Piece → Option (List Char)
  | [] => some []
  | .char c :: rest => (c :: ·) <$> pairHalves rest
  | .half high :: .half low :: rest =>
    if isHighHalf high && isLowHalf low then
      (Char.ofNat (0x10000 + (high - 0xD800) * 0x400 + (low - 0xDC00)) :: ·) <$> pairHalves rest
    else none
  | .half _ :: _ => none

/-- What the machine is in the middle of. What has been taken is kept in reverse. -/
inductive Scan where
  | ground
  | number (taken : List Char)
  | word (taken : List Char)
  | text (taken : List Piece)
  /-- Behind a backslash. -/
  | escape (taken : List Piece)
  /-- Inside the four digits of a numbered character: their value so far, and how many are left. -/
  | code (taken : List Piece) (value : Nat) (left : Nat)
deriving DecidableEq, Repr

/-- The characters that a number is made of. -/
def isNumberChar (c : Char) : Bool :=
  c.isDigit || c == '-' || c == '+' || c == '.' || c == 'e' || c == 'E'

/-- The four characters that may stand between tokens. -/
def isSpace (c : Char) : Bool := c == ' ' || c == '\t' || c == '\n' || c == '\r'

/-- The whole digits of a number: a zero alone, or a row that starts with another digit. -/
def isWholePart (row : List Char) : Bool :=
  match row with
  | [] => false
  | ['0'] => true
  | c :: _ => c != '0'

/-- The exponent behind its mark: an optional sign and at least one digit. -/
def exponent? (cs : List Char) : Option Int :=
  let (negative, row) := match cs with
    | '-' :: row => (true, row)
    | '+' :: row => (false, row)
    | row => (false, row)
  if row ≠ [] ∧ row.all Char.isDigit then
    let size : Int := Nat.ofDigitChars 10 row 0
    some (if negative then -size else size)
  else none

/-- The pieces of a number. -/
structure NumberText where
  negative : Bool
  whole : List Char
  /-- The digits behind the point; none if there is no point. -/
  fraction : List Char
  exponent : Option Int
deriving DecidableEq, Repr

namespace NumberText

/-- The exponent that ends a number, if there is one. -/
def ending? : List Char → Option (Option Int)
  | [] => some none
  | mark :: rest => if mark == 'e' || mark == 'E' then some <$> exponent? rest else none

/-- The pieces of a number: no leading zero, no plus sign, digits on both sides of the point. -/
def read? (cs : List Char) : Option NumberText := do
  let (negative, cs) := match cs with
    | '-' :: cs => (true, cs)
    | cs => (false, cs)
  let whole := cs.takeWhile Char.isDigit
  guard (isWholePart whole)
  match cs.dropWhile Char.isDigit with
  | '.' :: rest =>
    let fraction := rest.takeWhile Char.isDigit
    guard (fraction ≠ [])
    return ⟨negative, whole, fraction, ← ending? (rest.dropWhile Char.isDigit)⟩
  | rest => return ⟨negative, whole, [], ← ending? rest⟩

/-- The whole number, if there is neither point nor exponent and it fits a machine word. A zero with
a minus sign is no whole number. -/
def whole? (t : NumberText) : Option Int :=
  let n : Int := Nat.ofDigitChars 10 t.whole 0
  let value := if t.negative then -n else n
  if t.fraction = [] ∧ t.exponent = none ∧ Numeral.wordRange value ∧ ¬(t.negative ∧ n = 0) then
    some value
  else none

/-- The value of any other number; nothing if it is too large. -/
def scaled? (t : NumberText) : Option Decimal :=
  let (front, leftOut) := Decimal.takeWhole 0 0 t.whole
  let (digits, taken) := Decimal.takeFraction front 0 t.fraction
  (Decimal.estimate? digits (leftOut - taken + t.exponent.getD 0)).map (Decimal.ofBinary64 t.negative)

/-- The numeral; nothing if the number is too large. -/
def numeral? (t : NumberText) : Option Numeral :=
  match t.whole? with
  | some value => some (.whole value)
  | none => t.scaled?.map .scaled

end NumberText

/-- The token of a number. -/
def number? (cs : List Char) : Option Token :=
  (NumberText.read? cs).map fun t => .number t.numeral?

/-- The token of a bare word. -/
def word? (cs : List Char) : Option Token :=
  if cs = "null".toList then some .null
  else if cs = "true".toList then some (.flag true)
  else if cs = "false".toList then some (.flag false)
  else none

/-- The token of one of the six characters that are tokens. -/
def mark? (c : Char) : Option Token :=
  if c = '\x7b' then some .beginRecord
  else if c = '\x7d' then some .endRecord
  else if c = '[' then some .beginList
  else if c = ']' then some .endList
  else if c = ':' then some .colon
  else if c = ',' then some .comma
  else none

/-- The character that a letter behind a backslash stands for. -/
def unescape? (c : Char) : Option Char :=
  if c = '"' || c = '\\' || c = '/' then some c
  else if c = 'b' then some '\x08'
  else if c = 'f' then some '\x0c'
  else if c = 'n' then some '\n'
  else if c = 'r' then some '\r'
  else if c = 't' then some '\t'
  else none

def hexValue? (c : Char) : Option Nat :=
  if c.isDigit then some (c.toNat - 48)
  else if 'a' ≤ c ∧ c ≤ 'f' then some (c.toNat - 87)
  else if 'A' ≤ c ∧ c ≤ 'F' then some (c.toNat - 55)
  else none

/-- The piece a numbered character is. -/
def codePiece (value : Nat) : Piece :=
  if isHighHalf value || isLowHalf value then .half value else .char (Char.ofNat value)

/-- The token of a quoted text. -/
def quoted (taken : List Piece) : Token :=
  .text ((pairHalves taken.reverse).map String.ofList)

/-- A character between tokens. -/
def Scan.start (c : Char) : Option (Scan × List Token) :=
  if isSpace c then some (.ground, [])
  else if c = '"' then some (.text [], [])
  else if c.isDigit || c == '-' then some (.number [c], [])
  else if c.isAlpha then some (.word [c], [])
  else (mark? c).map fun token => (.ground, [token])

/-- The state after a character, and the tokens it completes. -/
def Scan.step : Scan → Char → Option (Scan × List Token)
  | .ground, c => Scan.start c
  | .number taken, c =>
    if isNumberChar c then some (.number (c :: taken), [])
    else do
      let token ← number? taken.reverse
      let (next, tokens) ← Scan.start c
      return (next, token :: tokens)
  | .word taken, c =>
    if c.isAlpha then some (.word (c :: taken), [])
    else do
      let token ← word? taken.reverse
      let (next, tokens) ← Scan.start c
      return (next, token :: tokens)
  | .text taken, c =>
    if c = '"' then some (.ground, [quoted taken])
    else if c = '\\' then some (.escape taken, [])
    else if c.toNat < 0x20 then none
    else some (.text (.char c :: taken), [])
  | .escape taken, c =>
    if c = 'u' then some (.code taken 0 4, [])
    else (unescape? c).map fun plain => (.text (.char plain :: taken), [])
  | .code taken value left, c =>
    (hexValue? c).map fun digit =>
      let value := 16 * value + digit
      if left ≤ 1 then (.text (codePiece value :: taken), []) else (.code taken value (left - 1), [])

/-- The tokens that the end of the text completes. -/
def Scan.finish : Scan → Option (List Token)
  | .ground => some []
  | .number taken => (number? taken.reverse).map fun token => [token]
  | .word taken => (word? taken.reverse).map fun token => [token]
  | _ => none

end Json
end DryKiln
