import DryKiln.Document.Basic
import DryKiln.Toml.Text
/-!
Numbers, truth values, dates and times of a TOML document.
-/

namespace DryKiln
namespace Toml

/-- The digits of a row in which underscores may stand between digits. -/
def plainDigits? (isDigit : Char → Bool) : List Char → Option (List Char)
  | [] => none
  | [c] => if isDigit c then some [c] else none
  | c :: '_' :: rest => if isDigit c then (c :: ·) <$> plainDigits? isDigit rest else none
  | c :: rest => if isDigit c then (c :: ·) <$> plainDigits? isDigit rest else none

/-- A whole number. One beyond a machine word may only be skipped, one beyond two words not even
that. -/
def ofWhole (n : Int) : Document :=
  if Numeral.wordRange n then .number (.whole n)
  else if -Nat.pow 2 127 ≤ n ∧ n < Nat.pow 2 128 then .other
  else .invalid

def isHexDigit (c : Char) : Bool := (hexDigit? c).isSome

/-- A whole number in a base. Without any digit it is invalid. -/
def based? (base : Nat) (isDigit : Char → Bool) : List Char → Option Document
  | [] => some .invalid
  | cs => do
    let row ← plainDigits? isDigit cs
    let n ← row.foldlM
      (fun (value : Nat) c => (hexDigit? c).map fun digit => base * value + digit) 0
    return ofWhole n

/-- A row starts with a zero that is not alone. -/
def hasLeadingZero : List Char → Bool
  | '0' :: _ :: _ => true
  | _ => false

/-- Every underscore of a row behind a character stands between two digits of some base. -/
def isGrouped (before : Char) : List Char → Bool
  | [] => true
  | '_' :: rest => isHexDigit before && (rest.head?.any isHexDigit) && isGrouped '_' rest
  | c :: rest => isGrouped c rest

/-- A whole number in decimal digits. In front of the first underscore only such digits may stand; if
others follow, the number is invalid. -/
def wholeNumber? (negative : Bool) (cs : List Char) : Option Document :=
  let front := cs.takeWhile (· != '_')
  if front = [] || !front.all Char.isDigit || hasLeadingZero cs || !isGrouped '_' cs then none
  else
    let row := cs.filter (· != '_')
    let n : Int := Nat.ofDigitChars 10 row 0
    some (if row.all Char.isDigit then ofWhole (if negative then -n else n) else .invalid)

/-- A whole number behind a sign and an underscore: leading zeros are let through, and other
characters make it invalid. -/
def looseNumber? (negative : Bool) (cs : List Char) : Option Document :=
  if !(cs.head?.any isHexDigit) || !isGrouped '_' cs then none
  else
    let row := cs.filter (· != '_')
    let n : Int := Nat.ofDigitChars 10 row 0
    some (if row.all Char.isDigit then ofWhole (if negative then -n else n) else .invalid)

/-- An exponent behind its mark. -/
def exponent? (cs : List Char) : Option Int := do
  let (negative, cs) := match cs with
    | '-' :: rest => (true, rest)
    | '+' :: rest => (false, rest)
    | cs => (false, cs)
  let row ← plainDigits? Char.isDigit cs
  let size : Int := Nat.ofDigitChars 10 row 0
  return if negative then -size else size

def isExponentMark (c : Char) : Bool := c = 'e' || c = 'E'

/-- A number has a fraction or an exponent. -/
def isFractional (cs : List Char) : Bool := cs.any fun c => c = '.' || isExponentMark c

/-- A number with a fraction or an exponent, without its sign. -/
def fractional? (negative mayLeadZero : Bool) (cs : List Char) : Option Document := do
  let mantissa := cs.takeWhile fun c => !isExponentMark c
  let exponent ← match cs.dropWhile fun c => !isExponentMark c with
    | [] => some 0
    | _ :: rest => exponent? rest
  let row ← plainDigits? Char.isDigit (mantissa.takeWhile (· != '.'))
  guard (mayLeadZero || !hasLeadingZero row)
  let fraction ← match mantissa.dropWhile (· != '.') with
    | [] => some []
    | _ :: rest => plainDigits? Char.isDigit rest
  let d := Decimal.ofText negative (row ++ fraction) fraction.length exponent
  return if d.toBinary64.isInf then .invalid else .number (.scaled d)

/-- A number in decimal digits, without its sign. -/
def decimal? (negative : Bool) (cs : List Char) : Option Document :=
  if cs = "inf".toList then some (.number (.infinite negative))
  else if cs = "nan".toList then some (.number .notANumber)
  else if isFractional cs then fractional? negative false cs
  else wholeNumber? negative cs

/-- What stands behind a sign: a number, or an underscore and a number. -/
def signed? (negative : Bool) : List Char → Option Document
  | '_' :: rest =>
    if isFractional rest then fractional? negative true rest else looseNumber? negative rest
  | cs => decimal? negative cs

def number? : List Char → Option Document
  | '0' :: 'x' :: rest => based? 16 isHexDigit rest
  | '0' :: 'o' :: rest => based? 8 (fun c => '0' ≤ c && c ≤ '7') rest
  | '0' :: 'b' :: rest => based? 2 (fun c => c = '0' || c = '1') rest
  | '-' :: rest => signed? true rest
  | '+' :: rest => signed? false rest
  | cs => decimal? false cs

/-- A row of digits of a given length, and what follows it. -/
def digits? (count : Nat) (cs : List Char) : Option (Nat × List Char) :=
  let row := cs.take count
  if row.length = count ∧ row.all Char.isDigit then
    some (Nat.ofDigitChars 10 row 0, cs.drop count)
  else none

def daysOfMonth (year month : Nat) : Nat :=
  if month = 2 then if year % 4 = 0 ∧ (year % 100 ≠ 0 ∨ year % 400 = 0) then 29 else 28
  else if month = 4 ∨ month = 6 ∨ month = 9 ∨ month = 11 then 30
  else 31

/-- What follows a date. -/
def date? (cs : List Char) : Option (List Char) := do
  let (year, cs) ← digits? 4 cs
  let '-' :: cs := cs | none
  let (month, cs) ← digits? 2 cs
  let '-' :: cs := cs | none
  let (day, cs) ← digits? 2 cs
  if 1 ≤ month ∧ month ≤ 12 ∧ 1 ≤ day ∧ day ≤ daysOfMonth year month then some cs else none

/-- What follows a fraction of a second, if there is one. -/
def fraction? : List Char → Option (List Char)
  | '.' :: rest =>
    if rest.takeWhile Char.isDigit = [] then none else some (rest.dropWhile Char.isDigit)
  | cs => some cs

/-- What follows a time of the day; the seconds may be missing. -/
def time? (cs : List Char) : Option (List Char) := do
  let (hour, cs) ← digits? 2 cs
  let ':' :: cs := cs | none
  let (minute, cs) ← digits? 2 cs
  if 23 < hour ∨ 59 < minute then none
  else
    match cs with
    | ':' :: cs =>
      let (second, cs) ← digits? 2 cs
      if 60 < second then none else fraction? cs
    | cs => return cs

/-- What follows the distance to universal time, if it is given. -/
def offset? : List Char → Option (List Char)
  | 'Z' :: rest => some rest
  | 'z' :: rest => some rest
  | sign :: rest =>
    if sign = '+' ∨ sign = '-' then do
      let (hour, cs) ← digits? 2 rest
      let ':' :: cs := cs | none
      let (minute, cs) ← digits? 2 cs
      if 23 < hour ∨ 59 < minute then none else some cs
    else some (sign :: rest)
  | [] => some []

/-- A date, a time of the day or both. Nothing can be read from it. -/
def moment? (cs : List Char) : Option Document := do
  let rest ← match date? cs with
    | some [] => some []
    | some (mark :: rest) =>
      if mark = 'T' ∨ mark = 't' ∨ mark = ' ' then time? rest >>= offset? else none
    | none => time? cs
  if rest = [] then some .other else none

/-- A value without quotes or brackets. -/
def scalar? (cs : List Char) : Option Document :=
  if cs = "true".toList then some (.flag true)
  else if cs = "false".toList then some (.flag false)
  else
    match number? cs with
    | some d => some d
    | none => moment? cs

/-- A character that ends a value without quotes or brackets. -/
def endsScalar (c : Char) : Bool :=
  isSpace c || c = '\n' || c = '\r' || c = ',' || c = ']' || c = '\x7d' || c = '#' || c = '='

/-- A value without quotes or brackets, and what follows it. A space may stand between a date and
a time. -/
def takeScalar? (cs : List Char) : Option (Document × List Char) := do
  let word := cs.takeWhile fun c => !endsScalar c
  let rest := cs.dropWhile fun c => !endsScalar c
  match date? word, rest with
  | some [], ' ' :: c :: more =>
    if c.isDigit then
      let time := (c :: more).takeWhile fun c => !endsScalar c
      let d ← moment? (word ++ ' ' :: time)
      return (d, (c :: more).dropWhile fun c => !endsScalar c)
    else return (← scalar? word, rest)
  | _, _ => return (← scalar? word, rest)

end Toml
end DryKiln
