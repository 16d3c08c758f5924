import DryKiln.Decimal.Shortest
/-!
How a number is written. A layout is a record of decisions; there are two of them, one for
messages and one for documents. The execution log writes one decimal place instead.
-/

namespace DryKiln

namespace Decimal

/-- The decisions that turn a decimal into text. -/
structure Layout where
  /-- Which of two equally near shortest decimals is written. -/
  tie : Tie
  /-- The exponents of the leading digit that are written without an exponent; all, if absent. -/
  plain : Option (Int × Int)
  /-- A whole number gets a point and a zero. -/
  pointZero : Bool

/-- Messages never show an exponent, and whole numbers have no point. -/
def Layout.message : Layout := ⟨.up, none, false⟩

/-- Documents show an exponent below a millionth and from ten million million on; every other
number has a fraction part. -/
def Layout.document : Layout := ⟨.toEven, some (-6, 12), true⟩

/-- The digits of a decimal without exponent: the point stands after, inside or before the row. -/
def positional (pointZero : Bool) (digits : Nat) (exponent : Int) : List Char :=
  let row := Nat.toDigits 10 digits
  if 0 ≤ exponent then
    let whole := if digits = 0 then row else row ++ List.replicate exponent.toNat '0'
    if pointZero then whole ++ ['.', '0'] else whole
  else
    let places := (-exponent).toNat
    if places < row.length then
      row.take (row.length - places) ++ '.' :: row.drop (row.length - places)
    else '0' :: '.' :: (List.replicate (places - row.length) '0' ++ row)

/-- The digits of a decimal with exponent: one digit before the point. -/
def scientific (digits : Nat) (exponent : Int) : List Char :=
  let row := Nat.toDigits 10 digits
  let leading := exponent + (row.length - 1 : Nat)
  let sign := if leading < 0 then '-' else '+'
  let fraction := row.drop 1
  row.take 1 ++ (if fraction = [] then [] else '.' :: fraction) ++
    'e' :: sign :: Nat.toDigits 10 leading.natAbs

def write (layout : Layout) (d : Decimal) : List Char :=
  let leading := d.exponent + ((Nat.toDigits 10 d.digits).length - 1 : Nat)
  let plain := match layout.plain with
    | none => true
    | some (low, high) => decide (low ≤ leading) && decide (leading ≤ high)
  let body :=
    if plain then positional layout.pointZero d.digits d.exponent
    else scientific d.digits d.exponent
  if d.negative then '-' :: body else body

end Decimal

/-- The text of a number that has no decimal: NaN and the infinities. -/
def specialText (x : Float32) : String :=
  if x.isNaN then "NaN" else if x < 0 then "-inf" else "inf"

/-- The number as messages show it. -/
def messageText (x : Float32) : String :=
  match Decimal.shortest? .up x with
  | some d => String.ofList (d.write .message)
  | none => specialText x

/-- The number with one decimal place: its exact value rounded, ties to even. -/
def oneDecimalText (x : Float32) : String :=
  if x.isNaN || x.isInf then specialText x
  else
    let magnitude := Magnitude.ofBits x.toBits
    let tenths := Decimal.roundQuotient .toEven
      (10 * magnitude.significand * Nat.pow 2 magnitude.scale.toNat)
      (Nat.pow 2 (-magnitude.scale).toNat)
    let sign := if x.toBits >>> 31 = 1 then ['-'] else []
    String.ofList
      (sign ++ Nat.toDigits 10 (tenths / 10) ++ '.' :: Nat.toDigits 10 (tenths % 10))

end DryKiln
