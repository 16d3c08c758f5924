import DryKiln.Decimal.Basic
import DryKiln.Decimal.Layout
/-!
Documents: the values that a program, a reading, a status or a configuration is written in. JSON
and TOML texts are both read into them.
-/

namespace DryKiln

/-- A number as a document writes it. Whole numbers are those without fraction or exponent that
fit a machine word; they alone can be counts, percentages and times. -/
inductive Numeral where
  | whole (value : Int)
  | scaled (value : Decimal)
  | infinite (negative : Bool)
  | notANumber
deriving DecidableEq, Repr

/-- The value of a document. -/
inductive Document where
  | null
  | flag (value : Bool)
  | number (value : Numeral)
  | text (value : String)
  | list (items : List Document)
  | record (fields : List (String × Document))
  /-- A well-formed value that nothing can be read from: a text with half a surrogate pair, a
  record with such a key, a date. It may only be skipped. -/
  | other
  /-- A number that turns out to be none when somebody looks at it: it is too large, or its digits
  are wrong. -/
  | invalid
deriving Repr, Inhabited

namespace Numeral

/-- The whole numbers that fit a machine word, signed or unsigned. -/
def wordRange (n : Int) : Bool := Int64.minValue.toInt ≤ n && n < UInt64.size

/-- The binary32 number a numeral stands for; nothing if it is too large for binary64. -/
def toBinary32? : Numeral → Option Float32
  | whole n => some (Float32.ofInt n)
  | scaled d => d.toBinary32?
  | infinite negative => some (if negative then -1 / 0 else 1 / 0)
  | notANumber => some (0 / 0)

/-- The numeral a finite binary32 number is written with; nothing for NaN and the infinities. -/
def ofBinary32? (x : Float32) : Option Numeral := (Decimal.shortest? .toEven x).map .scaled

end Numeral
end DryKiln
