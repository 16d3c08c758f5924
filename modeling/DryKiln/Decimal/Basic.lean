/-!
Decimal numbers: a sign, a row of digits and a power of ten. A number read from a document is
kept like this until somebody asks for it as a temperature or a gain, so nothing is lost on the
way. The normal form has no trailing zero, so two texts of one number give one value.

Every temperature, gain and band of the controller is a binary32 number. A decimal of a document is
rounded to binary64 first and from there to binary32.
-/

open Float.Model

namespace DryKiln

/-- The number `digits * 10 ^ exponent`, with a minus sign in front if `negative`. Zero keeps
its sign. -/
structure Decimal where
  negative : Bool
  digits : Nat
  exponent : Int
deriving DecidableEq, Repr, Inhabited

namespace Decimal

/-- Moves trailing zeros of the digits into the exponent; the digits are not zero. -/
def stripZeros (digits : Nat) (exponent : Int) : Nat × Int :=
  if 0 < digits ∧ digits % 10 = 0 then stripZeros (digits / 10) (exponent + 1)
  else (digits, exponent)
termination_by digits
decreasing_by omega

/-- The decimal in normal form: no trailing zero, and exponent 0 for zero. -/
def ofParts (negative : Bool) (digits : Nat) (exponent : Int) : Decimal :=
  if digits = 0 then ⟨negative, 0, 0⟩
  else
    let (d, e) := stripZeros digits exponent
    ⟨negative, d, e⟩

/-- The decimal of a digit row with the point before its last `places` digits, times
`10 ^ exponent`. -/
def ofText (negative : Bool) (row : List Char) (places : Nat) (exponent : Int) : Decimal :=
  ofParts negative (Nat.ofDigitChars 10 row 0) (exponent - places)

/-- In normal form the digits do not end in zero. -/
def IsNormal (d : Decimal) : Prop :=
  (d.digits = 0 → d.exponent = 0) ∧ (d.digits ≠ 0 → d.digits % 10 ≠ 0)

theorem stripZeros_mod (digits : Nat) (exponent : Int) (h : 0 < digits) :
    (stripZeros digits exponent).1 % 10 ≠ 0 ∧ 0 < (stripZeros digits exponent).1 := by
  fun_induction stripZeros digits exponent with
  | case1 d e hd ih => exact ih (by omega)
  | case2 d e hd => simp only; omega

theorem stripZeros_of_mod (digits : Nat) (exponent : Int) (h : digits % 10 ≠ 0) :
    stripZeros digits exponent = (digits, exponent) := by
  unfold stripZeros
  rw [if_neg (by omega)]

theorem ofParts_isNormal (negative : Bool) (digits : Nat) (exponent : Int) :
    (ofParts negative digits exponent).IsNormal := by
  unfold ofParts IsNormal
  split
  · simp
  · rename_i h
    have := stripZeros_mod digits exponent (by omega)
    constructor
    · intro h0; simp only at h0; omega
    · intro _; exact this.1

/-- A decimal in normal form is what `ofParts` makes of its own parts. -/
theorem ofParts_of_isNormal (d : Decimal) (h : d.IsNormal) :
    ofParts d.negative d.digits d.exponent = d := by
  unfold ofParts
  split
  · rename_i h0
    have := h.1 h0
    cases d; simp_all
  · rename_i h0
    rw [stripZeros_of_mod _ _ (h.2 h0)]

/-- Rounds a binary64 number to the nearest binary32 number, ties to even. -/
def narrow (x : Float) : Float32 :=
  let packed : UnpackedFloat → Float32 := fun u => Float32.ofBits ⟨UnpackedFloat.pack Format.binary32 u⟩
  match UnpackedFloat.unpack Format.binary64 x.toBits.toBitVec with
  | .finite sign mantissa exponent _ =>
    packed (UnpackedFloat.round Format.binary32 sign mantissa exponent)
  | special => packed special

def toBinary64 (d : Decimal) : Float :=
  let size := Float.ofScientific d.digits (d.exponent < 0) d.exponent.natAbs
  if d.negative then -size else size

/-- The binary32 number a document means by this decimal, or nothing if it is too large for
binary64. -/
def toBinary32? (d : Decimal) : Option Float32 :=
  let wide := d.toBinary64
  if wide.isInf then none else some (narrow wide)

end Decimal
end DryKiln
