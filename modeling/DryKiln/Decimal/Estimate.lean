import DryKiln.Decimal.Basic
/-!
Numbers worked out in binary64. Digits are taken as long as a machine word holds them; what they
make is then multiplied or divided by a power of ten. Every step is rounded, so the outcome may miss
the nearest binary64 number by a little.
-/

open Float.Model

namespace DryKiln
namespace Decimal

/-- One more digit behind a number, if a machine word holds them. -/
def append? (n : Nat) (c : Char) : Option Nat :=
  let longer := 10 * n + (c.toNat - 48)
  if longer < UInt64.size then some longer else none

/-- Digits in front of the point, taken behind a number: what they make, and how many of them have
been left out. After the first that does not fit all are left out. -/
def takeWhole (n leftOut : Nat) : List Char → Nat × Nat
  | [] => (n, leftOut)
  | c :: cs =>
    match leftOut, append? n c with
    | 0, some longer => takeWhole longer 0 cs
    | _, _ => takeWhole n (leftOut + 1) cs

/-- Digits behind the point, taken behind a number: what they make, and how many of them it are. -/
def takeFraction (n taken : Nat) : List Char → Nat × Nat
  | [] => (n, taken)
  | c :: cs =>
    match append? n c with
    | some longer => takeFraction longer (taken + 1) cs
    | none => (n, taken)

/-- The largest power of ten that is used at once. -/
def mostPlaces : Nat := 308

def powerOfTen (places : Nat) : Float := Float.ofScientific 1 false places

/-- A machine word times a power of ten, worked out; nothing if it is too large. -/
def estimate? (n : Nat) (exponent : Int) : Option Float :=
  let size := Float.ofNat n
  let places := exponent.natAbs
  if 0 ≤ exponent then
    if n = 0 then some size
    else if mostPlaces < places then none
    else
      let product := size * powerOfTen places
      if product.isInf then none else some product
  else if places ≤ mostPlaces then some (size / powerOfTen places)
  else if places ≤ 2 * mostPlaces then
    some (size / powerOfTen mostPlaces / powerOfTen (places - mostPlaces))
  else some 0

/-- The decimal that a finite binary64 number is, with a sign of its own; zero for all others. -/
def ofBinary64 (negative : Bool) (x : Float) : Decimal :=
  match UnpackedFloat.unpack Format.binary64 x.toBits.toBitVec with
  | .finite _ mantissa exponent _ =>
    let places := (-exponent).toNat
    ofParts negative (mantissa * Nat.pow 2 exponent.toNat * Nat.pow 5 places) (-places)
  | _ => ⟨negative, 0, 0⟩

end Decimal
end DryKiln
