import DryKiln.Decimal.Basic
/-!
The shortest decimal of a binary32 number. The reals that round to the number form an interval;
the decimal is a point of the coarsest decimal grid that has a point in the interval, and of the
points on that grid the one nearest to the number.
-/

namespace DryKiln

/-- A finite binary32 number without its sign: `significand * 2 ^ scale`. -/
structure Magnitude where
  significand : Nat
  scale : Int
  /-- The next number below is only half as far away as the next one above. -/
  narrowBelow : Bool
deriving DecidableEq, Repr

namespace Magnitude

/-- The magnitude in the bits of a finite number. -/
def ofBits (bits : UInt32) : Magnitude :=
  let exponent := ((bits >>> 23) &&& 0xFF).toNat
  let fraction := (bits &&& 0x7FFFFF).toNat
  if exponent = 0 then ⟨fraction, -149, false⟩
  else ⟨0x800000 + fraction, exponent - 150, fraction = 0 && 1 < exponent⟩

/-- The lower end of the interval, in quarters of a unit in the last place. -/
def lower (x : Magnitude) : Nat := 4 * x.significand - (if x.narrowBelow then 1 else 2)

/-- The upper end of the interval, in quarters of a unit in the last place. -/
def upper (x : Magnitude) : Nat := 4 * x.significand + 2

/-- `a * 2 ^ (scale - 2)` as a fraction of the grid `10 ^ grid`: the numerator. -/
def above (x : Magnitude) (grid : Int) (a : Nat) : Nat :=
  a * Nat.pow 2 (x.scale - 2).toNat * Nat.pow 10 (-grid).toNat

/-- The denominator that goes with `above`. -/
def below (x : Magnitude) (grid : Int) : Nat :=
  Nat.pow 2 (2 - x.scale).toNat * Nat.pow 10 grid.toNat

/-- The decimal `digits * 10 ^ grid` rounds to this number. The ends of the interval belong to it
exactly when the significand is even. -/
def contains (x : Magnitude) (grid : Int) (digits : Nat) : Bool :=
  let low := x.above grid x.lower
  let high := x.above grid x.upper
  let point := digits * x.below grid
  if x.significand % 2 = 0 then low ≤ point && point ≤ high else low < point && point < high

end Magnitude

namespace Decimal

/-- Where a tie between two equally near decimals goes. -/
inductive Tie where
  | toEven
  | up
deriving DecidableEq, Repr

/-- A quotient rounded to the nearest whole number. -/
def roundQuotient (tie : Tie) (numerator denominator : Nat) : Nat :=
  let whole := numerator / denominator
  let rest := numerator % denominator
  if 2 * rest < denominator then whole
  else if denominator < 2 * rest then whole + 1
  else match tie with
    | .up => whole + 1
    | .toEven => if whole % 2 = 0 then whole else whole + 1

/-- The point of the grid `10 ^ grid` that stands for the number, if one does: of the two
neighbours of the number those in its interval count, and of two the nearer. -/
def onGrid (tie : Tie) (x : Magnitude) (grid : Int) : Option Nat :=
  let value := x.above grid (4 * x.significand)
  let unit := x.below grid
  let floor := value / unit
  match x.contains grid floor, x.contains grid (floor + 1) with
  | true, true => some (roundQuotient tie value unit)
  | true, false => some floor
  | false, true => some (floor + 1)
  | false, false => none

/-- The grids that are tried, from the coarsest that a binary32 number can need to the one on
which every binary32 number lies. -/
def grids : List Int := (List.range 189).map fun (i : Nat) => 39 - (i : Int)

/-- The digits and the exponent of the shortest decimal of a finite number that is not zero. -/
def shortestParts (tie : Tie) (x : Magnitude) : Nat × Int :=
  (grids.findSome? fun grid => (onGrid tie x grid).map fun digits => (digits, grid)).getD (0, 0)

/-- The shortest decimal that reads back as the number, in normal form; nothing for NaN and the
infinities. -/
def shortest? (tie : Tie) (x : Float32) : Option Decimal :=
  if x.isNaN || x.isInf then none
  else
    let bits := x.toBits
    let magnitude := Magnitude.ofBits bits
    let negative : Bool := bits >>> 31 = 1
    if magnitude.significand = 0 then some ⟨negative, 0, 0⟩
    else
      let (digits, exponent) := shortestParts tie magnitude
      some (ofParts negative digits exponent)

end Decimal
end DryKiln
