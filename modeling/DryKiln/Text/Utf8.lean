/-!
Characters out of bytes. Where the bytes are no character, the replacement character takes the
place of as many of them as could have been the start of one.
-/

namespace DryKiln
namespace Utf8

/-- A character whose first bytes have been seen. -/
structure Begun where
  /-- The bytes that are still to come; at least one. -/
  due : Nat
  low : UInt8
  high : UInt8
  /-- The number that the bytes seen so far make. -/
  value : Nat
deriving DecidableEq, Repr

/-- What stands for bytes that are no character. -/
def replacement : Char := '\uFFFD'

/-- Takes a byte that starts something new: the characters it settles, and the one it begins.
Characters are written with as few bytes as possible, are no halves of surrogate pairs, and end at
10FFFF; so some second bytes are limited. -/
def start (byte : UInt8) : List Char × Option Begun :=
  let n := byte.toNat
  if n < 0x80 then ([Char.ofNat n], none)
  else if n < 0xC2 then ([replacement], none)
  else if n < 0xE0 then ([], some ⟨1, 0x80, 0xBF, n - 0xC0⟩)
  else if n = 0xE0 then ([], some ⟨2, 0xA0, 0xBF, 0⟩)
  else if n = 0xED then ([], some ⟨2, 0x80, 0x9F, 0xD⟩)
  else if n < 0xF0 then ([], some ⟨2, 0x80, 0xBF, n - 0xE0⟩)
  else if n = 0xF0 then ([], some ⟨3, 0x90, 0xBF, 0⟩)
  else if n < 0xF4 then ([], some ⟨3, 0x80, 0xBF, n - 0xF0⟩)
  else if n = 0xF4 then ([], some ⟨3, 0x80, 0x8F, 4⟩)
  else ([replacement], none)

/-- Takes a byte behind the start of a character. -/
def goOn (begun : Begun) (byte : UInt8) : List Char × Option Begun :=
  if begun.low ≤ byte ∧ byte ≤ begun.high then
    let value := 64 * begun.value + (byte.toNat - 0x80)
    if begun.due ≤ 1 then ([Char.ofNat value], none)
    else ([], some ⟨begun.due - 1, 0x80, 0xBF, value⟩)
  else
    let (settled, next) := start byte
    (replacement :: settled, next)

/-- The characters of bytes behind the start of a character, if there is one. -/
def decodeFrom : Option Begun → List UInt8 → List Char
  | none, [] => []
  | some _, [] => [replacement]
  | begun, byte :: bytes =>
    let (settled, next) := match begun with
      | none => start byte
      | some begun => goOn begun byte
    settled ++ decodeFrom next bytes

def decode (bytes : List UInt8) : List Char := decodeFrom none bytes

end Utf8
end DryKiln
