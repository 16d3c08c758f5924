-- Numbers that are numbers. The order of binary32 is total as long as no NaN is compared, what is
-- read from a decimal or a whole number is never NaN, and cutting off the fraction of a number
-- does not lead out of its bounds.
import DryKiln.Document.Basic
import Mathlib

open Float.Model

namespace DryKiln
namespace Binary32

/-! ## The order -/

/-- Exponents are compared first, then significands. -/
theorem swap_lexicographic (e₁ e₂ : Int) (m₁ m₂ : Nat) :
    (compare e₂ e₁).then (compare m₂ m₁) = ((compare e₁ e₂).then (compare m₁ m₂)).swap := by
  rw [Ordering.swap_then, Int.compare_swap, Nat.compare_swap]

/-- Two numbers are in one order, from whichever side they are compared. -/
theorem compare_swap {a b : UnpackedFloat} (ha : a.isNaN = false) (hb : b.isNaN = false) :
    ∃ order, a.compare b = some order ∧ b.compare a = some order.swap := by
  rcases a with s | _ | s | ⟨s, m, e⟩ <;> rcases b with t | _ | t | ⟨t, n, f⟩ <;>
    simp only [UnpackedFloat.isNaN, Bool.true_eq_false] at ha hb <;> cases s <;> cases t <;>
    refine ⟨_, rfl, ?_⟩
  case finite.finite.negative.negative =>
    exact congrArg (fun order => some order.swap) (swap_lexicographic e f m n)
  case finite.finite.positive.positive => exact congrArg some (swap_lexicographic e f m n)
  all_goals rfl

theorem isNaN_eq (x : Float32) : x.isNaN = x.toModel.unpack.isNaN := rfl

theorem lt_iff (a b : Float32) :
    a < b ↔ a.toModel.unpack.compare b.toModel.unpack = some .lt := by
  change (decide (UnpackedFloat.lt _ _ = true)) = true ↔ _
  rw [decide_eq_true_iff, UnpackedFloat.lt, beq_iff_eq]

theorem le_iff (a b : Float32) :
    a ≤ b ↔ (a.toModel.unpack.compare b.toModel.unpack).any (·.isLE) = true := by
  change (decide (UnpackedFloat.le _ _ = true)) = true ↔ _
  rw [decide_eq_true_iff, UnpackedFloat.le]

/-- Of two numbers one is at most the other. -/
theorem le_of_not_lt {a b : Float32} (ha : a.isNaN = false) (hb : b.isNaN = false)
    (h : ¬ b < a) : a ≤ b := by
  obtain ⟨order, hab, hba⟩ := compare_swap ha hb
  rw [lt_iff, hba] at h
  rw [le_iff, hab]
  cases order with
  | lt => rfl
  | eq => rfl
  | gt => exact absurd rfl h

/-- What is compared with success is no NaN. -/
theorem isNaN_of_le {a b : Float32} (h : a ≤ b) : a.isNaN = false ∧ b.isNaN = false := by
  rw [le_iff] at h
  rw [isNaN_eq, isNaN_eq]
  generalize a.toModel.unpack = x, b.toModel.unpack = y at h
  cases x <;> cases y <;> simp_all [UnpackedFloat.compare, UnpackedFloat.isNaN]

/-! ## What is written down as bits -/

theorem isNaN_unpack_eq_false {spec : Float.Model.Format} {bits : BitVec spec.numBits}
    (h : UnpackedFloat.unpackExponent bits = -1#_ → UnpackedFloat.unpackMantissa bits = 0#_) :
    (UnpackedFloat.unpack spec bits).isNaN = false := by
  fun_cases UnpackedFloat.unpack with
  | case2 mantissa exponent hexponent hmantissa => exact absurd (h hexponent) hmantissa
  | _ => rfl

theorem zero_ne_allOnes {w : Nat} (h : 0 < w) : 0#w ≠ -1#w := by
  intro heq
  have := Nat.two_pow_pos (w - 1)
  have hpow : 2 ^ w = 2 ^ (w - 1) * 2 := by rw [← Nat.pow_succ]; congr 1; omega
  rw [BitVec.neg_one_eq_allOnes, ← BitVec.toNat_inj, BitVec.toNat_allOnes] at heq
  simp only [BitVec.toNat_ofNat, Nat.zero_mod] at heq
  omega

/-- A number is a number again when it has been written down as bits. -/
theorem isNaN_unpack_pack (spec : Float.Model.Format) {u : UnpackedFloat} (h : u.isNaN = false) :
    (UnpackedFloat.unpack spec (UnpackedFloat.pack spec u)).isNaN = false := by
  apply isNaN_unpack_eq_false
  fun_cases UnpackedFloat.pack with
  | case1 => simp [UnpackedFloat.isNaN] at h
  | case2 s => simp [UnpackedFloat.packedInfinity]
  | case3 s => simp [UnpackedFloat.packedZero]
  | case4 s m e hm biased hlarge => simp [UnpackedFloat.packedInfinity]
  | case5 s m e hm bits biased hfits hnormal =>
    intro hexponent
    rw [UnpackedFloat.unpackExponent_packComponents, BitVec.neg_one_eq_allOnes, ← BitVec.toNat_inj,
      BitVec.toNat_allOnes, BitVec.toNat_ofNat, Nat.mod_eq_of_lt (by omega)] at hexponent
    omega
  | case6 s m e hm bits biased hfits hsmall =>
    intro hexponent
    rw [UnpackedFloat.unpackExponent_packComponents] at hexponent
    exact absurd hexponent (zero_ne_allOnes spec.he)

/-! ## What is worked out -/

variable (spec : Float.Model.Format)

theorem isNaN_roundWithAccuracy (sign : UnpackedFloat.Sign) (mantissa : Nat) (exponent : Int)
    (accuracy : UnpackedFloat.Accuracy) :
    (UnpackedFloat.roundWithAccuracy spec sign mantissa exponent accuracy).isNaN = false := by
  fun_cases UnpackedFloat.roundWithAccuracy <;> rfl

theorem isNaN_normalize (mantissa exponent : Int) (sign : UnpackedFloat.Sign) :
    (UnpackedFloat.normalize spec mantissa exponent sign).isNaN = false := by
  unfold UnpackedFloat.normalize
  split
  · exact isNaN_roundWithAccuracy _ _ _ _ _
  · rfl
  · exact isNaN_roundWithAccuracy _ _ _ _ _

/-- A number that is neither zero nor infinite. -/
def IsOrdinary : UnpackedFloat → Prop
  | .finite _ _ _ _ => True
  | _ => False

instance : DecidablePred IsOrdinary := fun u => by
  cases u <;> simp only [IsOrdinary] <;> infer_instance

/-- A number times an ordinary one is a number. -/
theorem isNaN_mul {a b : UnpackedFloat} (ha : a.isNaN = false) (hb : IsOrdinary b) :
    (UnpackedFloat.mul spec a b).isNaN = false := by
  cases b with
  | finite t n f =>
    cases a with
    | notANumber => simp [UnpackedFloat.isNaN] at ha
    | finite s m e => exact isNaN_roundWithAccuracy _ _ _ _ _
    | infinity s | zero s => rfl
  | _ => exact hb.elim

/-- A number divided by an ordinary one is a number. -/
theorem isNaN_div {a b : UnpackedFloat} (ha : a.isNaN = false) (hb : IsOrdinary b) :
    (UnpackedFloat.div spec a b).isNaN = false := by
  cases b with
  | finite t n f =>
    cases a with
    | notANumber => simp [UnpackedFloat.isNaN] at ha
    | finite s m e => exact isNaN_roundWithAccuracy _ _ _ _ _
    | infinity s | zero s => rfl
  | _ => exact hb.elim

theorem isNaN_neg {a : UnpackedFloat} (ha : a.isNaN = false) : a.neg.isNaN = false := by
  cases a <;> first | rfl | simp [UnpackedFloat.isNaN] at ha

theorem isNaN_ofScientific (digits : Nat) (exponent : Int) :
    (UnpackedFloat.ofScientific spec digits exponent).isNaN = false := by
  fun_cases UnpackedFloat.ofScientific with
  | case4 => exact isNaN_mul spec rfl trivial
  | case5 => exact isNaN_div spec rfl trivial
  | _ => rfl

theorem isOrdinary_powersOfTen :
    ∀ x ∈ Float.exactlyRepresentablePowersOfTen, IsOrdinary x.toModel.unpack := by
  decide +kernel

theorem isOrdinary_powersOfTen32 :
    ∀ x ∈ Float32.exactlyRepresentablePowersOfTen, IsOrdinary x.toModel.unpack := by
  decide +kernel

theorem isNaN_pack {u : UnpackedFloat} (h : u.isNaN = false) :
    (Float32.ofModel (.pack u)).isNaN = false :=
  isNaN_unpack_pack .binary32 h

theorem isNaN_pack64 {u : UnpackedFloat} (h : u.isNaN = false) :
    (Float.ofModel (.pack u)).isNaN = false :=
  isNaN_unpack_pack .binary64 h

/-- Digits with a power of ten make a number. -/
theorem isNaN_scientific64 (digits : Nat) (negative : Bool) (places : Nat) :
    (Float.ofScientific digits negative places).isNaN = false := by
  unfold Float.ofScientific
  split
  · rename_i hsmall
    have hdigits : (UnpackedFloat.unpack .binary64 (UnpackedFloat.pack .binary64
        (.ofUInt64 .binary64 digits.toUInt64))).isNaN = false :=
      isNaN_unpack_pack _ (isNaN_normalize _ _ _ _)
    have hpower := isOrdinary_powersOfTen _ (Array.getElem_mem (Nat.lt_succ_of_le hsmall.2))
    split
    · exact isNaN_pack64 (isNaN_div _ hdigits hpower)
    · exact isNaN_pack64 (isNaN_mul _ hdigits hpower)
  · exact isNaN_pack64 (isNaN_ofScientific _ _ _)

theorem isNaN_ofNat (n : Nat) : (Float32.ofNat n).isNaN = false := by
  change (Float32.ofScientific n false 0).isNaN = false
  unfold Float32.ofScientific
  split
  · have hdigits : (UnpackedFloat.unpack .binary32 (UnpackedFloat.pack .binary32
        (.ofUInt64 .binary32 n.toUInt64))).isNaN = false :=
      isNaN_unpack_pack _ (isNaN_normalize _ _ _ _)
    have hone := isOrdinary_powersOfTen32 _ (Array.getElem_mem (Nat.zero_lt_succ 10))
    exact isNaN_pack (isNaN_mul _ hdigits hone)
  · exact isNaN_pack (isNaN_ofScientific _ _ _)

theorem isNaN_ofInt (n : Int) : (Float32.ofInt n).isNaN = false := by
  cases n with
  | ofNat n => exact isNaN_ofNat n
  | negSucc n => exact isNaN_pack (isNaN_neg (isNaN_ofNat (n + 1)))

/-- A number stays one when it is rounded to binary32. -/
theorem isNaN_narrow {x : Float} (h : x.isNaN = false) : (Decimal.narrow x).isNaN = false := by
  have hbits : ∀ u : UnpackedFloat, u.isNaN = false →
      (Float32.ofBits ⟨UnpackedFloat.pack .binary32 u⟩).isNaN = false :=
    fun u hu => isNaN_pack (isNaN_unpack_pack .binary32 hu)
  have hx : (UnpackedFloat.unpack .binary64 x.toBits.toBitVec).isNaN = false := h
  unfold Decimal.narrow
  generalize UnpackedFloat.unpack .binary64 x.toBits.toBitVec = u at hx
  cases u with
  | finite sign mantissa exponent => exact hbits _ (isNaN_roundWithAccuracy _ _ _ _ _)
  | _ => exact hbits _ hx

theorem isNaN_toBinary64 (d : Decimal) : d.toBinary64.isNaN = false := by
  have hsize := isNaN_scientific64 d.digits (d.exponent < 0) d.exponent.natAbs
  unfold Decimal.toBinary64
  split
  · exact isNaN_pack64 (isNaN_neg hsize)
  · exact hsize

/-! ## What is cut off -/

/-- A binary32 number has 24 binary digits. -/
theorem significand_lt {bits : BitVec Float.Model.Format.binary32.numBits}
    {sign : UnpackedFloat.Sign} {mantissa : Nat} {exponent : Int} {hpos : 0 < mantissa}
    (h : UnpackedFloat.unpack .binary32 bits = .finite sign mantissa exponent hpos) :
    mantissa < 2 ^ 24 := by
  have hbits := (UnpackedFloat.unpackMantissa bits).isLt
  revert h
  fun_cases UnpackedFloat.unpack with
  | case4 =>
    intro h
    obtain ⟨_, rfl, _⟩ := UnpackedFloat.finite.inj h
    exact Nat.lt_trans hbits (by decide)
  | case5 =>
    intro h
    obtain ⟨_, rfl, _⟩ := UnpackedFloat.finite.inj h
    exact BitVec.isLt _
  | _ => simp

/-- Shifting to the right halves the significand, once for each place. -/
theorem mantissa_shiftRight (extended : UnpackedFloat.ExtendedMantissa) (n : Nat) :
    (extended >>> n).mantissa = extended.mantissa / 2 ^ n := by
  change (n.repeat UnpackedFloat.ExtendedMantissa.shiftRightOne extended).mantissa = _
  induction n with
  | zero => simp [Nat.repeat]
  | succ n ih =>
    rw [Nat.repeat, UnpackedFloat.ExtendedMantissa.shiftRightOne]
    simp only [ih, Nat.div_div_eq_div_mul, Nat.pow_succ]

theorem roundToInt_of_nonpos (sign : UnpackedFloat.Sign) (mantissa : Nat) {exponent : Int}
    (h : exponent ≤ 0) : UnpackedFloat.roundToInt sign mantissa exponent =
      sign.apply (mantissa / 2 ^ (-exponent).toNat : Nat) := by
  have hshift : (exponent - 0).toNat = 0 := by omega
  have hplaces : (0 - (exponent - (0 : Nat))).toNat = (-exponent).toNat := by omega
  simp only [UnpackedFloat.roundToInt, UnpackedFloat.decreaseExponent,
    UnpackedFloat.shiftToExponent, hshift, hplaces, mantissa_shiftRight,
    UnpackedFloat.ExtendedMantissa.ofMantissaAndAccuracy, Nat.shiftLeft_zero]

/-- What is not above a number with a fraction has no more in front of the point than that. -/
theorem toInt_le {x : Float32} {mantissa : Nat} {exponent : Int} {hpos : 0 < mantissa} (high : Int)
    (hexponent : exponent ≤ 0) (hnormal : 2 ^ 23 ≤ mantissa)
    (h : (UnpackedFloat.finite .positive mantissa exponent hpos).compare x.toModel.unpack ≠
      some .lt) :
    x.toModel.unpack.toInt 0 high ≤ (mantissa / 2 ^ (-exponent).toNat : Nat) := by
  cases hx : x.toModel.unpack with
  | notANumber | zero s => exact Int.natCast_nonneg _
  | infinity s =>
    cases s with
    | negative => exact Int.natCast_nonneg _
    | positive => simp [hx, UnpackedFloat.compare] at h
  | finite s n f hn =>
    cases s with
    | negative =>
      exact Int.le_trans (Int.neg_nonpos_of_nonneg (Int.natCast_nonneg _)) (Int.natCast_nonneg _)
    | positive =>
      have hsmall : n < 2 ^ 24 := significand_lt hx
      rw [hx] at h
      have horder : (compare exponent f).then (compare mantissa n) ≠ .lt := fun heq =>
        h (congrArg some heq)
      rw [ne_eq, Ordering.then_eq_lt, Int.compare_eq_lt, Int.compare_eq_eq, Nat.compare_eq_lt]
        at horder
      rw [UnpackedFloat.toInt, roundToInt_of_nonpos _ _ (by omega), UnpackedFloat.Sign.apply]
      apply Int.ofNat_le.mpr
      -- the exponent is the same, or it is smaller and then one place is more than enough
      rcases Int.lt_trichotomy f exponent with hlt | rfl | hgt
      · obtain ⟨k, hk⟩ : ∃ k, (-f).toNat = (-exponent).toNat + 1 + k :=
          ⟨(-f).toNat - ((-exponent).toNat + 1), by omega⟩
        calc n / 2 ^ (-f).toNat ≤ n / 2 ^ ((-exponent).toNat + 1) :=
              Nat.div_le_div_left (Nat.pow_le_pow_right (by decide) (by omega)) (Nat.two_pow_pos _)
          _ = n / 2 / 2 ^ (-exponent).toNat := by rw [Nat.pow_succ', Nat.div_div_eq_div_mul]
          _ ≤ mantissa / 2 ^ (-exponent).toNat := Nat.div_le_div_right (by omega)
      · exact Nat.div_le_div_right (by omega)
      · omega

end Binary32

/-- Every numeral but NaN stands for a number, as far as it stands for any. -/
theorem Numeral.isNaN_toBinary32? {n : Numeral} {x : Float32} (hn : n ≠ .notANumber)
    (h : n.toBinary32? = some x) : x.isNaN = false := by
  cases n with
  | whole n =>
    obtain rfl := Option.some.inj h
    exact Binary32.isNaN_ofInt n
  | scaled d =>
    simp only [toBinary32?, Decimal.toBinary32?] at h
    split at h
    · cases h
    · obtain rfl := Option.some.inj h
      exact Binary32.isNaN_narrow (Binary32.isNaN_toBinary64 d)
  | infinite negative =>
    obtain rfl := Option.some.inj h
    cases negative <;> decide +kernel
  | notANumber => exact absurd rfl hn

end DryKiln
