-- Where the binary32 numbers lie. All finite ones are whole multiples of the smallest positive one,
-- so each has a place among the whole numbers; the infinities have theirs far beyond. Numbers are
-- ordered as their places are, and a number that is written down as bits is read as itself.
import DryKiln.Proofs.Decimal.Binary32

open Float.Model

namespace DryKiln
namespace Binary32

/-! ## Places -/

/-- The first whole multiple of the smallest number that is too large to be finite. -/
def top : Nat := 2 ^ 24 * 2 ^ 253

/-- A significand and an exponent as a multiple of the smallest number. -/
def size (m : Nat) (e : Int) : Nat := m * 2 ^ (e + 149).toNat

/-- How many times the smallest number makes this one. An infinity is so far beyond the finite
numbers that none of them brings it back. -/
def place : UnpackedFloat → Int
  | .notANumber | .zero _ => 0
  | .infinity s => s.apply (4 * top : Nat)
  | .finite s m e _ => s.apply (size m e)

/-- A significand of 24 binary digits, or of fewer with the smallest exponent. -/
def IsNormal (m : Nat) (e : Int) : Prop := m < 2 ^ 24 ∧ -149 ≤ e ∧ (2 ^ 23 ≤ m ∨ e = -149)

/-- A number as it is read from bits. -/
def IsSettled : UnpackedFloat → Prop
  | .finite _ m e _ => IsNormal m e ∧ e ≤ 104
  | _ => True

theorem toNat_hidden {w : Nat} (v : BitVec w) : (1#1 ++ v).toNat = 2 ^ w + v.toNat := by
  have h := Nat.two_pow_add_eq_or_of_lt v.isLt 1
  rw [Nat.mul_one] at h
  rw [BitVec.toNat_append, BitVec.toNat_ofNat, Nat.shiftLeft_eq, Nat.one_mod, Nat.one_mul, h]

theorem isSettled_unpack (bits : BitVec Format.binary32.numBits) :
    IsSettled (UnpackedFloat.unpack .binary32 bits) := by
  have hbias : (Format.binary32.exponentBias : Int) = 127 := rfl
  have hwidth : ((Format.binary32.mantissaBitsWithoutImplicit : Nat) : Int) = 23 := rfl
  fun_cases UnpackedFloat.unpack with
  | case1 | case2 | case3 => trivial
  | case4 mantissa exponent power bit sign _ hzero hne =>
    have hdigits : mantissa.toNat < 2 ^ 23 := mantissa.isLt
    have hpower : power = -150 := by
      have : exponent.toNat = 0 := congrArg BitVec.toNat hzero
      omega
    exact ⟨⟨by omega, by omega, Or.inr (by omega)⟩, by omega⟩
  | case5 mantissa exponent power bit sign hfinite hne =>
    have hdigits : mantissa.toNat < 2 ^ 23 := mantissa.isLt
    have hexponent : exponent.toNat < 2 ^ 8 := exponent.isLt
    have hhidden : (1#1 ++ mantissa).toNat = 2 ^ 23 + mantissa.toNat := toNat_hidden mantissa
    have hlow : exponent.toNat ≠ 0 := fun heq => hne (BitVec.eq_of_toNat_eq heq)
    have hhigh : exponent.toNat ≠ 255 := fun heq => hfinite (BitVec.eq_of_toNat_eq heq)
    exact ⟨⟨by omega, by omega, Or.inl (by omega)⟩, by omega⟩

theorem isSettled (x : Float32) : IsSettled x.toModel.unpack := isSettled_unpack _

/-! ## The order of the places -/

/-- One exponent more is worth more than any significand. -/
theorem size_lt_size {m n : Nat} {e f : Int} (hm : IsNormal m e) (hn : IsNormal n f)
    (h : e < f) : size m e < size n f := by
  obtain ⟨hm, he, -⟩ := hm
  obtain ⟨-, -, hn⟩ := hn
  calc m * 2 ^ (e + 149).toNat < 2 ^ 24 * 2 ^ (e + 149).toNat :=
        Nat.mul_lt_mul_of_pos_right hm (Nat.two_pow_pos _)
    _ = 2 ^ 23 * 2 ^ ((e + 149).toNat + 1) := by ring
    _ ≤ n * 2 ^ (f + 149).toNat :=
        Nat.mul_le_mul (by omega) (Nat.pow_le_pow_right (by decide) (by omega))

/-- Exponents first and then significands is the order of the numbers themselves. -/
theorem lexicographic_eq {m n : Nat} {e f : Int} (hm : IsNormal m e) (hn : IsNormal n f) :
    (compare e f).then (compare m n) = compare (size m e) (size n f) := by
  rcases Int.lt_trichotomy e f with hlt | rfl | hgt
  · rw [Int.compare_eq_lt.mpr hlt, Nat.compare_eq_lt.mpr (size_lt_size hm hn hlt)]
    rfl
  · rw [Int.compare_eq_eq.mpr rfl, Ordering.then, Nat.compare_eq_ite_lt, Nat.compare_eq_ite_lt]
    simp only [size, Nat.mul_lt_mul_right (Nat.two_pow_pos _)]
  · rw [Int.compare_eq_gt.mpr hgt, Nat.compare_eq_gt.mpr (size_lt_size hn hm hgt)]
    rfl

/-- A finite number is not zero, and lies below the infinities. -/
theorem size_bounds {m : Nat} {e : Int} (hpos : 0 < m) (hm : IsNormal m e) (he : e ≤ 104) :
    0 < size m e ∧ size m e < top := by
  refine ⟨Nat.mul_pos hpos (Nat.two_pow_pos _), ?_⟩
  calc m * 2 ^ (e + 149).toNat < 2 ^ 24 * 2 ^ (e + 149).toNat :=
        Nat.mul_lt_mul_of_pos_right hm.1 (Nat.two_pow_pos _)
    _ ≤ top := Nat.mul_le_mul_left _ (Nat.pow_le_pow_right (by decide) (by omega))

theorem top_pos : 0 < top := Nat.mul_pos (Nat.two_pow_pos _) (Nat.two_pow_pos _)

/-- Numbers are ordered as their places are. -/
theorem compare_eq_lt_iff {u v : UnpackedFloat} (hu : IsSettled u) (hv : IsSettled v)
    (hunan : u.isNaN = false) (hvnan : v.isNaN = false) :
    u.compare v = some .lt ↔ place u < place v := by
  have htop := top_pos
  rcases u with s | _ | s | ⟨s, m, e, hm⟩ <;> rcases v with t | _ | t | ⟨t, n, f, hn⟩ <;>
    simp only [UnpackedFloat.isNaN, Bool.true_eq_false] at hunan hvnan
  case finite.finite =>
    have hmsize := size_bounds hm hu.1 hu.2
    have hnsize := size_bounds hn hv.1 hv.2
    cases s <;> cases t <;>
      simp only [UnpackedFloat.compare, place, UnpackedFloat.Sign.apply,
        lexicographic_eq hu.1 hv.1, Option.some.injEq, Ordering.swap_eq_lt, Nat.compare_eq_lt,
        Nat.compare_eq_gt, reduceCtorEq, true_iff, false_iff] <;> omega
  case finite.infinity | finite.zero =>
    have hmsize := size_bounds hm hu.1 hu.2
    cases s <;> cases t <;>
      simp only [UnpackedFloat.compare, place, UnpackedFloat.Sign.apply, Option.some.injEq,
        reduceCtorEq, true_iff, false_iff] <;> omega
  case infinity.finite | zero.finite =>
    have hnsize := size_bounds hn hv.1 hv.2
    cases s <;> cases t <;>
      simp only [UnpackedFloat.compare, place, UnpackedFloat.Sign.apply, Option.some.injEq,
        reduceCtorEq, true_iff, false_iff] <;> omega
  all_goals
    cases s <;> cases t <;>
      simp only [UnpackedFloat.compare, place, UnpackedFloat.Sign.apply, Option.some.injEq,
        compare, reduceCtorEq, true_iff, false_iff] <;> omega

/-! ## Bits -/

theorem ofBitVec_unpackSign {spec : Float.Model.Format} (s : UnpackedFloat.Sign)
    (e : BitVec spec.exponentBits) (m : BitVec spec.mantissaBitsWithoutImplicit) :
    UnpackedFloat.Sign.ofBitVec (UnpackedFloat.unpackSign
      (UnpackedFloat.packComponents spec s e m)) = s := by
  have hbit : UnpackedFloat.unpackSign (UnpackedFloat.packComponents spec s e m) =
      s.toBitVec := by
    ext i hi
    obtain rfl : i = 0 := by omega
    simp [UnpackedFloat.unpackSign, UnpackedFloat.packComponents, BitVec.getLsbD_append,
      BitVec.getElem_append]
  rw [hbit]
  cases s <;> rfl

theorem log2_normal {m : Nat} (hpos : 0 < m) (hm : m < 2 ^ 24) : m.log2 = 23 ↔ 2 ^ 23 ≤ m := by
  have hne : m ≠ 0 := by omega
  have hlow := Nat.le_log2 hne (k := 23)
  have hhigh := (Nat.log2_lt hne (k := 24)).mpr hm
  omega

theorem unpack_components (s : UnpackedFloat.Sign) (e : BitVec 8) (m : BitVec 23) (power : Int)
    (hfinite : e.toNat ≠ 255) (hlarge : e.toNat ≠ 0) (hpower : power = e.toNat - 150) :
    UnpackedFloat.unpack .binary32 (UnpackedFloat.packComponents .binary32 s e m) =
      .finite s (2 ^ 23 + m.toNat) power (by omega) := by
  have hbias : (Format.binary32.exponentBias : Int) = 127 := rfl
  rw [UnpackedFloat.unpack]
  simp only [UnpackedFloat.unpackMantissa_packComponents,
    UnpackedFloat.unpackExponent_packComponents, ofBitVec_unpackSign]
  rw [if_neg (fun heq => hfinite (congrArg BitVec.toNat heq)),
    if_neg (fun heq => hlarge (congrArg BitVec.toNat heq)), UnpackedFloat.finite.injEq]
  exact ⟨rfl, toNat_hidden m, by omega⟩

theorem unpack_components_zero (s : UnpackedFloat.Sign) {m : BitVec 23} (hm : 0 < m.toNat) :
    UnpackedFloat.unpack .binary32 (UnpackedFloat.packComponents .binary32 s 0#8 m) =
      .finite s m.toNat (-149) hm := by
  rw [UnpackedFloat.unpack]
  simp only [UnpackedFloat.unpackMantissa_packComponents,
    UnpackedFloat.unpackExponent_packComponents, ofBitVec_unpackSign]
  rw [if_neg (by decide), if_pos trivial, dif_neg (fun heq => hm.ne' (congrArg BitVec.toNat heq))]
  rfl

/-- A number that is normal is read again as itself, or as an infinity if it is too large. -/
theorem unpack_pack_finite (s : UnpackedFloat.Sign) {m : Nat} {e : Int} (hm : 0 < m)
    (h : IsNormal m e) :
    UnpackedFloat.unpack .binary32 (UnpackedFloat.pack .binary32 (.finite s m e hm)) =
      if e ≤ 104 then .finite s m e hm else .infinity s := by
  obtain ⟨hdigits, hlow, hleast⟩ := h
  have hbias : (Format.binary32.exponentBias : Int) = 127 := rfl
  have hpower : (e + Format.binary32.exponentBias + (23 : Nat)).toNat = (e + 150).toNat := by omega
  have hwidth : Format.binary32.mantissaBits = 24 := rfl
  have hlog := log2_normal hm hdigits
  rw [UnpackedFloat.pack]
  simp only [hpower, hwidth]
  by_cases hhigh : e ≤ 104
  · rw [if_pos hhigh, if_neg (by omega)]
    by_cases hnormal : 2 ^ 23 ≤ m
    · have hexponent : (BitVec.ofNat 8 (e + 150).toNat).toNat = (e + 150).toNat :=
        Nat.mod_eq_of_lt (by omega)
      have hmantissa : (BitVec.ofNat 23 m).toNat = m - 2 ^ 23 := by
        rw [BitVec.toNat_ofNat]
        omega
      rw [if_pos (by omega), unpack_components s _ _ e (by omega) (by omega) (by omega),
        UnpackedFloat.finite.injEq]
      exact ⟨rfl, by omega, rfl⟩
    · have hmantissa : (BitVec.ofNat 23 m).toNat = m := Nat.mod_eq_of_lt (by omega)
      rw [if_neg (by omega), unpack_components_zero s (by omega), UnpackedFloat.finite.injEq]
      exact ⟨rfl, hmantissa, by omega⟩
  · rw [if_neg hhigh, if_pos (by omega)]
    cases s <;> rfl

theorem unpack_pack {u : UnpackedFloat} (h : IsSettled u) :
    UnpackedFloat.unpack .binary32 (UnpackedFloat.pack .binary32 u) = u := by
  rcases u with s | _ | s | ⟨s, m, e, hm⟩
  · cases s <;> rfl
  · rfl
  · cases s <;> rfl
  · rw [unpack_pack_finite s hm h.1, if_pos h.2]

/-! ## Ranks -/

/-- The place of a number among all numbers. -/
def rank (x : Float32) : Int := place x.toModel.unpack

theorem isNaN_of_lt {a b : Float32} (h : a < b) : a.isNaN = false ∧ b.isNaN = false := by
  rw [lt_iff] at h
  rw [isNaN_eq, isNaN_eq]
  generalize a.toModel.unpack = x, b.toModel.unpack = y at h
  cases x <;> cases y <;> simp_all [UnpackedFloat.compare, UnpackedFloat.isNaN]

/-- To be less is to be a number of lower rank than another number. -/
theorem lt_iff_rank {a b : Float32} :
    a < b ↔ a.isNaN = false ∧ b.isNaN = false ∧ rank a < rank b := by
  have hiff := fun ha hb => (lt_iff a b).trans (compare_eq_lt_iff (isSettled a) (isSettled b) ha hb)
  refine ⟨fun h => ?_, fun ⟨ha, hb, h⟩ => (hiff ha hb).mpr h⟩
  obtain ⟨ha, hb⟩ := isNaN_of_lt h
  exact ⟨ha, hb, (hiff ha hb).mp h⟩

theorem le_iff_rank {a b : Float32} :
    a ≤ b ↔ a.isNaN = false ∧ b.isNaN = false ∧ rank a ≤ rank b := by
  constructor
  · intro h
    obtain ⟨ha, hb⟩ := isNaN_of_le h
    obtain ⟨order, hab, hba⟩ := compare_swap ha hb
    refine ⟨ha, hb, Int.not_lt.mp fun hlt => ?_⟩
    have hlt := lt_iff_rank.mpr ⟨hb, ha, hlt⟩
    rw [lt_iff, hba, Option.some.injEq, Ordering.swap_eq_lt] at hlt
    rw [le_iff, hab, hlt] at h
    exact absurd h (by decide)
  · rintro ⟨ha, hb, h⟩
    exact le_of_not_lt ha hb fun hlt => Int.not_lt.mpr h (lt_iff_rank.mp hlt).2.2

theorem le_self {a : Float32} (h : a.isNaN = false) : a ≤ a :=
  le_iff_rank.mpr ⟨h, h, Int.le_refl _⟩

theorem le_of_lt {a b : Float32} (h : a < b) : a ≤ b := by
  obtain ⟨ha, hb, h⟩ := lt_iff_rank.mp h
  exact le_iff_rank.mpr ⟨ha, hb, Int.le_of_lt h⟩

/-- Nothing is below a NaN. -/
theorem not_lt_of_isNaN {a b : Float32} (h : b.isNaN = true) : ¬ a < b := fun hlt =>
  Bool.false_ne_true ((isNaN_of_lt hlt).2.symm.trans h)

theorem lt_of_lt_of_le {a b c : Float32} (hab : a < b) (hbc : b ≤ c) : a < c := by
  obtain ⟨ha, -, hab⟩ := lt_iff_rank.mp hab
  obtain ⟨-, hc, hbc⟩ := le_iff_rank.mp hbc
  exact lt_iff_rank.mpr ⟨ha, hc, Int.lt_of_lt_of_le hab hbc⟩

theorem lt_of_le_of_lt {a b c : Float32} (hab : a ≤ b) (hbc : b < c) : a < c := by
  obtain ⟨ha, -, hab⟩ := le_iff_rank.mp hab
  obtain ⟨-, hc, hbc⟩ := lt_iff_rank.mp hbc
  exact lt_iff_rank.mpr ⟨ha, hc, Int.lt_of_le_of_lt hab hbc⟩

end Binary32
end DryKiln
