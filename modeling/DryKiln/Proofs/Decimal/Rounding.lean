-- Rounding to 24 binary digits. What the arithmetic of binary32 does by shifting is division by a
-- power of two with the quotient rounded to the nearest even number, and the larger of two numbers
-- is never rounded below the smaller.
import DryKiln.Proofs.Decimal.Grid
import DryKiln.Decimal.Shortest

open Float.Model

namespace DryKiln

/-! ## Rounded quotients -/

namespace Decimal

theorem roundQuotient_bounds (tie : Tie) (n d : Nat) :
    n / d ≤ roundQuotient tie n d ∧ roundQuotient tie n d ≤ n / d + 1 := by
  unfold roundQuotient
  grind

theorem roundQuotient_mono (tie : Tie) {n n' : Nat} (d : Nat) (h : n ≤ n') :
    roundQuotient tie n d ≤ roundQuotient tie n' d := by
  have hquotient : n / d ≤ n' / d := Nat.div_le_div_right h
  by_cases heq : n / d = n' / d
  · -- the same whole part, and no smaller a rest
    have hn := Nat.div_add_mod n d
    have hn' := Nat.div_add_mod n' d
    have hrest : n % d ≤ n' % d := by rw [heq] at hn; omega
    unfold roundQuotient
    grind
  · have := (roundQuotient_bounds tie n d).2
    have := (roundQuotient_bounds tie n' d).1
    omega

theorem roundQuotient_mul_right (tie : Tie) (n d : Nat) {c : Nat} (h : 0 < c) :
    roundQuotient tie (n * c) (d * c) = roundQuotient tie n d := by
  have hhalf : ∀ a b : Nat, 2 * (a * c) < b * c ↔ 2 * a < b := fun a b => by
    rw [← Nat.mul_assoc, Nat.mul_lt_mul_right h]
  have hhalf' : ∀ a b : Nat, b * c < 2 * (a * c) ↔ b < 2 * a := fun a b => by
    rw [← Nat.mul_assoc, Nat.mul_lt_mul_right h]
  simp only [roundQuotient, Nat.mul_div_mul_right _ _ h, Nat.mul_mod_mul_right, hhalf, hhalf']

/-- A quotient without a rest needs no rounding. -/
theorem roundQuotient_mul_self (tie : Tie) (n : Nat) {d : Nat} (h : 0 < d) :
    roundQuotient tie (n * d) d = n := by
  simp [roundQuotient, Nat.mul_div_cancel _ h, h]

end Decimal

namespace Binary32

/-! ## Shifts -/

open UnpackedFloat (ExtendedMantissa)

/-- What is left of a significand after some of its digits have been shifted out. -/
def shifted (m k : Nat) : ExtendedMantissa := ExtendedMantissa.ofMantissaAndAccuracy m .exact >>> k

theorem shifted_succ (m k : Nat) : shifted m (k + 1) = (shifted m k).shiftRightOne := rfl

theorem mantissa_shifted (m k : Nat) : (shifted m k).mantissa = m / 2 ^ k :=
  mantissa_shiftRight _ k

/-- The two bits behind the significand tell whether anything is there. -/
theorem rest_shifted (m k : Nat) :
    ((shifted m k).roundBit || (shifted m k).stickyBit) = decide (m % 2 ^ k ≠ 0) := by
  induction k with
  | zero => simp [shifted, HShiftRight.hShiftRight, Nat.repeat,
      ExtendedMantissa.ofMantissaAndAccuracy, Nat.mod_one]
  | succ k ih =>
    rw [shifted_succ, ExtendedMantissa.shiftRightOne, ih, mantissa_shifted, Nat.mod_pow_succ]
    rcases Nat.mod_two_eq_zero_or_one (m / 2 ^ k) with h | h <;> simp [h]

/-- Shifting with the last bits in view is dividing and rounding. -/
theorem roundedMantissa_shifted (m k : Nat) :
    (shifted m k).roundedMantissa = Decimal.roundQuotient .toEven m (2 ^ k) := by
  cases k with
  | zero =>
    have := Decimal.roundQuotient_mul_self .toEven m Nat.one_pos
    rw [Nat.mul_one] at this
    exact this.symm
  | succ k =>
    have hpow := Nat.two_pow_pos k
    have hless := Nat.mod_lt m hpow
    have hwhole : m / 2 ^ k / 2 = m / 2 ^ (k + 1) := by rw [Nat.div_div_eq_div_mul, Nat.pow_succ]
    have hdouble : 2 ^ (k + 1) = 2 * 2 ^ k := by ring
    rw [shifted_succ, ExtendedMantissa.shiftRightOne, mantissa_shifted, rest_shifted, hwhole,
      Decimal.roundQuotient, Nat.mod_pow_succ]
    generalize m / 2 ^ (k + 1) = whole
    -- the digit shifted out last decides, unless nothing is left behind it
    rcases Nat.mod_two_eq_zero_or_one (m / 2 ^ k) with h | h <;> rw [h, hdouble] <;>
      by_cases hzero : m % 2 ^ k = 0
    · rw [if_pos (by omega), hzero]
      rfl
    · rw [if_pos (by omega), decide_eq_true hzero]
      rfl
    · rw [if_neg (by omega), if_neg (by omega), hzero]
      change whole + whole % 2 = if whole % 2 = 0 then whole else whole + 1
      split <;> omega
    · rw [if_neg (by omega), if_pos (by omega), decide_eq_true hzero]
      rfl

/-! ## Whole numbers with 24 binary digits -/

/-- The first 24 binary digits of a whole number, rounded. -/
def digits (n : Nat) : Nat := Decimal.roundQuotient .toEven n (2 ^ (n.log2 - 23))

/-- A whole number rounded to 24 binary digits. -/
def rounded (n : Nat) : Nat := digits n * 2 ^ (n.log2 - 23)

theorem lt_two_pow_log2 (n : Nat) : n < 2 ^ 24 * 2 ^ (n.log2 - 23) := by
  calc n < 2 ^ (n.log2 + 1) := Nat.lt_log2_self
    _ ≤ 2 ^ (24 + (n.log2 - 23)) := Nat.pow_le_pow_right (by decide) (by omega)
    _ = 2 ^ 24 * 2 ^ (n.log2 - 23) := Nat.pow_add ..

theorem two_pow_log2_le {n : Nat} (h : 23 ≤ n.log2) : 2 ^ 23 * 2 ^ (n.log2 - 23) ≤ n := by
  have hne : n ≠ 0 := by rintro rfl; simp at h
  calc 2 ^ 23 * 2 ^ (n.log2 - 23) = 2 ^ n.log2 := by rw [← Nat.pow_add]; congr 1; omega
    _ ≤ n := Nat.log2_self_le hne

/-- Rounding does not lead beyond the next power of two. -/
theorem digits_le (n : Nat) : digits n ≤ 2 ^ 24 := by
  have hquotient : n / 2 ^ (n.log2 - 23) < 2 ^ 24 :=
    (Nat.div_lt_iff_lt_mul (Nat.two_pow_pos _)).mpr (lt_two_pow_log2 n)
  have hround := (Decimal.roundQuotient_bounds .toEven n (2 ^ (n.log2 - 23))).2
  rw [digits]
  omega

/-- Rounding does not lead below the power of two before it. -/
theorem le_digits {n : Nat} (h : 23 ≤ n.log2) : 2 ^ 23 ≤ digits n := by
  have hquotient : 2 ^ 23 ≤ n / 2 ^ (n.log2 - 23) :=
    (Nat.le_div_iff_mul_le (Nat.two_pow_pos _)).mpr (two_pow_log2_le h)
  exact Nat.le_trans hquotient (Decimal.roundQuotient_bounds .toEven n (2 ^ (n.log2 - 23))).1

/-- A number of 24 binary digits or less has no others. -/
theorem digits_of_log2_le {n : Nat} (h : n.log2 ≤ 23) : digits n = n := by
  have hself := Decimal.roundQuotient_mul_self .toEven n Nat.one_pos
  rw [Nat.mul_one] at hself
  rw [digits, Nat.sub_eq_zero_of_le h, Nat.pow_zero, hself]

/-- The larger of two numbers is not rounded below the smaller. -/
theorem rounded_mono {n n' : Nat} (h : n ≤ n') : rounded n ≤ rounded n' := by
  have hlog : n.log2 ≤ n'.log2 := by
    rw [Nat.log2_eq_log_two, Nat.log2_eq_log_two]
    exact Nat.log_mono_right h
  rcases Nat.lt_or_ge (n.log2 - 23) (n'.log2 - 23) with hlt | hge
  · -- a power of two lies between them
    calc rounded n ≤ 2 ^ 24 * 2 ^ (n.log2 - 23) := Nat.mul_le_mul_right _ (digits_le n)
      _ = 2 ^ 23 * 2 ^ (n.log2 - 23 + 1) := by ring
      _ ≤ 2 ^ 23 * 2 ^ (n'.log2 - 23) :=
          Nat.mul_le_mul_left _ (Nat.pow_le_pow_right (by decide) hlt)
      _ ≤ rounded n' := Nat.mul_le_mul_right _ (le_digits (by omega))
  · have heq : n.log2 - 23 = n'.log2 - 23 := by omega
    rw [rounded, rounded, digits, digits, heq]
    exact Nat.mul_le_mul_right _ (Decimal.roundQuotient_mono .toEven _ h)

theorem log2_mul_two_pow {m : Nat} (hm : 0 < m) (j : Nat) : (m * 2 ^ j).log2 = m.log2 + j := by
  induction j with
  | zero => simp
  | succ j ih =>
    have hne : m * 2 ^ j ≠ 0 := (Nat.mul_pos hm (Nat.two_pow_pos j)).ne'
    rw [Nat.pow_succ', Nat.mul_left_comm, Nat.log2_two_mul hne, ih, Nat.add_assoc]

/-- Rounding sees the digits, not where the point is. -/
theorem rounded_mul_two_pow {m j : Nat} (hm : 0 < m) (h : 23 ≤ m.log2 ∨ j = 0) :
    rounded (m * 2 ^ j) = rounded m * 2 ^ j := by
  have hplaces : (m * 2 ^ j).log2 - 23 = m.log2 - 23 + j := by rw [log2_mul_two_pow hm]; omega
  rw [rounded, rounded, digits, digits, hplaces, Nat.pow_add,
    Decimal.roundQuotient_mul_right _ _ _ (Nat.two_pow_pos j), Nat.mul_assoc]

/-- A number that has 24 binary digits already stays. -/
theorem rounded_of_log2_le {n : Nat} (h : n.log2 ≤ 23) : rounded n = n := by
  rw [rounded, digits_of_log2_le h, Nat.sub_eq_zero_of_le h, Nat.pow_zero, Nat.mul_one]

theorem rounded_size {m : Nat} {e : Int} (hm : 0 < m) (h : IsNormal m e) :
    rounded (size m e) = size m e := by
  obtain ⟨hdigits, hlow, hleast⟩ := h
  have hlong := Nat.le_log2 hm.ne' (k := 23)
  have hshort := (Nat.log2_lt hm.ne').mpr hdigits
  rw [size, rounded_mul_two_pow hm (by omega), rounded_of_log2_le (by omega)]

/-! ## Rounding a significand and its exponent -/

/-- The exponent of the last digit is the one that leaves 24 digits, but not less than the smallest
exponent. -/
theorem targetExponent_eq (m : Nat) (e : Int) :
    Format.binary32.targetExponent (totalExponent m e) = max (m.log2 + e - 23) (-149) := by
  have hwidth : (Format.binary32.mantissaBits : Int) = 24 := rfl
  have hleast : Format.binary32.minExponent = -149 := rfl
  rw [Format.targetExponent, totalExponent, hwidth, hleast]
  congr 1
  omega

theorem shiftToTargetExponent_eq (m : Nat) {e : Int} (he : -149 ≤ e) :
    UnpackedFloat.shiftToTargetExponent .binary32 m e .exact =
      (shifted m (m.log2 - 23), e + (m.log2 - 23 : Nat)) := by
  have hplaces : (max (m.log2 + e - 23) (-149) - e).toNat = m.log2 - 23 := by omega
  rw [UnpackedFloat.shiftToTargetExponent, targetExponent_eq, UnpackedFloat.shiftToExponent,
    hplaces]
  rfl

/-- If rounding has made the significand a digit too long, its last digit is zero. -/
theorem second_shift {q : Nat} (hpos : 0 < q) (hq : q ≤ 2 ^ 24) :
    q / 2 ^ (q.log2 - 23) * 2 ^ (q.log2 - 23) = q ∧ q / 2 ^ (q.log2 - 23) < 2 ^ 24 ∧
      (2 ^ 23 ≤ q → 2 ^ 23 ≤ q / 2 ^ (q.log2 - 23)) := by
  rcases Nat.lt_or_ge q (2 ^ 24) with hlt | hge
  · have hlog := (Nat.log2_lt hpos.ne').mpr hlt
    rw [show q.log2 - 23 = 0 by omega, Nat.pow_zero, Nat.div_one, Nat.mul_one]
    exact ⟨rfl, hlt, id⟩
  · obtain rfl : q = 2 ^ 24 := by omega
    rw [Nat.log2_two_pow]
    decide

/-- The significand and the exponent after both shifts. -/
theorem shifted_twice {m : Nat} {e : Int} (hm : 0 < m) (he : -149 ≤ e)
    (h : 23 ≤ m.log2 ∨ e = -149) :
    0 < digits m / 2 ^ ((digits m).log2 - 23) ∧
      IsNormal (digits m / 2 ^ ((digits m).log2 - 23))
        (e + (m.log2 - 23 : Nat) + ((digits m).log2 - 23 : Nat)) ∧
      size (digits m / 2 ^ ((digits m).log2 - 23))
        (e + (m.log2 - 23 : Nat) + ((digits m).log2 - 23 : Nat)) = rounded (size m e) := by
  have hdigits : 2 ^ 23 ≤ digits m ∨ m.log2 < 23 ∧ digits m = m := by
    rcases Nat.lt_or_ge m.log2 23 with hshort | hlong
    · exact Or.inr ⟨hshort, digits_of_log2_le (by omega)⟩
    · exact Or.inl (le_digits hlong)
  have hpos : 0 < digits m := by omega
  obtain ⟨hexact, hless, hmore⟩ := second_shift hpos (digits_le m)
  refine ⟨Nat.pos_of_mul_pos_right (hexact ▸ hpos), ?_, ?_⟩
  · refine ⟨hless, by omega, ?_⟩
    rcases hdigits with hlong | ⟨hshort, hself⟩
    · exact Or.inl (hmore hlong)
    · rw [hself]
      exact Or.inr (by omega)
  · calc size (digits m / 2 ^ ((digits m).log2 - 23))
          (e + (m.log2 - 23 : Nat) + ((digits m).log2 - 23 : Nat))
        = digits m / 2 ^ ((digits m).log2 - 23) * 2 ^ ((digits m).log2 - 23) *
            2 ^ (m.log2 - 23) * 2 ^ (e + 149).toNat := by
          rw [size, Nat.mul_assoc, Nat.mul_assoc, ← Nat.pow_add, ← Nat.pow_add]
          congr 2
          omega
      _ = rounded m * 2 ^ (e + 149).toNat := by rw [hexact, rounded]
      _ = rounded (size m e) := (rounded_mul_two_pow hm (by omega)).symm

/-- A significand that is long enough is cut down to 24 digits. -/
theorem roundWithAccuracy_exact (s : UnpackedFloat.Sign) {m : Nat} {e : Int} (hm : 0 < m)
    (he : -149 ≤ e) (h : 23 ≤ m.log2 ∨ e = -149) :
    ∃ n f hn, UnpackedFloat.roundWithAccuracy .binary32 s m e .exact = .finite s n f hn ∧
      IsNormal n f ∧ size n f = rounded (size m e) := by
  obtain ⟨hpos, hnormal, hsize⟩ := shifted_twice hm he h
  have hsecond := shiftToTargetExponent_eq (digits m) (e := e + (m.log2 - 23 : Nat)) (by omega)
  have hround := roundedMantissa_shifted m (m.log2 - 23)
  rw [← digits] at hround
  simp only [UnpackedFloat.roundWithAccuracy, shiftToTargetExponent_eq m he, hround, hsecond,
    mantissa_shifted, dif_neg hpos.ne']
  exact ⟨_, _, hpos, rfl, hnormal, hsize⟩

/-- Rounding a number whose last digit is worth no less than the smallest number. -/
theorem round_eq (s : UnpackedFloat.Sign) {m : Nat} {e : Int} (hm : 0 < m) (he : -149 ≤ e) :
    ∃ n f hn, UnpackedFloat.round .binary32 s m e = .finite s n f hn ∧
      IsNormal n f ∧ size n f = rounded (size m e) := by
  rw [UnpackedFloat.round, targetExponent_eq]
  simp only [UnpackedFloat.decreaseExponent, Nat.shiftLeft_eq]
  -- zeros are appended until there are enough digits
  generalize hzeros : (e - max (m.log2 + e - 23) (-149)).toNat = zeros
  have hlog := log2_mul_two_pow hm zeros
  have hsize : size (m * 2 ^ zeros) (e - zeros) = size m e := by
    rw [size, Nat.mul_assoc, ← Nat.pow_add, size]
    congr 2
    omega
  have hround := roundWithAccuracy_exact s (Nat.mul_pos hm (Nat.two_pow_pos zeros))
    (e := e - zeros) (by omega) (by omega)
  rwa [hsize] at hround

/-! ## Numbers that are too large -/

/-- Numbers that are too large are infinite. -/
def capped (n : Nat) : Nat := if n < top then n else 4 * top

theorem capped_mono {n n' : Nat} (h : n ≤ n') : capped n ≤ capped n' := by
  unfold capped
  split <;> split <;> omega

theorem exponent_le_iff {m : Nat} {e : Int} (hm : 0 < m) (h : IsNormal m e) :
    e ≤ 104 ↔ size m e < top := by
  refine ⟨fun he => (size_bounds hm h he).2, fun hless => ?_⟩
  by_contra hlarge
  obtain ⟨-, -, hlong⟩ := h
  have : top ≤ size m e := by
    calc top = 2 ^ 23 * 2 ^ 254 := by rw [top]; ring
      _ ≤ m * 2 ^ (e + 149).toNat :=
          Nat.mul_le_mul (by omega) (Nat.pow_le_pow_right (by decide) (by omega))
  omega

theorem place_unpack_pack (s : UnpackedFloat.Sign) {m : Nat} {e : Int} (hm : 0 < m)
    (h : IsNormal m e) :
    place (UnpackedFloat.unpack .binary32 (UnpackedFloat.pack .binary32 (.finite s m e hm))) =
      s.apply (capped (size m e)) := by
  have hiff := exponent_le_iff hm h
  rw [unpack_pack_finite s hm h, capped]
  by_cases hsmall : e ≤ 104
  · rw [if_pos hsmall, if_pos (hiff.mp hsmall), place]
  · rw [if_neg hsmall, if_neg (mt hiff.mpr hsmall), place]

end Binary32
end DryKiln
