-- Sums of binary32 numbers. A sum lands where the sum of the places is rounded to, infinities
-- included, so that a larger number added to a larger one never makes a smaller sum.
import DryKiln.Proofs.Decimal.Rounding

open Float.Model

namespace DryKiln
namespace Binary32

/-! ## Landing places -/

/-- The place of the number that is nearest to this point. -/
def landing (z : Int) : Int :=
  if z < 0 then -(capped (rounded z.natAbs) : Int) else capped (rounded z.natAbs)

theorem landing_mono {z z' : Int} (h : z ≤ z') : landing z ≤ landing z' := by
  unfold landing
  split
  · split
    · have := capped_mono (rounded_mono (show z'.natAbs ≤ z.natAbs by omega))
      omega
    · omega
  · rw [if_neg (by omega)]
    have := capped_mono (rounded_mono (show z.natAbs ≤ z'.natAbs by omega))
    omega

theorem capped_rounded_zero : capped (rounded 0) = 0 := by
  rw [rounded_of_log2_le (by decide), capped, if_pos top_pos]

theorem landing_apply (s : UnpackedFloat.Sign) (n : Nat) :
    landing (s.apply n) = s.apply (capped (rounded n)) := by
  cases s with
  | positive => rw [UnpackedFloat.Sign.apply, landing, if_neg (by omega)]; rfl
  | negative =>
    rw [UnpackedFloat.Sign.apply, landing, Int.natAbs_neg, Int.natAbs_natCast]
    rcases Nat.eq_zero_or_pos n with rfl | hpos
    · rw [capped_rounded_zero]
      rfl
    · rw [if_pos (by omega)]
      rfl

theorem rounded_top : rounded top = top := by
  have hsize : size (2 ^ 23) 105 = top := rfl
  rw [← hsize]
  exact rounded_size (by decide) ⟨by decide, by decide, Or.inl (Nat.le_refl _)⟩

/-- From the first number on that is too large, everything is infinite. -/
theorem capped_rounded_of_le {n : Nat} (h : top ≤ n) : capped (rounded n) = 4 * top := by
  have hmono := rounded_mono h
  rw [rounded_top] at hmono
  rw [capped, if_neg (by omega)]

/-- A number that is one already is where it lands. -/
theorem landing_place {u : UnpackedFloat} (h : IsSettled u) : landing (place u) = place u := by
  have htop := top_pos
  rcases u with s | _ | s | ⟨s, m, e, hm⟩
  · rw [place, landing_apply, capped_rounded_of_le (by omega)]
  · exact landing_apply .positive 0
  · exact landing_apply .positive 0
  · rw [place, landing_apply, rounded_size hm h.1, capped, if_pos (size_bounds hm h.1 h.2).2]

/-! ## Sums -/

/-- Two significands with one exponent are added as whole numbers. -/
theorem place_normalize {m e : Int} (he : -149 ≤ e) (s : UnpackedFloat.Sign) :
    place (UnpackedFloat.unpack .binary32 (UnpackedFloat.pack .binary32
      (UnpackedFloat.normalize .binary32 m e s))) = landing (m * (2 ^ (e + 149).toNat : Nat)) := by
  have hround : ∀ (sign : UnpackedFloat.Sign) {n : Nat}, 0 < n →
      place (UnpackedFloat.unpack .binary32 (UnpackedFloat.pack .binary32
        (UnpackedFloat.round .binary32 sign n e))) = landing (sign.apply (size n e)) := by
    intro sign n hn
    obtain ⟨n', e', hn', heq, hnormal, hsize⟩ := round_eq sign hn he
    rw [heq, place_unpack_pack sign hn' hnormal, hsize, landing_apply]
  unfold UnpackedFloat.normalize
  split
  · rename_i hneg
    rw [Int.compare_eq_lt] at hneg
    have hm : m = -((-m).toNat : Int) := by omega
    rw [hround .negative (by omega), UnpackedFloat.Sign.apply, size]
    conv_rhs => rw [hm]
    congr 1
    push_cast
    ring
  · rename_i hzero
    rw [Int.compare_eq_eq] at hzero
    rw [hzero, Int.zero_mul]
    cases s <;> exact (landing_apply .positive 0).symm
  · rename_i hpos
    rw [Int.compare_eq_gt] at hpos
    have hm : m = (m.toNat : Int) := by omega
    rw [hround .positive (by omega), UnpackedFloat.Sign.apply, size]
    conv_rhs => rw [hm]
    congr 1

/-- From the first number on that is too large, everything is infinite. -/
theorem landing_beyond (s : UnpackedFloat.Sign) {z : Int} (h : top ≤ s.apply z) :
    landing z = s.apply (4 * top : Nat) := by
  have htop := top_pos
  cases s <;> simp only [UnpackedFloat.Sign.apply] at h ⊢
  · rw [landing, if_pos (by omega), capped_rounded_of_le (by omega)]
  · rw [landing, if_neg (by omega), capped_rounded_of_le (by omega)]

theorem place_infinity (s : UnpackedFloat.Sign) :
    place (.infinity s) = s.apply (4 * top : Nat) := rfl

/-- What is no infinity lies between the numbers that are too large. -/
theorem place_bounds {u : UnpackedFloat} (h : IsSettled u) (hne : ∀ s, u ≠ .infinity s) :
    -top < place u ∧ place u < top := by
  have htop := top_pos
  rcases u with s | _ | s | ⟨s, m, e, hm⟩
  · exact absurd rfl (hne s)
  · rw [place]
    omega
  · rw [place]
    omega
  · have hsize := (size_bounds hm h.1 h.2).2
    cases s <;> simp only [place, UnpackedFloat.Sign.apply] <;> omega

/-- An infinity stays one when a finite number is added. -/
theorem landing_infinity (s : UnpackedFloat.Sign) {u : UnpackedFloat} (h : IsSettled u)
    (hne : ∀ s, u ≠ .infinity s) :
    landing (place (.infinity s) + place u) = place (.infinity s) := by
  obtain ⟨hlow, hhigh⟩ := place_bounds h hne
  refine landing_beyond s ?_
  cases s <;> simp only [place_infinity, UnpackedFloat.Sign.apply] <;> omega

/-- A significand brought to a smaller exponent. -/
theorem apply_decreaseExponent (s : UnpackedFloat.Sign) (m : Nat) {e f : Int} (hf : -149 ≤ f)
    (h : f ≤ e) :
    s.apply (UnpackedFloat.decreaseExponent m e f).1 * (2 ^ (f + 149).toNat : Nat) =
      s.apply (size m e) := by
  have hsize : m <<< (e - f).toNat * 2 ^ (f + 149).toNat = size m e := by
    rw [Nat.shiftLeft_eq, Nat.mul_assoc, ← Nat.pow_add, size]
    congr 2
    omega
  cases s <;> simp only [UnpackedFloat.Sign.apply, UnpackedFloat.decreaseExponent, Int.neg_mul,
    ← Int.natCast_mul, hsize]

/-- A sum lands where the sum of the places does. -/
theorem place_add {u v : UnpackedFloat} (hu : IsSettled u) (hv : IsSettled v)
    (h : (UnpackedFloat.add .binary32 u v).isNaN = false) :
    place (UnpackedFloat.unpack .binary32 (UnpackedFloat.pack .binary32
      (UnpackedFloat.add .binary32 u v))) = landing (place u + place v) := by
  rcases u with s | _ | s | ⟨s, m, e, hm⟩ <;> rcases v with t | _ | t | ⟨t, n, f, hn⟩ <;>
    simp only [UnpackedFloat.add, UnpackedFloat.isNaN, Bool.true_eq_false] at h
  case finite.finite =>
    have hlow := hu.1.2.1
    have hlow' := hv.1.2.1
    simp only [UnpackedFloat.add]
    rw [place_normalize (by omega), Int.add_mul, apply_decreaseExponent s m (by omega) (by omega),
      apply_decreaseExponent t n (by omega) (by omega)]
    rfl
  case infinity.infinity =>
    obtain rfl : s = t := by cases s <;> cases t <;> first | rfl | exact absurd h (by decide)
    have hbeyond : landing (place (.infinity s) + place (.infinity s)) = place (.infinity s) := by
      refine landing_beyond s ?_
      cases s <;> simp only [place_infinity, UnpackedFloat.Sign.apply] <;> omega
    rw [hbeyond]
    cases s <;> rfl
  case infinity.zero | infinity.finite =>
    rw [landing_infinity s hv (by simp)]
    exact congrArg place (unpack_pack hu)
  case zero.infinity | finite.infinity =>
    rw [Int.add_comm, landing_infinity t hu (by simp)]
    exact congrArg place (unpack_pack hv)
  case zero.zero => cases s <;> cases t <;> exact (landing_apply .positive 0).symm
  case zero.finite =>
    rw [place, Int.zero_add, landing_place hv]
    exact congrArg place (unpack_pack hv)
  case finite.zero =>
    rw [Int.add_comm, place, Int.zero_add, landing_place hu]
    exact congrArg place (unpack_pack hu)

theorem unpack_add (a b : Float32) :
    (a + b).toModel.unpack = UnpackedFloat.unpack .binary32 (UnpackedFloat.pack .binary32
      (UnpackedFloat.add .binary32 a.toModel.unpack b.toModel.unpack)) := rfl

theorem isNaN_add (a b : Float32) : (a + b).isNaN =
    (UnpackedFloat.add .binary32 a.toModel.unpack b.toModel.unpack).isNaN := by
  rw [isNaN_eq, unpack_add]
  cases hadd : UnpackedFloat.add .binary32 a.toModel.unpack b.toModel.unpack with
  | notANumber => decide
  | _ => exact isNaN_unpack_pack .binary32 rfl

/-- Two numbers whose sum is a number are numbers. -/
theorem isNaN_of_add {a b : Float32} (h : (a + b).isNaN = false) :
    a.isNaN = false ∧ b.isNaN = false := by
  rw [isNaN_add] at h
  rw [isNaN_eq, isNaN_eq]
  generalize a.toModel.unpack = u, b.toModel.unpack = v at h
  rcases u with s | _ | s | ⟨s, m, e, hm⟩ <;> rcases v with t | _ | t | ⟨t, n, f, hn⟩ <;>
    first | exact ⟨rfl, rfl⟩ | exact absurd h.symm Bool.false_ne_true

theorem rank_add {a b : Float32} (h : (a + b).isNaN = false) :
    rank (a + b) = landing (rank a + rank b) :=
  place_add (isSettled a) (isSettled b) (isNaN_add a b ▸ h)

/-- Larger numbers have no smaller sum. -/
theorem add_le_add {a a' b b' : Float32} (ha : a ≤ a') (hb : b ≤ b')
    (h : (a + b).isNaN = false) (h' : (a' + b').isNaN = false) : a + b ≤ a' + b' := by
  obtain ⟨-, -, ha⟩ := le_iff_rank.mp ha
  obtain ⟨-, -, hb⟩ := le_iff_rank.mp hb
  rw [le_iff_rank, rank_add h, rank_add h']
  exact ⟨h, h', landing_mono (by omega)⟩

/-! ## Infinite summands -/

/-- Two numbers without a sum are opposite infinities. -/
theorem opposite_of_isNaN_add {u v : UnpackedFloat} (hu : u.isNaN = false) (hv : v.isNaN = false)
    (h : (UnpackedFloat.add .binary32 u v).isNaN = true) :
    ∃ s, u = .infinity s ∧ v = .infinity (-s) := by
  rcases u with s | _ | s | ⟨s, m, e, hm⟩ <;> rcases v with t | _ | t | ⟨t, n, f, hn⟩ <;>
    simp only [UnpackedFloat.isNaN, Bool.true_eq_false] at hu hv
  case infinity.infinity =>
    cases s <;> cases t <;> first | exact absurd h (by decide) | exact ⟨_, rfl, rfl⟩
  case finite.finite => exact absurd h (by simp [UnpackedFloat.add, isNaN_normalize])
  case zero.zero => cases s <;> cases t <;> exact absurd h (by decide)
  all_goals exact absurd h Bool.false_ne_true

/-- A number plus an infinity is this infinity, if it is a number. -/
theorem add_infinity {u : UnpackedFloat} {s : UnpackedFloat.Sign}
    (h : (UnpackedFloat.add .binary32 u (.infinity s)).isNaN = false) :
    UnpackedFloat.add .binary32 u (.infinity s) = .infinity s := by
  rcases u with t | _ | t | ⟨t, m, e, hm⟩
  · cases s <;> cases t <;> first | rfl | exact absurd h (by decide)
  · exact absurd h.symm Bool.false_ne_true
  all_goals rfl

/-- Only an infinity is as far out as one. -/
theorem eq_infinity {u : UnpackedFloat} (h : IsSettled u) {s : UnpackedFloat.Sign}
    (hle : 4 * top ≤ s.apply (place u)) : u = .infinity s := by
  have htop := top_pos
  by_cases hinfinite : ∃ t, u = .infinity t
  · obtain ⟨t, rfl⟩ := hinfinite
    cases s <;> cases t <;> first
      | rfl
      | simp only [UnpackedFloat.Sign.apply, place_infinity] at hle; omega
  · obtain ⟨hlow, hhigh⟩ := place_bounds h (not_exists.mp hinfinite)
    cases s <;> simp only [UnpackedFloat.Sign.apply] at hle <;> omega

theorem rank_bounds (x : Float32) : -(4 * top) ≤ rank x ∧ rank x ≤ 4 * top := by
  by_cases hinfinite : ∃ s, x.toModel.unpack = .infinity s
  · obtain ⟨s, hs⟩ := hinfinite
    rw [rank, hs, place_infinity]
    cases s <;> simp only [UnpackedFloat.Sign.apply] <;> omega
  · have := place_bounds (isSettled x) (not_exists.mp hinfinite)
    rw [rank]
    omega

theorem unpack_add_infinity {a d : Float32} {s : UnpackedFloat.Sign}
    (hd : d.toModel.unpack = .infinity s) (h : (a + d).isNaN = false) :
    (a + d).toModel.unpack = .infinity s := by
  rw [isNaN_add, hd] at h
  rw [unpack_add, hd, add_infinity h]
  exact unpack_pack (u := .infinity s) trivial

/-- What is below a sum stays below it when a summand grows. -/
theorem lt_add_of_le {o a a' d : Float32} (ho : o < a + d) (ha : a ≤ a') : o < a' + d := by
  obtain ⟨-, hnan, holow⟩ := lt_iff_rank.mp ho
  obtain ⟨-, hanan', hale⟩ := le_iff_rank.mp ha
  have hdnan := (isNaN_of_add hnan).2
  cases hnan' : (a' + d).isNaN with
  | false => exact lt_of_lt_of_le ho (add_le_add ha (le_self hdnan) hnan hnan')
  | true =>
    rw [isNaN_add] at hnan'
    obtain ⟨s, ha', hd⟩ := opposite_of_isNaN_add hanan' hdnan hnan'
    cases s with
    | positive =>
      -- nothing is below a sum with the lower infinity
      have hrank : rank (a + d) = -(4 * top) := congrArg place (unpack_add_infinity hd hnan)
      have := rank_bounds o
      omega
    | negative =>
      -- the summand was this infinity already
      have hrank : rank a' = -(4 * top) := congrArg place ha'
      have heq : a.toModel.unpack = .infinity .negative :=
        eq_infinity (isSettled a) (show 4 * top ≤ -rank a by omega)
      rw [isNaN_add, heq, hd] at hnan
      exact absurd hnan (by decide)

/-- A summand that grows until there is a sum makes an infinite one. -/
theorem lt_add_of_isNaN {o x a a' d : Float32} (ho : o < x) (h : (a + d).isNaN = true)
    (ha : a ≤ a') (h' : (a' + d).isNaN = false) : o < a' + d := by
  obtain ⟨honan, -, holow⟩ := lt_iff_rank.mp ho
  obtain ⟨hanan, -, hale⟩ := le_iff_rank.mp ha
  rw [isNaN_add] at h
  obtain ⟨s, haeq, hd⟩ := opposite_of_isNaN_add hanan (isNaN_of_add h').2 h
  cases s with
  | positive =>
    have hrank : rank a = 4 * top := congrArg place haeq
    have heq : a'.toModel.unpack = .infinity .positive :=
      eq_infinity (isSettled a') (show 4 * top ≤ rank a' by omega)
    rw [isNaN_add, heq, hd] at h'
    exact absurd h' (by decide)
  | negative =>
    have hrank : rank (a' + d) = 4 * top := congrArg place (unpack_add_infinity hd h')
    have := rank_bounds x
    exact lt_iff_rank.mpr ⟨honan, h', by omega⟩

end Binary32
end DryKiln
