-- Feedback with an integral and a derivative gain of zero. Both terms vanish as long as what they
-- multiply is finite. Once it is not, zero times it is NaN and the actuator is turned off, and the
-- integral never becomes finite again in this step.
import DryKiln.Proofs.Control.Percents
import DryKiln.Proofs.Decimal.Sum

open Float.Model

namespace DryKiln
namespace Binary32

/-! ## Finite results -/

theorem isFinite_of_unpack_pack {u : UnpackedFloat}
    (h : (UnpackedFloat.unpack .binary32 (UnpackedFloat.pack .binary32 u)).isFinite = true) :
    u.isFinite = true := by
  rcases u with s | _ | s | ⟨s, m, e, hm⟩
  · cases s <;> exact absurd h (by decide)
  · exact absurd h (by decide)
  all_goals rfl

theorem isNaN_add_of_right (a : Float32) {b : Float32} (h : b.isNaN = true) :
    (a + b).isNaN = true := by
  rw [← Bool.not_eq_false]
  intro hsum
  exact Bool.false_ne_true ((isNaN_of_add hsum).2.symm.trans h)

/-- A sum is finite only if both summands are. -/
theorem isFinite_of_add {a b : Float32} (h : (a + b).isFinite = true) :
    a.isFinite = true ∧ b.isFinite = true := by
  have hadd : (UnpackedFloat.add .binary32 a.toModel.unpack b.toModel.unpack).isFinite = true :=
    isFinite_of_unpack_pack h
  change a.toModel.unpack.isFinite = true ∧ b.toModel.unpack.isFinite = true
  generalize a.toModel.unpack = u, b.toModel.unpack = v at hadd
  rcases u with s | _ | s | ⟨s, m, e, hm⟩ <;> rcases v with t | _ | t | ⟨t, n, f, hn⟩ <;>
    first
    | exact ⟨rfl, rfl⟩
    | exact absurd hadd Bool.false_ne_true
    | cases s <;> cases t <;> exact absurd hadd (by decide)

/-- A product is finite only if both factors are. -/
theorem isFinite_of_mul {a b : Float32} (h : (a * b).isFinite = true) :
    a.isFinite = true ∧ b.isFinite = true := by
  have hmul : (UnpackedFloat.mul .binary32 a.toModel.unpack b.toModel.unpack).isFinite = true :=
    isFinite_of_unpack_pack h
  change a.toModel.unpack.isFinite = true ∧ b.toModel.unpack.isFinite = true
  generalize a.toModel.unpack = u, b.toModel.unpack = v at hmul
  rcases u with s | _ | s | ⟨s, m, e, hm⟩ <;> rcases v with t | _ | t | ⟨t, n, f, hn⟩ <;>
    first
    | exact ⟨rfl, rfl⟩
    | exact absurd hmul Bool.false_ne_true

/-! ## Zeros -/

/-- One of the two zeros. -/
def IsZero (x : Float32) : Prop := ∃ s, x.toModel.unpack = .zero s

theorem unpack_zero : (0 : Float32).toModel.unpack = .zero .positive := rfl

theorem isZero_of_beq {x : Float32} (h : x == 0) : IsZero x := by
  change (x.toModel.unpack.compare (0 : Float32).toModel.unpack == some .eq) = true at h
  rw [unpack_zero, beq_iff_eq] at h
  unfold IsZero
  generalize x.toModel.unpack = u at h
  rcases u with s | _ | s | ⟨s, m, e, hm⟩
  · cases s <;> cases h
  · cases h
  · exact ⟨s, rfl⟩
  · cases s <;> cases h

theorem unpack_mul (a b : Float32) :
    (a * b).toModel.unpack = UnpackedFloat.unpack .binary32 (UnpackedFloat.pack .binary32
      (UnpackedFloat.mul .binary32 a.toModel.unpack b.toModel.unpack)) := rfl

/-- Zero times a finite number is zero. -/
theorem isZero_mul {z x : Float32} (hz : IsZero z) (hx : x.isFinite = true) : IsZero (z * x) := by
  obtain ⟨s, hs⟩ := hz
  change x.toModel.unpack.isFinite = true at hx
  rw [IsZero, unpack_mul, hs]
  generalize x.toModel.unpack = u at hx
  rcases u with t | _ | t | ⟨t, m, e, hm⟩
  · exact absurd hx Bool.false_ne_true
  · exact absurd hx Bool.false_ne_true
  all_goals exact ⟨s * t, unpack_pack (u := .zero (s * t)) trivial⟩

/-- Zero times anything else is not a number. -/
theorem isFinite_of_isZero_mul {z x : Float32} (hz : IsZero z) (h : (z * x).isNaN = false) :
    x.isFinite = true := by
  obtain ⟨s, hs⟩ := hz
  have hnan : (UnpackedFloat.unpack .binary32
      (UnpackedFloat.pack .binary32 .notANumber)).isNaN = true := by decide
  rw [isNaN_eq, unpack_mul, hs] at h
  change x.toModel.unpack.isFinite = true
  generalize x.toModel.unpack = u at h
  rcases u with t | _ | t | ⟨t, m, e, hm⟩
  · exact absurd (hnan.symm.trans h) (by decide)
  · exact absurd (hnan.symm.trans h) (by decide)
  all_goals rfl

/-- Two numbers that differ at most in the sign of zero. -/
def Alike (x y : Float32) : Prop := x.toModel.unpack = y.toModel.unpack ∨ IsZero x ∧ IsZero y

theorem Alike.trans {x y z : Float32} (hxy : Alike x y) (hyz : Alike y z) : Alike x z := by
  unfold Alike IsZero at *
  grind

theorem alike_add_zero {z : Float32} (hz : IsZero z) (x : Float32) : Alike (x + z) x := by
  obtain ⟨s, hs⟩ := hz
  have hsettled := isSettled x
  unfold Alike IsZero
  rw [unpack_add, hs]
  generalize x.toModel.unpack = u at hsettled
  rcases u with t | _ | t | ⟨t, m, e, hm⟩
  · exact Or.inl (unpack_pack (u := .infinity t) trivial)
  · exact Or.inl (unpack_pack (u := .notANumber) trivial)
  · exact Or.inr ⟨by cases s <;> cases t <;> exact ⟨_, rfl⟩, t, rfl⟩
  · exact Or.inl (unpack_pack (u := .finite t m e hm) hsettled)

/-- The sign of a zero may be left over in a sum, but nothing else. -/
theorem Alike.add_left {x y : Float32} (h : Alike x y) (p : Float32) : Alike (p + x) (p + y) := by
  rcases h with heq | ⟨⟨s, hs⟩, ⟨t, ht⟩⟩
  · exact Or.inl (by rw [unpack_add, unpack_add, heq])
  · unfold Alike IsZero
    rw [unpack_add, unpack_add, hs, ht]
    rcases p.toModel.unpack with r | _ | r | ⟨r, m, e, hm⟩
    · exact Or.inl rfl
    · exact Or.inl rfl
    · exact Or.inr ⟨by cases r <;> cases s <;> exact ⟨_, rfl⟩,
        by cases r <;> cases t <;> exact ⟨_, rfl⟩⟩
    · exact Or.inl rfl

end Binary32

/-- A percentage does not show the sign of zero. -/
theorem clampPower_congr {x y : Float32} (h : Binary32.Alike x y) :
    clampPower x = clampPower y := by
  have hcongr : ∀ {x y : Float32}, x.toModel.unpack = y.toModel.unpack →
      clampPower x = clampPower y := by
    intro x y heq
    have hinteger : x.toUInt8 = y.toUInt8 := congrArg
      (fun u : UnpackedFloat => UInt8.ofNatClamp (u.toInt 0 (UInt8.size - 1)).toNat) heq
    simp only [clampPower, Binary32.isNaN_eq, Binary32.lt_iff, heq, hinteger]
  have hzero : ∀ {x : Float32}, Binary32.IsZero x → clampPower x = 0 := by
    rintro x ⟨s, hs⟩
    cases s with
    | positive => exact (hcongr (y := 0) hs).trans (by decide +kernel)
    | negative => exact (hcongr (y := -0) hs).trans (by decide +kernel)
  rcases h with heq | ⟨hx, hy⟩
  · exact hcongr heq
  · rw [hzero hx, hzero hy]

/-! ## The correction -/

namespace Feedback

/-- Nothing in the memory has become too large. -/
def IsFinite (loop : Feedback) : Prop :=
  loop.integral.isFinite = true ∧ loop.derivative.isFinite = true

instance : DecidablePred IsFinite := fun loop => by unfold IsFinite; infer_instance

variable {gains : Gains} (hki : gains.ki == 0) (hkd : gains.kd == 0)
include hki hkd

/-- Both terms vanish if the memory is finite. -/
theorem IsFinite.alike_correction {loop : Feedback} (h : loop.IsFinite) :
    Binary32.Alike (loop.correction gains) (gains.kp * loop.error) := by
  have hintegral := Binary32.isZero_mul (Binary32.isZero_of_beq hki) h.1
  have hderivative := Binary32.isZero_mul (Binary32.isZero_of_beq hkd) h.2
  exact (Binary32.alike_add_zero hderivative _).trans (Binary32.alike_add_zero hintegral _)

/-- A memory that is not makes the correction NaN. -/
theorem isNaN_correction {loop : Feedback} (h : ¬ loop.IsFinite) :
    (loop.correction gains).isNaN = true := by
  rw [← Bool.not_eq_false]
  intro hnan
  obtain ⟨hsum, hderivative⟩ := Binary32.isNaN_of_add hnan
  have hintegral := (Binary32.isNaN_of_add hsum).2
  exact h ⟨Binary32.isFinite_of_isZero_mul (Binary32.isZero_of_beq hki) hintegral,
    Binary32.isFinite_of_isZero_mul (Binary32.isZero_of_beq hkd) hderivative⟩

omit hki hkd

theorem error_observe (loop : Feedback) (error : Float32) (last now : Int) :
    (loop.observe error last now).error = error := by
  unfold observe
  split <;> rfl

/-- An integral that has become too large stays so. -/
theorem isFinite_integral_of_observe {loop : Feedback} {error : Float32} {last now : Int}
    (h : (loop.observe error last now).integral.isFinite = true) :
    loop.integral.isFinite = true := by
  unfold observe at h
  split at h
  · exact (Binary32.isFinite_of_add h).1
  · exact h

/-- What is added to the integral is finite only if the error is. -/
theorem isFinite_error_of_observe {loop : Feedback} {error : Float32} {last now : Int}
    (hlater : 0 < secondsSince last now) (h : (loop.observe error last now).integral.isFinite = true) :
    error.isFinite = true := by
  rw [observe, if_pos hlater] at h
  exact (Binary32.isFinite_of_mul (Binary32.isFinite_of_add h).2).1

end Feedback

/-! ## Histories -/

/-- What a regulator is told in one call. -/
structure Sample where
  setpoint : Float32
  oven : Float32
  material : Float32
  previous : UInt8
  now : Int
deriving DecidableEq, Repr

namespace Regulator

/-- One call of a regulator. -/
def take (regulator : Regulator) (s : Sample) : Regulator × UInt8 :=
  regulator.update s.setpoint s.oven s.material s.previous s.now

/-- The regulator of a feedback step after all calls so far. -/
def after (gains : Gains) (history : List Sample) : Regulator :=
  history.foldl (fun regulator s => (regulator.take s).1) (fresh (.feedback gains))

/-- What is asked for when this sample comes next. -/
def asked (gains : Gains) (history : List Sample) (s : Sample) : UInt8 :=
  ((after gains history).take s).2

variable (gains : Gains)

theorem after_append (history : List Sample) (s : Sample) :
    after gains (history ++ [s]) = ((after gains history).take s).1 :=
  List.foldl_append

theorem take_feedback (loop : Feedback) (s : Sample) :
    (⟨.feedback gains, loop⟩ : Regulator).take s =
      (⟨.feedback gains, (loop.sample gains (s.setpoint - s.oven) s.now).1⟩,
        match (loop.sample gains (s.setpoint - s.oven) s.now).2 with
        | some correction => clampPower (Float32.ofNat s.previous.toNat + correction)
        | none => 0) := rfl

/-- The regulation stays, and the time of the latest call is noted. -/
theorem after_eq (history : List Sample) :
    ∃ loop, after gains history = ⟨.feedback gains, loop⟩ ∧
      loop.lastUpdate = history.getLast?.map Sample.now := by
  induction history using List.reverseRecOn with
  | nil => exact ⟨.fresh, rfl, rfl⟩
  | append_singleton history s ih =>
    obtain ⟨loop, hloop, -⟩ := ih
    rw [after_append, hloop, take_feedback, List.getLast?_concat]
    refine ⟨_, rfl, ?_⟩
    unfold Feedback.sample
    split
    · rfl
    · unfold Feedback.observe
      split <;> rfl

/-- A call with a call before it. -/
theorem take_of_getLast? {history : List Sample} {last : Sample}
    (h : history.getLast? = some last) (s : Sample) :
    (after gains (history ++ [s])).loop =
        (after gains history).loop.observe (s.setpoint - s.oven) last.now s.now ∧
      asked gains history s = clampPower (Float32.ofNat s.previous.toNat +
        (after gains (history ++ [s])).loop.correction gains) := by
  obtain ⟨loop, hloop, hlast⟩ := after_eq gains history
  rw [h] at hlast
  rw [asked, after_append, hloop, take_feedback, Feedback.sample, hlast]
  exact ⟨rfl, rfl⟩

/-- The integral was finite if it is finite later. -/
theorem isFinite_integral_of_append (history later : List Sample)
    (h : (after gains (history ++ later)).loop.integral.isFinite = true) :
    (after gains history).loop.integral.isFinite = true := by
  induction later using List.reverseRecOn with
  | nil => rwa [List.append_nil] at h
  | append_singleton later s ih =>
    apply ih
    obtain ⟨loop, hloop, -⟩ := after_eq gains (history ++ later)
    rw [← List.append_assoc, after_append, hloop, take_feedback] at h
    rw [hloop]
    unfold Feedback.sample at h
    split at h
    · exact h
    · exact Feedback.isFinite_integral_of_observe h

variable {gains} (hki : gains.ki == 0) (hkd : gains.kd == 0)
include hki hkd

/-- Nothing but the power commanded last and the present error, or nothing at all. -/
theorem asked_eq {history : List Sample} (hne : history ≠ []) (s : Sample) :
    asked gains history s =
      if (after gains (history ++ [s])).loop.IsFinite then
        clampPower (Float32.ofNat s.previous.toNat + gains.kp * (s.setpoint - s.oven))
      else 0 := by
  obtain ⟨hloop, hasked⟩ := take_of_getLast? gains (List.getLast?_eq_some_getLast hne) s
  have herror : (after gains (history ++ [s])).loop.error = s.setpoint - s.oven := by
    rw [hloop, Feedback.error_observe]
  rw [hasked]
  split
  · rename_i hfinite
    rw [← herror]
    exact clampPower_congr ((hfinite.alike_correction hki hkd).add_left _)
  · rename_i hfinite
    have hnan := Binary32.isNaN_add_of_right (Float32.ofNat s.previous.toNat)
      (Feedback.isNaN_correction hki hkd hfinite)
    exact if_pos hnan

/-- With integral and derivative gains of zero the percentage after a history is that of the
proportional term alone, unless the integral or the derivative has become too large for a finite
number: then it is 0. So what two histories ask for next is the same exactly if both have stayed
finite, or neither, or nothing is asked for anyway. One error that is infinite or NaN, sampled
after the cold start when time has passed, keeps the actuator off for the rest of the step. -/
theorem zero_gains_forget_unless_overflow :
    (∀ history s, history ≠ [] → asked gains history s =
      if (after gains (history ++ [s])).loop.IsFinite then
        clampPower (Float32.ofNat s.previous.toNat + gains.kp * (s.setpoint - s.oven))
      else 0) ∧
    (∀ history history' s material, history ≠ [] → history' ≠ [] →
      (asked gains history s = asked gains history' { s with material } ↔
        ((after gains (history ++ [s])).loop.IsFinite ↔
          (after gains (history' ++ [{ s with material }])).loop.IsFinite) ∨
        clampPower (Float32.ofNat s.previous.toNat + gains.kp * (s.setpoint - s.oven)) = 0)) ∧
    ∀ history last s later next, history.getLast? = some last → 0 < secondsSince last.now s.now →
      (s.setpoint - s.oven).isFinite = false → asked gains (history ++ s :: later) next = 0 := by
  refine ⟨fun _ s hne => asked_eq hki hkd hne s, ?_, ?_⟩
  · intro history history' s material hne hne'
    rw [asked_eq hki hkd hne, asked_eq hki hkd hne']
    simp only
    split_ifs with hfinite hfinite' hfinite' <;> simp [hfinite, hfinite', eq_comm]
  · intro history last s later next hlast hlater herror
    rw [asked_eq hki hkd (by simp), if_neg]
    rintro ⟨hintegral, -⟩
    have hsplit : history ++ s :: later ++ [next] = history ++ [s] ++ (later ++ [next]) := by simp
    rw [hsplit] at hintegral
    have hearlier := isFinite_integral_of_append gains _ _ hintegral
    rw [(take_of_getLast? gains hlast s).1] at hearlier
    have := Feedback.isFinite_error_of_observe hlater hearlier
    rw [herror] at this
    exact Bool.false_ne_true this

omit hki hkd

/-- A proportional loop that has sampled 20 degrees asks for 40 percent more to come to 60. After
one reading of infinity it asks for nothing, also at the second sample after it. -/
theorem proportional_loop_after_an_infinite_reading :
    asked ⟨1, 0, 0⟩ [⟨60, 20, 20, 0, 0⟩] ⟨60, 20, 20, 50, 12⟩ = 90 ∧
      asked ⟨1, 0, 0⟩ ([⟨60, 20, 20, 0, 0⟩] ++ ⟨60, 1 / 0, 20, 0, 6⟩ :: [⟨60, 20, 20, 0, 12⟩])
        ⟨60, 20, 20, 50, 18⟩ = 0 := by
  obtain ⟨hasked, -, hhaunted⟩ :=
    @zero_gains_forget_unless_overflow ⟨1, 0, 0⟩ (by decide +kernel) (by decide +kernel)
  refine ⟨?_, hhaunted _ _ _ _ _ rfl (by decide) (by decide +kernel)⟩
  rw [hasked _ _ (by simp)]
  decide +kernel

/-- Two histories that differ in one past reading, and the percentages that come next. -/
theorem past_reading_haunts_the_heater :
    asked ⟨1, 0, 0⟩ [⟨60, 20, 20, 0, 0⟩, ⟨60, 20, 20, 0, 6⟩] ⟨60, 20, 20, 50, 12⟩ = 90 ∧
      asked ⟨1, 0, 0⟩ [⟨60, 20, 20, 0, 0⟩, ⟨60, 1 / 0, 20, 0, 6⟩] ⟨60, 20, 20, 50, 12⟩ = 0 := by
  decide +kernel

end Regulator
end DryKiln
