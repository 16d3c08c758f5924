-- The band regulation is a clamp. It heats at full power exactly while the oven is below the
-- setpoint moved between the two edges above the material temperature. A hotter oven never starts
-- the heating, and a higher setpoint or a hotter material never stops it.
import DryKiln.Proofs.Control.Percents
import DryKiln.Proofs.Decimal.Sum

namespace DryKiln
namespace Binary32

/-! ## Smaller, larger, clamped -/

/-- A number moved to the nearest of those between the bounds. -/
def clamp (x low high : Float32) : Float32 :=
  if x < low then low else if high < x then high else x

theorem lt_lesser_iff (o a b : Float32) : o < lesser a b ↔
    o < a ∧ (b.isNaN = true ∨ o < b) ∨ a.isNaN = true ∧ o < b := by
  unfold lesser
  split_ifs with ha hb hlt
  · exact ⟨fun h => Or.inr ⟨ha, h⟩, fun h => h.elim (absurd ·.1 (not_lt_of_isNaN ha)) (·.2)⟩
  · exact ⟨fun h => Or.inl ⟨h, Or.inl hb⟩, fun h => h.elim (·.1) (absurd ·.1 ha)⟩
  · refine ⟨fun h => Or.inl ⟨lt_of_lt_of_le h (le_of_lt hlt), Or.inr h⟩, ?_⟩
    rintro (⟨-, hnan | h⟩ | ⟨hnan, -⟩)
    · exact absurd hnan hb
    · exact h
    · exact absurd hnan ha
  · have hle : a ≤ b :=
      le_of_not_lt (Bool.eq_false_of_not_eq_true ha) (Bool.eq_false_of_not_eq_true hb) hlt
    exact ⟨fun h => Or.inl ⟨h, Or.inr (lt_of_lt_of_le h hle)⟩,
      fun h => h.elim (·.1) (absurd ·.1 ha)⟩

theorem lt_greater_iff (o a b : Float32) : o < greater a b ↔ o < a ∨ o < b := by
  unfold greater
  split_ifs with ha hb hlt
  · exact ⟨Or.inr, fun h => h.resolve_left (not_lt_of_isNaN ha)⟩
  · exact ⟨Or.inl, fun h => h.resolve_right (not_lt_of_isNaN hb)⟩
  · exact ⟨Or.inr, fun h => h.elim (lt_of_lt_of_le · (le_of_lt hlt)) id⟩
  · have hle : b ≤ a :=
      le_of_not_lt (Bool.eq_false_of_not_eq_true hb) (Bool.eq_false_of_not_eq_true ha) hlt
    exact ⟨Or.inl, fun h => h.elim id (lt_of_lt_of_le · hle)⟩

/-- Between bounds in their order, the smaller and then the larger is the clamp. -/
theorem lt_clamp_iff {x low high : Float32} (hx : x.isNaN = false) (hle : low ≤ high)
    (o : Float32) : o < greater (lesser x high) low ↔ o < clamp x low high := by
  obtain ⟨hlow, hhigh, hle⟩ := le_iff_rank.mp hle
  rw [lt_greater_iff, lt_lesser_iff, clamp, apply_ite (o < ·), apply_ite (o < ·)]
  cases ho : o.isNaN with
  | true => simp only [lt_iff_rank, ho, Bool.true_eq_false, false_and, and_false, or_self, ite_self]
  | false =>
    simp only [lt_iff_rank, ho, hx, hlow, hhigh, Bool.false_eq_true, false_and, false_or, or_false,
      true_and]
    split_ifs <;> omega

end Binary32

/-! ## The regulation -/

theorem lt_bandTarget_iff (setpoint oven material low high : Float32) :
    oven < bandTarget setpoint material low high ↔
      (oven < setpoint ∧ ((material + high).isNaN = true ∨ oven < material + high) ∨
        setpoint.isNaN = true ∧ oven < material + high) ∨ oven < material + low := by
  rw [bandTarget, Binary32.lt_greater_iff, Binary32.lt_lesser_iff]

/-- The higher sum is the upper edge, also after both are rounded. -/
theorem edge_le_edge {material low high : Float32} (h : low ≤ high)
    (hlow : (material + low).isNaN = false) (hhigh : (material + high).isNaN = false) :
    material + low ≤ material + high :=
  Binary32.add_le_add (Binary32.le_self (Binary32.isNaN_of_add hlow).1) h hlow hhigh

theorem bandPower_eq_clamp {setpoint material low high : Float32} (hle : low ≤ high)
    (hsetpoint : setpoint.isNaN = false) (hlow : (material + low).isNaN = false)
    (hhigh : (material + high).isNaN = false) (oven : Float32) :
    bandPower setpoint oven material low high =
      if oven < Binary32.clamp setpoint (material + low) (material + high) then fullPower else 0 :=
  if_congr (Binary32.lt_clamp_iff hsetpoint (edge_le_edge hle hlow hhigh) oven) rfl rfl

theorem bandPower_of_lt {setpoint oven material low high : Float32} (h : oven < material + low) :
    bandPower setpoint oven material low high = fullPower :=
  if_pos ((lt_bandTarget_iff ..).mpr (Or.inr h))

/-- An oven above both edges is not heated, whatever the setpoint is. -/
theorem bandPower_of_le {setpoint oven material low high : Float32} (hle : low ≤ high)
    (hlow : (material + low).isNaN = false) (h : material + high ≤ oven) :
    bandPower setpoint oven material low high = 0 := by
  obtain ⟨hhigh, -, hrank⟩ := Binary32.le_iff_rank.mp h
  obtain ⟨-, -, hedges⟩ := Binary32.le_iff_rank.mp (edge_le_edge hle hlow hhigh)
  refine if_neg fun hbelow => ?_
  rcases (lt_bandTarget_iff ..).mp hbelow with (⟨-, hnan | hedge⟩ | ⟨-, hedge⟩) | hedge
  · exact Bool.false_ne_true (hhigh.symm.trans hnan)
  all_goals
    have := (Binary32.lt_iff_rank.mp hedge).2.2
    omega

theorem bandPower_of_isNaN {setpoint oven material low high : Float32} (h : oven.isNaN = true) :
    bandPower setpoint oven material low high = 0 :=
  if_neg fun hbelow => Bool.false_ne_true ((Binary32.isNaN_of_lt hbelow).1.symm.trans h)

/-! ## What starts the heating, and what stops it -/

/-- More power is asked for when no target is left behind. -/
theorem bandPower_le_of_imp {setpoint oven material setpoint' oven' material' low high : Float32}
    (h : oven < bandTarget setpoint material low high →
      oven' < bandTarget setpoint' material' low high) :
    bandPower setpoint oven material low high ≤ bandPower setpoint' oven' material' low high := by
  unfold bandPower
  split
  · rw [if_pos (h ‹_›)]
    exact UInt8.le_refl _
  · exact UInt8.zero_le

variable (low high : Float32)

/-- A hotter oven is not heated if a cooler one is not. -/
theorem bandPower_anti_oven (setpoint material : Float32) {oven oven' : Float32}
    (h : oven ≤ oven') :
    bandPower setpoint oven' material low high ≤ bandPower setpoint oven material low high :=
  bandPower_le_of_imp (Binary32.lt_of_le_of_lt h)

theorem bandPower_mono_setpoint (oven material : Float32) {setpoint setpoint' : Float32}
    (h : setpoint ≤ setpoint') :
    bandPower setpoint oven material low high ≤ bandPower setpoint' oven material low high := by
  apply bandPower_le_of_imp
  rw [lt_bandTarget_iff, lt_bandTarget_iff]
  rintro ((⟨hbelow, hedge⟩ | ⟨hnan, -⟩) | hbelow)
  · exact Or.inl (Or.inl ⟨Binary32.lt_of_lt_of_le hbelow h, hedge⟩)
  · rw [(Binary32.isNaN_of_le h).1] at hnan
    exact absurd hnan Bool.false_ne_true
  · exact Or.inr hbelow

/-- Both edges move up with the material, as far as they are numbers. -/
theorem bandPower_mono_material (setpoint oven : Float32) {material material' : Float32}
    (h : material ≤ material') :
    bandPower setpoint oven material low high ≤ bandPower setpoint oven material' low high := by
  apply bandPower_le_of_imp
  rw [lt_bandTarget_iff, lt_bandTarget_iff]
  rintro ((⟨hbelow, hnan | hedge⟩ | ⟨hnan, hedge⟩) | hbelow)
  · refine Or.inl (Or.inl ⟨hbelow, ?_⟩)
    cases hnan' : (material' + high).isNaN with
    | true => exact Or.inl rfl
    | false => exact Or.inr (Binary32.lt_add_of_isNaN hbelow hnan h hnan')
  · exact Or.inl (Or.inl ⟨hbelow, Or.inr (Binary32.lt_add_of_le hedge h)⟩)
  · exact Or.inl (Or.inr ⟨hnan, Binary32.lt_add_of_le hedge h⟩)
  · exact Or.inr (Binary32.lt_add_of_le hbelow h)

/-- The band regulation is a monotone clamp. If the band is one and its edges and the setpoint are
numbers, the oven is heated at full power below the setpoint clamped into the band, and not at all
otherwise: never at the upper edge or above it, always below the lower edge, and never without a
reading. Whatever the numbers are, the power does not rise with the oven temperature and does not
fall with the setpoint or with the material temperature. -/
theorem band_heats_up_to_the_clamped_setpoint :
    (∀ setpoint oven material, low ≤ high → setpoint.isNaN = false →
        (material + low).isNaN = false → (material + high).isNaN = false →
      bandPower setpoint oven material low high =
          (if oven < Binary32.clamp setpoint (material + low) (material + high) then fullPower
            else 0) ∧
        (material + high ≤ oven → bandPower setpoint oven material low high = 0) ∧
        (oven < material + low → bandPower setpoint oven material low high = fullPower) ∧
        (oven.isNaN = true → bandPower setpoint oven material low high = 0)) ∧
      (∀ setpoint material oven oven', oven ≤ oven' →
        bandPower setpoint oven' material low high ≤ bandPower setpoint oven material low high) ∧
      (∀ oven material setpoint setpoint', setpoint ≤ setpoint' →
        bandPower setpoint oven material low high ≤ bandPower setpoint' oven material low high) ∧
      ∀ setpoint oven material material', material ≤ material' →
        bandPower setpoint oven material low high ≤
          bandPower setpoint oven material' low high := by
  refine ⟨fun setpoint oven material hle hsetpoint hlow hhigh => ?_,
    fun setpoint material _ _ => bandPower_anti_oven low high setpoint material,
    fun oven material _ _ => bandPower_mono_setpoint low high oven material,
    fun setpoint oven _ _ => bandPower_mono_material low high setpoint oven⟩
  exact ⟨bandPower_eq_clamp hle hsetpoint hlow hhigh oven, bandPower_of_le hle hlow,
    bandPower_of_lt, bandPower_of_isNaN⟩

/-- Wood of 50 degrees in a band from 2 to 10 above it, with a setpoint of 80: the oven is heated
at 55 degrees and not at 60, and at 60 again when the wood has come to 51. -/
theorem band_between_two_and_ten :
    bandPower 80 55 50 2 10 = fullPower ∧ bandPower 80 60 50 2 10 = 0 ∧
      bandPower 80 60 50 2 10 ≤ bandPower 80 60 51 2 10 := by
  obtain ⟨hclamp, -, -, hmaterial⟩ := band_heats_up_to_the_clamped_setpoint 2 10
  have hedges : (2 : Float32) ≤ 10 ∧ (80 : Float32).isNaN = false ∧
      (50 + 2 : Float32).isNaN = false ∧ (50 + 10 : Float32).isNaN = false := by decide +kernel
  obtain ⟨hle, hsetpoint, hlow, hhigh⟩ := hedges
  refine ⟨?_, ?_, hmaterial 80 60 50 51 (by decide +kernel)⟩
  · rw [(hclamp 80 55 50 hle hsetpoint hlow hhigh).1]
    decide +kernel
  · exact (hclamp 80 60 50 hle hsetpoint hlow hhigh).2.1 (by decide +kernel)

end DryKiln
