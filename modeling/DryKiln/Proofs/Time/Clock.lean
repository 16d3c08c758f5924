-- What lies between two readings of a clock. The signed word that holds it is right as long as it
-- fits, so the laws about times are for readings that are close together; readings that are moved by
-- the same number of seconds have the same word between them, whether it fits or not.
import DryKiln.Time.Calendar
import Mathlib.Algebra.Group.Int.Defs
import Mathlib.Algebra.Group.Nat.Defs

namespace DryKiln

/-- So many seconds fit into a signed word. -/
def FitsWord (seconds : Int) : Prop := -2 ^ 63 ≤ seconds ∧ seconds < 2 ^ 63

instance : DecidablePred FitsWord := fun _ => by unfold FitsWord; infer_instance

/-- No two of these readings are 2^63 seconds or more apart. -/
def CloseTogether (readings : List Int) : Prop :=
  ∀ earlier ∈ readings, ∀ now ∈ readings, now - earlier < 2 ^ 63

instance : DecidablePred CloseTogether := fun _ => by unfold CloseTogether; infer_instance

theorem secondsSince_eq_bmod (earlier now : Int) :
    secondsSince earlier now = (now - earlier).bmod (2 ^ 64) :=
  Int64.toInt_ofInt

/-- The word is right exactly if the seconds fit into one. -/
theorem secondsSince_eq_sub_iff {earlier now : Int} :
    secondsSince earlier now = now - earlier ↔ FitsWord (now - earlier) := by
  rw [secondsSince_eq_bmod, FitsWord]
  constructor
  · intro h
    have hlow := Int.le_bmod (x := now - earlier) (m := 2 ^ 64) (by decide)
    have hhigh := Int.bmod_lt (x := now - earlier) (m := 2 ^ 64) (by decide)
    rw [h] at hlow hhigh
    exact ⟨by omega, by omega⟩
  · rintro ⟨hlow, hhigh⟩
    exact Int.bmod_eq_of_le (by omega) (by omega)

theorem FitsWord.secondsSince {earlier now : Int} (h : FitsWord (now - earlier)) :
    secondsSince earlier now = now - earlier :=
  secondsSince_eq_sub_iff.mpr h

theorem CloseTogether.fits {readings : List Int} (h : CloseTogether readings) {earlier now : Int}
    (hearlier : earlier ∈ readings) (hnow : now ∈ readings) : FitsWord (now - earlier) := by
  have hforth := h earlier hearlier now hnow
  have hback := h now hnow earlier hearlier
  exact ⟨by omega, hforth⟩

theorem CloseTogether.subset {readings others : List Int} (h : CloseTogether readings)
    (hsub : others ⊆ readings) : CloseTogether others :=
  fun earlier hearlier now hnow => h earlier (hsub hearlier) now (hsub hnow)

/-- Readings that are moved by the same number of seconds have the same word between them. -/
@[simp] theorem secondsSince_add_right (earlier now k : Int) :
    secondsSince (earlier + k) (now + k) = secondsSince earlier now := by
  rw [DryKiln.secondsSince, DryKiln.secondsSince, Int.add_sub_add_right]

@[simp] theorem secondsSince_self (now : Int) : secondsSince now now = 0 := by
  rw [DryKiln.secondsSince, Int.sub_self]
  rfl

end DryKiln
