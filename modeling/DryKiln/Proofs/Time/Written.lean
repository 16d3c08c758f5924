-- A moment as text. Each field has its own width, so what is written can be told from what comes
-- behind it: the text tells the moment, and in the years that are written without a sign the texts
-- stand in the order of the moments.
import DryKiln.Proofs.Time.Days
import Mathlib.Algebra.Group.Nat.Defs

namespace DryKiln
namespace Moment

/-! ## Digits -/

theorem isDigit_of_mem_padded {width n : Nat} {c : Char} (h : c ∈ padded width n) :
    c.isDigit = true := by
  rcases List.mem_append.mp h with h | h
  · rw [List.eq_of_mem_replicate h]
    rfl
  · exact Nat.isDigit_of_mem_toDigits (by decide) (by decide) h

theorem ofDigitChars_padded (width n : Nat) : Nat.ofDigitChars 10 (padded width n) 0 = n := by
  have hzeros (k : Nat) : Nat.ofDigitChars 10 (List.replicate k '0') 0 = 0 := by
    induction k with
    | zero => rfl
    | succ k ih => simpa [List.replicate_succ, Nat.ofDigitChars] using ih
  simp [padded, Nat.ofDigitChars_append, hzeros]

theorem padded_injective (width : Nat) : Function.Injective (padded width) := by
  intro n m h
  rw [← ofDigitChars_padded width n, h, ofDigitChars_padded]

theorem length_padded {width n : Nat} (hwidth : 0 < width) (h : n < 10 ^ width) :
    (padded width n).length = width := by
  have hlength := (Nat.length_toDigits_le_iff (by decide) hwidth).mpr h
  simp only [padded, List.length_append, List.length_replicate]
  omega

theorem padded_one {n : Nat} (h : n < 10) : padded 1 n = [n.digitChar] := by
  simp [padded, Nat.toDigits_of_lt_base h]

/-- The last digit comes off the end. -/
theorem padded_succ {width : Nat} (hwidth : 0 < width) (n : Nat) :
    padded (width + 1) n = padded width (n / 10) ++ [(n % 10).digitChar] := by
  rcases Nat.lt_or_ge n 10 with h | h
  · obtain ⟨zeros, rfl⟩ := Nat.exists_eq_add_of_lt hwidth
    simp [padded, Nat.div_eq_of_lt h, Nat.mod_eq_of_lt h, Nat.toDigits_of_lt_base h,
      List.replicate_succ']
  · simp [padded, Nat.toDigits_of_base_le (by decide) h]

theorem digitChar_lt_iff : ∀ n < 10, ∀ m < 10, (n.digitChar < m.digitChar ↔ n < m) := by
  decide

theorem digitChar_inj : ∀ n < 10, ∀ m < 10, (n.digitChar = m.digitChar ↔ n = m) := by
  decide

/-- Numbers of one width are compared as numbers, whatever comes behind them. -/
theorem padded_append_lt_iff {width : Nat} (hwidth : 0 < width) {n m : Nat} (hn : n < 10 ^ width)
    (hm : m < 10 ^ width) {rest rest' : List Char} :
    padded width n ++ rest < padded width m ++ rest' ↔ n < m ∨ n = m ∧ rest < rest' := by
  induction width, hwidth using Nat.le_induction generalizing n m rest rest' with
  | base =>
    simp only [Nat.pow_one] at hn hm
    simp [padded_one, hn, hm, List.cons_lt_cons_iff, digitChar_lt_iff, digitChar_inj]
  | succ width hwidth ih =>
    rw [Nat.pow_succ] at hn hm
    have hn' : n % 10 < 10 := Nat.mod_lt _ (by decide)
    have hm' : m % 10 < 10 := Nat.mod_lt _ (by decide)
    rw [padded_succ hwidth, padded_succ hwidth, List.append_assoc, List.append_assoc,
      ih (by omega) (by omega), List.singleton_append, List.singleton_append,
      List.cons_lt_cons_iff, digitChar_lt_iff _ hn' _ hm', digitChar_inj _ hn' _ hm']
    by_cases hrest : rest < rest'
    · simp only [hrest, and_true]
      omega
    · simp only [hrest, and_false, or_false]
      omega

theorem padded_append_inj {width : Nat} (hwidth : 0 < width) {n m : Nat} (hn : n < 10 ^ width)
    (hm : m < 10 ^ width) {rest rest' : List Char} :
    padded width n ++ rest = padded width m ++ rest' ↔ n = m ∧ rest = rest' := by
  have hlength : (padded width n).length = (padded width m).length :=
    (length_padded hwidth hn).trans (length_padded hwidth hm).symm
  rw [List.append_eq_append_iff_of_size_eq_left hlength, (padded_injective width).eq_iff]

/-! ## Years -/

theorem sign_ne_padded (year : Int) (cs : List Char) (width n : Nat) :
    (if year < 0 then '-' else '+') :: cs ≠ padded width n := by
  intro h
  have hdigit : (if year < 0 then '-' else '+' : Char).isDigit = true :=
    isDigit_of_mem_padded (h ▸ List.mem_cons_self)
  split at hdigit <;> exact absurd hdigit (by decide)

theorem yearText_injective : Function.Injective yearText := by
  intro year year' h
  unfold yearText at h
  by_cases hplain : 0 ≤ year ∧ year ≤ 9999 <;> by_cases hplain' : 0 ≤ year' ∧ year' ≤ 9999
  · rw [if_pos hplain, if_pos hplain'] at h
    have hnumber := padded_injective 4 h
    omega
  · rw [if_pos hplain, if_neg hplain'] at h
    exact absurd h.symm (sign_ne_padded _ _ _ _)
  · rw [if_neg hplain, if_pos hplain'] at h
    exact absurd h (sign_ne_padded _ _ _ _)
  · rw [if_neg hplain, if_neg hplain'] at h
    obtain ⟨hsign, hrow⟩ := List.cons.inj h
    have hnumber := padded_injective 4 hrow
    split at hsign <;> split at hsign <;> first | omega | exact absurd hsign (by decide)

/-! ## Moments -/

/-- What stands behind the year. -/
def afterYear (m : Moment) : List Char :=
  '-' :: (padded 2 m.date.month ++ '-' :: (padded 2 m.date.day ++ 'T' :: (padded 2 m.hour ++
    ':' :: (padded 2 m.minute ++ ':' :: (padded 2 m.second ++ ['Z'])))))

theorem text_eq (m : Moment) : m.text = yearText m.date.year ++ m.afterYear := by
  simp [text, afterYear]

/-- Digits and a few marks is all that the text of a moment is made of. -/
theorem mem_text {m : Moment} {c : Char} (h : c ∈ m.text) :
    c.isDigit = true ∨ c ∈ ['+', '-', 'T', ':', 'Z'] := by
  by_contra hother
  rw [not_or] at hother
  have hpadded (width n : Nat) : c ∉ padded width n := fun h => hother.1 (isDigit_of_mem_padded h)
  have hyear : c ∉ yearText m.date.year := by
    unfold yearText
    split
    · exact hpadded _ _
    · split <;> simp_all
  simp_all [text]

/-- All fields but the year have two digits. -/
structure IsShort (m : Moment) : Prop where
  month : m.date.month < 10 ^ 2
  day : m.date.day < 10 ^ 2
  hour : m.hour < 10 ^ 2
  minute : m.minute < 10 ^ 2
  second : m.second < 10 ^ 2

theorem IsValid.isShort {m : Moment} (h : m.IsValid) : m.IsShort := by
  have hmonth := h.date.month_le
  have hday := h.date.day_le.trans (Date.monthLength_le _ _)
  have hhour := h.hour_lt
  have hminute := h.minute_lt
  have hsecond := h.second_lt
  constructor <;> omega

section Short

variable {m m' : Moment}

theorem IsShort.length_afterYear (h : m.IsShort) : m.afterYear.length = 16 := by
  simp only [afterYear, List.length_cons, List.length_append, List.length_nil,
    length_padded Nat.two_pos h.month, length_padded Nat.two_pos h.day,
    length_padded Nat.two_pos h.hour, length_padded Nat.two_pos h.minute,
    length_padded Nat.two_pos h.second]

theorem IsShort.text_injective (h : m.IsShort) (h' : m'.IsShort) (htext : m.text = m'.text) :
    m = m' := by
  rw [text_eq, text_eq] at htext
  obtain ⟨hyear, hrest⟩ :=
    List.append_inj' htext (h.length_afterYear.trans h'.length_afterYear.symm)
  simp only [afterYear, List.cons_inj_right, padded_append_inj Nat.two_pos h.month h'.month,
    padded_append_inj Nat.two_pos h.day h'.day, padded_append_inj Nat.two_pos h.hour h'.hour,
    padded_append_inj Nat.two_pos h.minute h'.minute,
    padded_append_inj Nat.two_pos h.second h'.second] at hrest
  have hsame : m.date.year = m'.date.year := yearText_injective hyear
  obtain ⟨⟨year, month, day⟩, hour, minute, second⟩ := m
  obtain ⟨⟨year', month', day'⟩, hour', minute', second'⟩ := m'
  simp_all

theorem IsShort.text_lt_text_iff (h : m.IsShort) (h' : m'.IsShort)
    (hyear : 0 ≤ m.date.year ∧ m.date.year ≤ 9999)
    (hyear' : 0 ≤ m'.date.year ∧ m'.date.year ≤ 9999) : m.text < m'.text ↔ m.key < m'.key := by
  have hlow : m.date.year.toNat < 10 ^ 4 := by omega
  have hlow' : m'.date.year.toNat < 10 ^ 4 := by omega
  simp only [text_eq, yearText, if_pos hyear, if_pos hyear', afterYear, List.cons_lt_cons_self,
    padded_append_lt_iff (Nat.succ_pos 3) hlow hlow',
    padded_append_lt_iff Nat.two_pos h.month h'.month,
    padded_append_lt_iff Nat.two_pos h.day h'.day,
    padded_append_lt_iff Nat.two_pos h.hour h'.hour,
    padded_append_lt_iff Nat.two_pos h.minute h'.minute,
    padded_append_lt_iff Nat.two_pos h.second h'.second, List.lt_irrefl, and_false, or_false,
    key_lt_key]
  omega

end Short

end Moment
end DryKiln
