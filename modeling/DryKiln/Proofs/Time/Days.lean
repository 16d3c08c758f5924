-- The days of the calendar. The day after a date is the next one by the rule of the Gregorian
-- calendar, for every day before and after 1970. So dates follow one another as their days do, and
-- the seconds that have a date are those of the years from -262143 to 262142.
import DryKiln.Time.Calendar
import Mathlib.Data.Int.ConditionallyCompleteOrder
import Mathlib.Data.Prod.Lex
import Mathlib.Order.SuccPred.Basic

namespace DryKiln
namespace Date

/-! ## The rule of the calendar -/

def IsLeap (year : Int) : Prop := year % 4 = 0 ∧ (year % 100 ≠ 0 ∨ year % 400 = 0)

instance (year : Int) : Decidable (IsLeap year) := inferInstanceAs (Decidable (_ ∧ _))

/-- The days of a month of a year. -/
def monthLength (year : Int) (month : Nat) : Nat :=
  if month = 2 then if IsLeap year then 29 else 28
  else if month = 4 ∨ month = 6 ∨ month = 9 ∨ month = 11 then 30 else 31

/-- A date that the calendar has. -/
structure IsValid (date : Date) : Prop where
  month_pos : 1 ≤ date.month
  month_le : date.month ≤ 12
  day_pos : 1 ≤ date.day
  day_le : date.day ≤ monthLength date.year date.month

/-- The date of the day after. -/
def next (date : Date) : Date :=
  if date.day < monthLength date.year date.month then { date with day := date.day + 1 }
  else if date.month < 12 then { date with month := date.month + 1, day := 1 }
  else ⟨date.year + 1, 1, 1⟩

/-- What dates are compared by: year, month, day. -/
def key (date : Date) : Int ×ₗ Nat ×ₗ Nat := toLex (date.year, toLex (date.month, date.day))

theorem key_lt_key {a b : Date} : a.key < b.key ↔ a.year < b.year ∨ a.year = b.year ∧
    (a.month < b.month ∨ a.month = b.month ∧ a.day < b.day) := by
  simp [key, Prod.Lex.toLex_lt_toLex]

theorem key_lt_key_next (date : Date) : date.key < date.next.key := by
  rw [key_lt_key]
  unfold next
  split
  · exact .inr ⟨rfl, .inr ⟨rfl, Nat.lt_succ_self _⟩⟩
  · split
    · exact .inr ⟨rfl, .inl (Nat.lt_succ_self _)⟩
    · exact .inl (Int.lt_succ _)

/-! ## Years of a cycle -/

/-- The days of a year of a cycle. It starts in March and ends in February of the year after. -/
def yearLength (year : Nat) : Nat := if IsLeap (year + 1) then 366 else 365

theorem yearOfCycle_mono {day later : Nat} (h : day ≤ later) :
    yearOfCycle day ≤ yearOfCycle later := by
  have hfour : day - day / 1460 ≤ later - later / 1460 := by omega
  have hhundred : day / 36524 ≤ later / 36524 := Nat.div_le_div_right h
  have hlast (n : Nat) : n / 146096 = n / 36524 / 4 := by rw [Nat.div_div_eq_div_mul]
  refine Nat.div_le_div_right ?_
  rw [hlast, hlast]
  omega

-- the second day is the last one of the year
theorem yearOfCycle_ends : ∀ year < 400, yearOfCycle (daysBeforeYear year) = year ∧
    yearOfCycle (daysBeforeYear year + (yearLength year - 1)) = year := by
  decide +kernel

theorem yearOfCycle_eq {year day : Nat} (hyear : year < 400) (hday : day < yearLength year) :
    yearOfCycle (daysBeforeYear year + day) = year := by
  obtain ⟨hfirst, hlast⟩ := yearOfCycle_ends year hyear
  refine Nat.le_antisymm ?_ ?_
  · exact (yearOfCycle_mono (by omega)).trans hlast.le
  · exact hfirst.ge.trans (yearOfCycle_mono (Nat.le_add_right _ _))

theorem daysBeforeYear_succ : ∀ year < 399,
    daysBeforeYear (year + 1) = daysBeforeYear year + yearLength year := by
  decide +kernel

/-- A day before the end of a year of the cycle lies in this year or in one before it. -/
theorem exists_year {last day : Nat} (hlast : last < 400)
    (h : day < daysBeforeYear last + yearLength last) :
    ∃ year < 400, ∃ rest < yearLength year, daysBeforeYear year + rest = day := by
  induction last with
  | zero => exact ⟨0, hlast, day, by simpa [daysBeforeYear] using h, Nat.zero_add _⟩
  | succ year ih =>
    rw [daysBeforeYear_succ year (by omega)] at h
    by_cases hbefore : day < daysBeforeYear year + yearLength year
    · exact ih (by omega) hbefore
    · refine ⟨year + 1, hlast, day - daysBeforeYear (year + 1), ?_, ?_⟩
      all_goals
        rw [daysBeforeYear_succ year (by omega)]
        omega

/-! ## Months of a year -/

/-- The days of a year of a cycle up to the end of a month of it. -/
def monthEnd (year month : Nat) : Nat :=
  if month < 11 then daysBeforeMonth (month + 1) else yearLength year

theorem yearLength_cases (year : Nat) : yearLength year = 365 ∨ yearLength year = 366 := by
  unfold yearLength
  split <;> simp

theorem monthEnd_le (year month : Nat) : monthEnd year month ≤ yearLength year := by
  have := yearLength_cases year
  unfold monthEnd daysBeforeMonth
  split <;> omega

theorem daysBeforeMonth_lt_monthEnd (year : Nat) {month : Nat} (hmonth : month < 12) :
    daysBeforeMonth month < monthEnd year month := by
  have := yearLength_cases year
  unfold monthEnd daysBeforeMonth
  split <;> omega

theorem monthOfYear_eq {year month rest : Nat} (hmonth : month < 12)
    (hrest : daysBeforeMonth month + rest < monthEnd year month) :
    monthOfYear (daysBeforeMonth month + rest) = month := by
  have := yearLength_cases year
  unfold monthEnd daysBeforeMonth at hrest
  unfold monthOfYear daysBeforeMonth
  split at hrest <;> omega

theorem exists_month {year day : Nat} (h : day < yearLength year) :
    ∃ month < 12, ∃ rest, daysBeforeMonth month + rest = day ∧ day < monthEnd year month := by
  have hlength := yearLength_cases year
  refine ⟨monthOfYear day, ?_, day - daysBeforeMonth (monthOfYear day), ?_, ?_⟩
  · unfold monthOfYear
    omega
  · unfold monthOfYear daysBeforeMonth
    omega
  · unfold monthOfYear monthEnd daysBeforeMonth
    split <;> omega

/-! ## Places in the cycles -/

/-- Where a day lies: in a cycle, a year of it and a month of the year, each counted from zero. -/
structure Place where
  cycle : Int
  year : Nat
  month : Nat
  day : Nat
  year_lt : year < 400
  month_lt : month < 12
  day_lt : daysBeforeMonth month + day < monthEnd year month

namespace Place

/-- The days from the first of January 1970 to the day. -/
def days (place : Place) : Int :=
  place.cycle * cycleDays +
    (daysBeforeYear place.year + (daysBeforeMonth place.month + place.day) : Nat) - marchOffset

/-- The date of the day; January and February count for the next year. -/
def date (place : Place) : Date :=
  { year := 400 * place.cycle + place.year + (if place.month < 10 then 0 else 1)
    month := if place.month < 10 then place.month + 3 else place.month - 9
    day := place.day + 1 }

theorem dayOfYear_lt (place : Place) :
    daysBeforeMonth place.month + place.day < yearLength place.year :=
  place.day_lt.trans_le (monthEnd_le _ _)

end Place

theorem yearEnd_le : ∀ year < 400, daysBeforeYear year + yearLength year ≤ 146097 := by
  decide +kernel

theorem ofDays_days (place : Place) : ofDays place.days = place.date := by
  have hend := yearEnd_le place.year place.year_lt
  have hday := place.dayOfYear_lt
  have hdiv : (place.days + marchOffset) / cycleDays = place.cycle := by
    unfold Place.days cycleDays
    omega
  have hmod : ((place.days + marchOffset) % cycleDays).toNat =
      daysBeforeYear place.year + (daysBeforeMonth place.month + place.day) := by
    unfold Place.days cycleDays
    omega
  simp only [ofDays, hdiv, hmod, yearOfCycle_eq place.year_lt place.dayOfYear_lt,
    Nat.add_sub_cancel_left, monthOfYear_eq place.month_lt place.day_lt, Place.date]

theorem exists_place (days : Int) : ∃ place : Place, place.days = days := by
  have hday : ((days + marchOffset) % cycleDays).toNat <
      daysBeforeYear 399 + yearLength 399 := by
    have hend : daysBeforeYear 399 + yearLength 399 = 146097 := by decide
    rw [hend]
    unfold cycleDays
    omega
  obtain ⟨year, hyear, dayOfYear, hrest, hsum⟩ := exists_year (by decide) hday
  obtain ⟨month, hmonth, day, hsum', hend⟩ := exists_month hrest
  refine ⟨⟨(days + marchOffset) / cycleDays, year, month, day, hyear, hmonth, ?_⟩, ?_⟩
  · rwa [hsum']
  · have hsplit := Int.mul_ediv_add_emod (days + marchOffset) cycleDays
    have hpos : 0 ≤ (days + marchOffset) % cycleDays := Int.emod_nonneg _ (by decide)
    simp only [Place.days, hsum', hsum]
    rw [Int.toNat_of_nonneg hpos, Int.mul_comm]
    omega

namespace Place

theorem monthLength_date (place : Place) : daysBeforeMonth place.month +
    monthLength place.date.year place.date.month = monthEnd place.year place.month := by
  have hleap : IsLeap (400 * place.cycle + place.year + 1) ↔ IsLeap (place.year + 1) := by
    unfold IsLeap
    omega
  have hmonth := place.month_lt
  unfold monthEnd yearLength monthLength daysBeforeMonth date
  grind

/-- The first day of a month. -/
def first (cycle : Int) (year month : Nat) (hyear : year < 400) (hmonth : month < 12) : Place :=
  ⟨cycle, year, month, 0, hyear, hmonth, daysBeforeMonth_lt_monthEnd year hmonth⟩

theorem next_date_of_lt {place : Place}
    (h : daysBeforeMonth place.month + (place.day + 1) < monthEnd place.year place.month) :
    place.date.next = { place.date with day := place.date.day + 1 } := by
  have hlength := place.monthLength_date
  have hday : place.date.day = place.day + 1 := rfl
  rw [next, if_pos (by omega)]

section LastDay

variable {place : Place}
  (h : daysBeforeMonth place.month + (place.day + 1) = monthEnd place.year place.month)

include h

theorem next_date_of_last : place.date.next =
    if place.date.month < 12 then ⟨place.date.year, place.date.month + 1, 1⟩
    else ⟨place.date.year + 1, 1, 1⟩ := by
  have hlength := place.monthLength_date
  have hday : place.date.day = place.day + 1 := rfl
  rw [next, if_neg (by omega)]

theorem next_date_of_month_lt (hmonth : place.month < 11) :
    place.date.next =
      (first place.cycle place.year (place.month + 1) place.year_lt (by omega)).date := by
  rw [next_date_of_last h]
  simp only [first, date]
  grind

/-- The year ends with February. -/
theorem next_date_of_month_eq (hmonth : place.month = 11) :
    place.date.next = ⟨400 * place.cycle + place.year + 1, 3, 1⟩ := by
  rw [next_date_of_last h]
  simp [date, hmonth]

/-- The first of March lies in the next year of the cycle, or in the next cycle. -/
theorem exists_march (hmonth : place.month = 11) :
    ∃ after : Place, after.days = place.days + 1 ∧
      after.date = ⟨400 * place.cycle + place.year + 1, 3, 1⟩ := by
  have hzero : daysBeforeMonth 0 = 0 := rfl
  rw [monthEnd, if_neg (by omega)] at h
  rcases Nat.lt_or_ge place.year 399 with hyear | hyear
  · refine ⟨first place.cycle (place.year + 1) 0 (by omega) (by decide), ?_, ?_⟩
    · have hsucc := daysBeforeYear_succ place.year hyear
      simp only [days, first, hzero]
      omega
    · simp [first, date, Int.add_assoc]
  · have hlast : place.year = 399 := Nat.le_antisymm (Nat.le_of_lt_succ place.year_lt) hyear
    have hend : daysBeforeYear 399 + yearLength 399 = 146097 := by decide
    have hzero' : daysBeforeYear 0 = 0 := rfl
    rw [hlast] at h
    refine ⟨first (place.cycle + 1) 0 0 (by decide) (by decide), ?_, ?_⟩
    · simp only [days, first, hzero, hzero', hlast, cycleDays]
      omega
    · simp [first, date, hlast, Int.mul_add, Int.add_assoc]

end LastDay

/-- The day after lies at a place whose date is the next one. -/
theorem exists_next (place : Place) :
    ∃ after : Place, after.days = place.days + 1 ∧ after.date = place.date.next := by
  rcases (Nat.succ_le_of_lt place.day_lt).lt_or_eq with hwithin | hlast
  · refine ⟨{ place with day := place.day + 1, day_lt := hwithin }, ?_, ?_⟩
    · simp only [days]
      omega
    · rw [next_date_of_lt hwithin]
      rfl
  · rcases (Nat.le_of_lt_succ place.month_lt).lt_or_eq with hmonth | hmonth
    · refine ⟨_, ?_, (next_date_of_month_lt hlast hmonth).symm⟩
      rw [Nat.succ_eq_add_one, monthEnd, if_pos hmonth] at hlast
      simp only [days, first]
      omega
    · rw [next_date_of_month_eq hlast hmonth]
      exact exists_march hlast hmonth

end Place

/-! ## Days one after another -/

/-- The rule of the calendar holds for every day. -/
theorem ofDays_succ (days : Int) : ofDays (days + 1) = (ofDays days).next := by
  obtain ⟨place, rfl⟩ := exists_place days
  obtain ⟨after, hdays, hdate⟩ := place.exists_next
  rw [← hdays, ofDays_days, ofDays_days, hdate]

example : ofDays 0 = ⟨1970, 1, 1⟩ := by decide

theorem ofDays_strictMono : StrictMono fun days => (ofDays days).key :=
  strictMono_int_of_lt_succ fun days => by
    rw [ofDays_succ]
    exact key_lt_key_next _

theorem ofDays_year_mono {days later : Int} (h : days ≤ later) :
    (ofDays days).year ≤ (ofDays later).year := by
  rcases h.eq_or_lt with rfl | hlt
  · exact le_rfl
  · rcases key_lt_key.mp (ofDays_strictMono hlt) with hyear | ⟨hyear, -⟩
    · exact hyear.le
    · exact hyear.le

theorem monthLength_le (year : Int) (month : Nat) : monthLength year month ≤ 31 := by
  unfold monthLength
  grind

theorem ofDays_isValid (days : Int) : (ofDays days).IsValid := by
  obtain ⟨place, rfl⟩ := exists_place days
  rw [ofDays_days]
  have hmonth := place.month_lt
  have hlength := place.monthLength_date
  have hday := place.day_lt
  have hdate : place.date.day = place.day + 1 := rfl
  refine ⟨?_, ?_, by omega, by omega⟩
  all_goals
    simp only [Place.date]
    split <;> omega

end Date

namespace Moment

/-! ## Seconds one after another -/

/-- A moment that the calendar and the clock have. -/
structure IsValid (m : Moment) : Prop where
  date : m.date.IsValid
  hour_lt : m.hour < 24
  minute_lt : m.minute < 60
  second_lt : m.second < 60

theorem ofSeconds_isValid (seconds : Int) : (ofSeconds seconds).IsValid := by
  refine ⟨Date.ofDays_isValid _, ?_, ?_, ?_⟩
  all_goals
    simp only [ofSeconds]
    omega

/-- What moments are compared by: the date, then hour, minute and second. -/
def key (m : Moment) : Int ×ₗ Nat ×ₗ Nat ×ₗ Nat ×ₗ Nat ×ₗ Nat :=
  toLex (m.date.year, toLex (m.date.month, toLex (m.date.day,
    toLex (m.hour, toLex (m.minute, m.second)))))

theorem key_lt_key {a b : Moment} : a.key < b.key ↔
    a.date.year < b.date.year ∨ a.date.year = b.date.year ∧
      (a.date.month < b.date.month ∨ a.date.month = b.date.month ∧
        (a.date.day < b.date.day ∨ a.date.day = b.date.day ∧
          (a.hour < b.hour ∨ a.hour = b.hour ∧
            (a.minute < b.minute ∨ a.minute = b.minute ∧ a.second < b.second)))) := by
  simp [key, Prod.Lex.toLex_lt_toLex]

theorem ofSeconds_strictMono : StrictMono fun seconds => (ofSeconds seconds).key := by
  intro seconds later h
  rw [key_lt_key]
  rcases (Int.ediv_le_ediv (by decide : (0 : Int) < 86400) h.le).lt_or_eq with hday | hday
  · have hdate := Date.key_lt_key.mp (Date.ofDays_strictMono hday)
    simp only [ofSeconds]
    omega
  · have hrest : (seconds % 86400).toNat < (later % 86400).toNat := by omega
    simp only [ofSeconds, hday, lt_irrefl, true_and, false_or]
    omega

theorem ofSeconds_injective : Function.Injective ofSeconds :=
  fun _ _ h => ofSeconds_strictMono.injective (congrArg key h)

theorem ofSeconds_year_mono {seconds later : Int} (h : seconds ≤ later) :
    (ofSeconds seconds).date.year ≤ (ofSeconds later).date.year :=
  Date.ofDays_year_mono (Int.ediv_le_ediv (by decide) h)

end Moment

/-- The seconds that have a date are those of the years from -262143 to 262142. -/
theorem calendarRange_iff {seconds : Int} : calendarRange seconds = true ↔
    -262143 ≤ (Moment.ofSeconds seconds).date.year ∧
      (Moment.ofSeconds seconds).date.year ≤ 262142 := by
  have hfirst : (Moment.ofSeconds (-8334601228800)).date.year = -262143 := by decide
  have hbefore : (Moment.ofSeconds (-8334601228801)).date.year = -262144 := by decide
  have hlast : (Moment.ofSeconds 8210266876799).date.year = 262142 := by decide
  have hafter : (Moment.ofSeconds 8210266876800).date.year = 262143 := by decide
  simp only [calendarRange, Bool.and_eq_true, decide_eq_true_eq]
  refine and_congr ⟨fun hlow => ?_, fun hyear => ?_⟩ ⟨fun hhigh => ?_, fun hyear => ?_⟩
  · exact hfirst.ge.trans (Moment.ofSeconds_year_mono hlow)
  · by_contra hless
    have := Moment.ofSeconds_year_mono (show seconds ≤ -8334601228801 by omega)
    omega
  · exact (Moment.ofSeconds_year_mono (Int.le_sub_one_of_lt hhigh)).trans hlast.le
  · by_contra hmore
    have := Moment.ofSeconds_year_mono (show 8210266876800 ≤ seconds by omega)
    omega

end DryKiln
