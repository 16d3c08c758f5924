/-!
Seconds since the start of 1970, as a clock tells them. What lies between two readings is taken as a
signed word of 64 bits, so that it comes out wrong when it does not fit into one. A second is also a
date and a time of the day, without a time zone, in the Gregorian calendar continued in both
directions.
-/

namespace DryKiln

/-- The seconds from one reading of the clock to another, as a signed word. -/
def secondsSince (earlier now : Int) : Int := (Int64.ofInt (now - earlier)).toInt

/-- The seconds that have a date: from the year -262143 to the year 262142. -/
def calendarRange (seconds : Int) : Bool := -8334601228800 ≤ seconds && seconds < 8210266876800

/-- A day of the calendar. Years before the first one are 0, -1 and so on. -/
structure Date where
  year : Int
  month : Nat
  day : Nat
deriving DecidableEq, Repr

structure Moment where
  date : Date
  hour : Nat
  minute : Nat
  second : Nat
deriving DecidableEq, Repr

namespace Date

/-- The days from the first of March of year 0 to the first of January 1970. -/
def marchOffset : Int := 719468

/-- The days of four hundred years. -/
def cycleDays : Int := 146097

/-- The year, counted from March, in which a day of a four-hundred-year cycle lies. -/
def yearOfCycle (day : Nat) : Nat := (day - day / 1460 + day / 36524 - day / 146096) / 365

/-- The days of a cycle before a year of it. -/
def daysBeforeYear (year : Nat) : Nat := 365 * year + year / 4 - year / 100

/-- The month, counted from March, in which a day of a year lies. -/
def monthOfYear (day : Nat) : Nat := (5 * day + 2) / 153

/-- The days of a year before a month, both counted from March. -/
def daysBeforeMonth (month : Nat) : Nat := (153 * month + 2) / 5

/-- The date so many days after the first of January 1970. -/
def ofDays (days : Int) : Date :=
  let sinceMarch := days + marchOffset
  let cycle := sinceMarch / cycleDays
  let day := (sinceMarch % cycleDays).toNat
  let year := yearOfCycle day
  let dayOfYear := day - daysBeforeYear year
  let month := monthOfYear dayOfYear
  { year := 400 * cycle + year + (if month < 10 then 0 else 1)
    month := if month < 10 then month + 3 else month - 9
    day := dayOfYear - daysBeforeMonth month + 1 }

end Date

namespace Moment

/-- The moment so many seconds after the start of 1970. -/
def ofSeconds (seconds : Int) : Moment :=
  let rest := (seconds % 86400).toNat
  ⟨.ofDays (seconds / 86400), rest / 3600, rest / 60 % 60, rest % 60⟩

/-- A number with at least so many digits. -/
def padded (width n : Nat) : List Char :=
  let row := Nat.toDigits 10 n
  List.replicate (width - row.length) '0' ++ row

/-- A year: four digits, and a sign in front of years before 0 and after 9999. -/
def yearText (year : Int) : List Char :=
  if 0 ≤ year ∧ year ≤ 9999 then padded 4 year.toNat
  else (if year < 0 then '-' else '+') :: padded 4 year.natAbs

/-- Date and time with a T between them and a Z behind. -/
def text (m : Moment) : List Char :=
  yearText m.date.year ++ '-' :: padded 2 m.date.month ++ '-' :: padded 2 m.date.day ++
    'T' :: padded 2 m.hour ++ ':' :: padded 2 m.minute ++ ':' :: padded 2 m.second ++ ['Z']

end Moment
end DryKiln
