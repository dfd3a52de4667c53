import Mathlib.Order.SuccPred.Archimedean
import Mathlib.Tactic.IntervalCases

/-! The proleptic Gregorian calendar, with its months and its days in one sequence each. -/

namespace Calendar

/-- Whether a year has a 29 February. -/
def isLeap (year : Int) : Bool := year % 4 == 0 && (year % 100 != 0 || year % 400 == 0)

/-- The days from the first of January of the year 1 to the first of January of a year. -/
def daysBeforeYear (year : Int) : Int :=
  365 * (year - 1) + (year - 1) / 4 - (year - 1) / 100 + (year - 1) / 400

theorem isLeap_iff {year : Int} :
    isLeap year = true ↔ year % 4 = 0 ∧ (year % 100 ≠ 0 ∨ year % 400 = 0) := by
  simp [isLeap]

/-- The next year begins after 366 days or after 365. -/
theorem daysBeforeYear_add_one (year : Int) :
    daysBeforeYear (year + 1) = daysBeforeYear year + if isLeap year then 366 else 365 := by
  -- Each quotient grows exactly in the years that its divisor divides.
  have fourth : year / 4 = (year - 1) / 4 + if year % 4 = 0 then 1 else 0 := by
    split <;> omega
  have hundredth : year / 100 = (year - 1) / 100 + if year % 100 = 0 then 1 else 0 := by
    split <;> omega
  have cycle : year / 400 = (year - 1) / 400 + if year % 400 = 0 then 1 else 0 := by
    split <;> omega
  simp only [daysBeforeYear, isLeap_iff, add_sub_cancel_right, fourth, hundredth, cycle]
  split_ifs <;> omega

/-- A month, by its distance from January of the year 0. -/
@[ext]
structure Month where
  number : Int
  deriving DecidableEq

namespace Month

/-- The month of a year, where a month beyond December is one of a later year. -/
def of (year month : Int) : Month := ⟨12 * year + (month - 1)⟩

def year (m : Month) : Int := m.number / 12

/-- The month within its year, from 1 for January to 12. -/
def month (m : Month) : Int := m.number % 12 + 1

/-- The month that is some months later. -/
def add (m : Month) (months : Int) : Month := ⟨m.number + months⟩

/-- The number of days of a month. -/
def length (m : Month) : Int :=
  if m.month = 2 then if isLeap m.year then 29 else 28
  else if m.month = 4 ∨ m.month = 6 ∨ m.month = 9 ∨ m.month = 11 then 30
  else 31

/-- The days of the same year before a month. -/
def before (m : Month) : Int :=
  (367 * m.month - 362) / 12 + if m.month ≤ 2 then 0 else if isLeap m.year then -1 else -2

/-- The days from the first of January of the year 1 to the first of a month. -/
def firstDay (m : Month) : Int := daysBeforeYear m.year + m.before

variable (m : Month)

theorem of_year_month : of m.year m.month = m := by
  apply Month.ext
  simp only [of, year, month]
  omega

/-- A month that is one of its year keeps both numbers. -/
theorem year_month_of (year : Int) {month : Int} (months : 1 ≤ month ∧ month ≤ 12) :
    (of year month).year = year ∧ (of year month).month = month := by
  simp only [of, Month.year, Month.month]
  omega

/-- Months that are added are carried into the year. -/
theorem of_month_add (months : Int) : of m.year (m.month + months) = m.add months := by
  apply Month.ext
  simp only [of, year, month, add]
  omega

theorem month_bounds : 1 ≤ m.month ∧ m.month ≤ 12 := by
  unfold month
  omega

theorem length_bounds : 28 ≤ m.length ∧ m.length ≤ 31 := by
  unfold length
  split_ifs <;> omega

/-- Every month begins when the one before it is over. -/
theorem firstDay_add_one : (m.add 1).firstDay = m.firstDay + m.length := by
  obtain ⟨one, twelve⟩ := m.month_bounds
  by_cases last : m.month = 12
  · -- After December the next year begins.
    have next : (m.add 1).year = m.year + 1 ∧ (m.add 1).month = 1 := by
      simp only [year, month, add] at *
      omega
    have following := daysBeforeYear_add_one m.year
    simp only [firstDay, before, length, next, last, following]
    split <;> simp_all <;> omega
  · have next : (m.add 1).year = m.year ∧ (m.add 1).month = m.month + 1 := by
      simp only [year, month, add] at *
      omega
    have eleven : m.month ≤ 11 := by omega
    simp only [firstDay, before, length, next]
    generalize m.month = month at *
    interval_cases month <;> simp <;> split <;> omega

/-- Months begin in their order. -/
theorem firstDay_le_iff {m m' : Month} : m.firstDay ≤ m'.firstDay ↔ m.number ≤ m'.number := by
  have increases : StrictMono fun number => firstDay ⟨number⟩ := by
    apply strictMono_int_of_lt_succ
    intro number
    have begins := firstDay_add_one ⟨number⟩
    have lasts := length_bounds ⟨number⟩
    simp only [add] at begins
    omega
  exact increases.le_iff_le

/-- In 4800 months there are 146097 days, which are spread evenly up to a few. -/
theorem firstDay_bounds : 146097 * (m.number - 12) - 28800 ≤ 4800 * m.firstDay ∧
    4800 * m.firstDay ≤ 146097 * (m.number - 12) + 28800 := by
  have year : m.number = 12 * m.year + (m.month - 1) := by
    simp only [year, month]
    omega
  have months := m.month_bounds
  -- Rounding down costs each quotient less than a day, and no month is far from the mean.
  simp only [firstDay, daysBeforeYear, before]
  split_ifs <;> omega

end Month

/-- The month that a day is in. -/
def monthOf (day : Int) : Month :=
  -- The estimate is off by one month at most.
  let m : Month := ⟨4800 * day / 146097 + 12⟩
  if day < m.firstDay then m.add (-1) else if day < (m.add 1).firstDay then m else m.add 1

/-- That month has begun and is not over. -/
theorem monthOf_spec (day : Int) :
    (monthOf day).firstDay ≤ day ∧ day < ((monthOf day).add 1).firstDay := by
  unfold monthOf
  generalize estimate : (⟨4800 * day / 146097 + 12⟩ : Month) = m
  have bounds := m.firstDay_bounds
  rw [← congrArg Month.number estimate] at bounds
  have back : (m.add (-1)).add 1 = m := by
    simp [Month.add]
  have earlier := (m.add (-1)).firstDay_add_one
  have next := m.firstDay_add_one
  have later := (m.add 1).firstDay_add_one
  have lengths := And.intro (m.add (-1)).length_bounds (And.intro m.length_bounds
    (m.add 1).length_bounds)
  rw [back] at earlier
  dsimp only at bounds ⊢
  -- The estimate is a few days off, and no month is that short.
  split
  · rw [back]
    omega
  · split <;> omega

/-- A day lies in the one month that has begun and is not over. -/
theorem monthOf_eq_iff {day : Int} {m : Month} :
    monthOf day = m ↔ m.firstDay ≤ day ∧ day < m.firstDay + m.length := by
  rw [← m.firstDay_add_one]
  constructor
  · intro is
    rw [← is]
    exact monthOf_spec day
  · intro ⟨begun, runs⟩
    obtain ⟨begun', runs'⟩ := monthOf_spec day
    -- Of two different months the earlier one is over when the later one begins.
    have order : (m.add 1).firstDay ≤ (monthOf day).firstDay ↔ _ := Month.firstDay_le_iff
    have order' : ((monthOf day).add 1).firstDay ≤ m.firstDay ↔ _ := Month.firstDay_le_iff
    apply Month.ext
    simp only [Month.add] at *
    omega

/-- A later day is in no earlier month. -/
theorem monthOf_mono {day day' : Int} (le : day ≤ day') :
    (monthOf day).number ≤ (monthOf day').number := by
  have begun := (monthOf_spec day).1
  have runs := (monthOf_spec day').2
  -- An earlier month would be over before the month of the other day begins.
  have order : ((monthOf day').add 1).firstDay ≤ (monthOf day).firstDay ↔ _ :=
    Month.firstDay_le_iff
  simp only [Month.add] at order runs
  omega

/-- The first day of a month is one of it. -/
theorem monthOf_firstDay (m : Month) : monthOf m.firstDay = m := by
  have lasts := m.length_bounds
  exact monthOf_eq_iff.mpr (by omega)

/-- A date, whose day is one of its month. -/
@[ext]
structure Date where
  month : Month
  day : Int
  valid : 1 ≤ day ∧ day ≤ month.length
  deriving DecidableEq

namespace Date

/-- The days from the first of January of the year 1 to a date. -/
def number (d : Date) : Int := d.month.firstDay + (d.day - 1)

/-- The date of a day. -/
def ofNumber (day : Int) : Date where
  month := monthOf day
  day := day - (monthOf day).firstDay + 1
  valid := by
    have spec := monthOf_eq_iff.mp (rfl : monthOf day = monthOf day)
    omega

@[simp]
theorem number_ofNumber (day : Int) : (ofNumber day).number = day := by
  simp [number, ofNumber]

theorem monthOf_number (d : Date) : monthOf d.number = d.month := by
  have valid := d.valid
  unfold number
  exact monthOf_eq_iff.mpr (by omega)

@[simp]
theorem ofNumber_number (d : Date) : ofNumber d.number = d := by
  have month := d.monthOf_number
  apply Date.ext
  · exact month
  · simp only [ofNumber, month]
    unfold number
    omega

/-- Different dates are different days. -/
theorem number_injective : Function.Injective number :=
  Function.LeftInverse.injective ofNumber_number

/-- The date with a year, a month and a day, where there is one. -/
def of? (year month day : Int) : Option Date :=
  if valid : (1 ≤ month ∧ month ≤ 12) ∧ 1 ≤ day ∧ day ≤ (Month.of year month).length then
    some ⟨.of year month, day, valid.2⟩
  else none

@[simp]
theorem of?_self (d : Date) : of? d.month.year d.month.month d.day = some d := by
  obtain ⟨m, day, valid⟩ := d
  have month := m.of_year_month
  unfold of?
  dsimp only
  rw [dif_pos ⟨m.month_bounds, by rwa [month]⟩]
  simp only [month]

end Date

end Calendar
