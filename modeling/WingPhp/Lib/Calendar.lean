import Mathlib.Data.Nat.Find
import Mathlib.Order.Monotone.Basic

/-!
# The Gregorian calendar

Days are numbered from the first of January of the year 0, by the rules of today.  `yearStart` and
`monthOffset` count the days in front of a year and of a month; a `Date` is one that there is.
`dayNumber_ofDayNumber` and `dayNumber_injective`: dates and days are the same thing.

The date of a day is found by looking for the last year, and the last month, that does not start behind
it (`findGreatest_block`).
-/

namespace Calendar

def IsLeap (y : Nat) : Prop := (4 ∣ y ∧ ¬ 100 ∣ y) ∨ 400 ∣ y

instance (y : Nat) : Decidable (IsLeap y) := inferInstanceAs (Decidable (_ ∨ _))

def daysInYear (y : Nat) : Nat := if IsLeap y then 366 else 365

/-- Months count from 1. -/
def daysInMonth (y : Nat) : Nat → Nat
  | 2 => if IsLeap y then 29 else 28
  | 4 | 6 | 9 | 11 => 30
  | _ => 31

/-- The days before a year. -/
def yearStart (y : Nat) : Nat := 365 * y + (y + 3) / 4 - (y + 99) / 100 + (y + 399) / 400

/-- The days of the first `m` months of a year. -/
def monthOffset (y : Nat) : Nat → Nat
  | 0 => 0
  | m + 1 => monthOffset y m + daysInMonth y (m + 1)

/-- The days before a month. -/
def monthStart (y m : Nat) : Nat := yearStart y + monthOffset y (m - 1)

/-- Counting the multiples of `k + 1` up to a year. -/
theorem multiples_succ (k y : Nat) : (y + 1 + k) / (k + 1) = (y + k) / (k + 1) + if k + 1 ∣ y then 1 else 0 := by
  rw [Nat.add_right_comm, Nat.succ_div, Nat.add_assoc y k 1]
  simp only [Nat.dvd_add_self_right]

theorem yearStart_succ (y : Nat) : yearStart (y + 1) = yearStart y + daysInYear y := by
  have hle : (y + 99) / 100 ≤ (y + 3) / 4 := by omega
  have hfour : 100 ∣ y → 4 ∣ y := Nat.dvd_trans (by decide)
  have hhundred : 400 ∣ y → 100 ∣ y := Nat.dvd_trans (by decide)
  unfold yearStart daysInYear
  rw [multiples_succ 3 y, multiples_succ 99 y, multiples_succ 399 y]
  generalize (y + 3) / 4 = fours at hle ⊢
  generalize (y + 99) / 100 = hundreds at hle ⊢
  by_cases h400 : 400 ∣ y
  · have hleap : IsLeap y := .inr h400
    have h100 := hhundred h400
    rw [if_pos (hfour h100), if_pos h100, if_pos h400, if_pos hleap]
    omega
  · by_cases h100 : 100 ∣ y
    · have hcommon : ¬ IsLeap y := not_or.mpr ⟨fun h => h.2 h100, h400⟩
      rw [if_pos (hfour h100), if_pos h100, if_neg h400, if_neg hcommon]
      omega
    · by_cases h4 : 4 ∣ y
      · have hleap : IsLeap y := .inl ⟨h4, h100⟩
        rw [if_pos h4, if_neg h100, if_neg h400, if_pos hleap]
        omega
      · have hcommon : ¬ IsLeap y := not_or.mpr ⟨fun h => h4 h.1, h400⟩
        rw [if_neg h4, if_neg h100, if_neg h400, if_neg hcommon]
        omega

theorem monthOffset_year (y : Nat) : monthOffset y 12 = daysInYear y := by
  simp only [monthOffset, daysInMonth, daysInYear]
  split <;> rfl

theorem yearStart_mono : Monotone yearStart :=
  monotone_nat_of_le_succ fun y => by
    rw [yearStart_succ]
    exact Nat.le_add_right _ _

theorem monthOffset_mono (y : Nat) : Monotone (monthOffset y) :=
  monotone_nat_of_le_succ fun _ => Nat.le_add_right _ _

/-- A month ends before a later one starts. -/
theorem monthStart_le {y m m' : Nat} (hm : 1 ≤ m) (h : m < m') :
    monthStart y m + daysInMonth y m ≤ monthStart y m' := by
  obtain ⟨k, rfl⟩ : ∃ k, m = k + 1 := ⟨m - 1, by omega⟩
  have hle := monthOffset_mono y (show k + 1 ≤ m' - 1 by omega)
  rw [monthOffset] at hle
  rw [monthStart, monthStart, Nat.add_sub_cancel]
  omega

/-! ## Dates -/

/-- The last start that is not behind `n`. -/
theorem findGreatest_block {f : Nat → Nat} {n b : Nat} (h0 : f 0 ≤ n) (hb : n < f (b + 1)) :
    f (Nat.findGreatest (f · ≤ n) b) ≤ n ∧ n < f (Nat.findGreatest (f · ≤ n) b + 1) := by
  refine ⟨@Nat.findGreatest_spec 0 (f · ≤ n) _ b (Nat.zero_le b) h0, ?_⟩
  rcases Nat.lt_or_eq_of_le (Nat.findGreatest_le (P := (f · ≤ n)) b) with hlt | heq
  · have hnot := @Nat.findGreatest_is_greatest _ (f · ≤ n) _ b (Nat.lt_succ_self _) hlt
    exact Nat.lt_of_not_le hnot
  · rw [heq]
    exact hb

def yearOf (n : Nat) : Nat := Nat.findGreatest (yearStart · ≤ n) (n / 365)

/-- From 0. -/
def monthOf (n : Nat) : Nat := Nat.findGreatest (fun m => yearStart (yearOf n) + monthOffset (yearOf n) m ≤ n) 11

theorem yearOf_spec (n : Nat) : yearStart (yearOf n) ≤ n ∧ n < yearStart (yearOf n + 1) := by
  refine findGreatest_block (Nat.zero_le n) ?_
  unfold yearStart
  omega

theorem monthOf_spec (n : Nat) :
    yearStart (yearOf n) + monthOffset (yearOf n) (monthOf n) ≤ n ∧
      n < yearStart (yearOf n) + monthOffset (yearOf n) (monthOf n + 1) := by
  obtain ⟨hyear, hnext⟩ := yearOf_spec n
  refine @findGreatest_block (fun m => yearStart (yearOf n) + monthOffset (yearOf n) m) n 11 hyear ?_
  show n < yearStart (yearOf n) + monthOffset (yearOf n) 12
  rw [monthOffset_year, ← yearStart_succ]
  exact hnext

/-- A day of a month of a year. -/
@[ext] structure Date where
  year : Nat
  month : Nat
  day : Nat
  one_le_month : 1 ≤ month
  month_le : month ≤ 12
  one_le_day : 1 ≤ day
  day_le : day ≤ daysInMonth year month
  deriving DecidableEq

theorem daysInMonth_pos (y m : Nat) : 1 ≤ daysInMonth y m := by
  unfold daysInMonth
  split
  · split <;> decide
  all_goals decide

theorem daysInMonth_le (y m : Nat) : daysInMonth y m ≤ 31 := by
  unfold daysInMonth
  split
  · split <;> decide
  all_goals decide

namespace Date

/-- The first day of a month. -/
def first (y m : Nat) (hm : 1 ≤ m) (hm' : m ≤ 12) : Date := ⟨y, m, 1, hm, hm', Nat.le_refl 1, daysInMonth_pos y m⟩

def dayNumber (d : Date) : Nat := monthStart d.year d.month + (d.day - 1)

def ofDayNumber (n : Nat) : Date where
  year := yearOf n
  month := monthOf n + 1
  day := n - monthStart (yearOf n) (monthOf n + 1) + 1
  one_le_month := Nat.le_add_left 1 _
  month_le := Nat.add_le_add_right (Nat.findGreatest_le 11) 1
  one_le_day := Nat.le_add_left 1 _
  day_le := by
    obtain ⟨hfrom, hto⟩ := monthOf_spec n
    rw [monthOffset] at hto
    rw [monthStart, Nat.add_sub_cancel]
    omega

theorem dayNumber_ofDayNumber (n : Nat) : (ofDayNumber n).dayNumber = n := by
  have h := (monthOf_spec n).1
  show monthStart (yearOf n) (monthOf n + 1) + (n - monthStart (yearOf n) (monthOf n + 1) + 1 - 1) = n
  rw [monthStart, Nat.add_sub_cancel]
  omega

theorem dayNumber_lt_month (d : Date) {m : Nat} (h : d.month < m) : d.dayNumber < monthStart d.year m := by
  have hnext := @monthStart_le d.year d.month m d.one_le_month h
  have hday := d.day_le
  have hone := d.one_le_day
  rw [dayNumber]
  omega

theorem dayNumber_lt_year (d : Date) : d.dayNumber < yearStart (d.year + 1) := by
  have h : d.dayNumber < yearStart d.year + monthOffset d.year 12 :=
    d.dayNumber_lt_month (Nat.lt_succ_of_le d.month_le)
  rwa [monthOffset_year, ← yearStart_succ] at h

theorem yearStart_le_dayNumber (d : Date) : yearStart d.year ≤ d.dayNumber :=
  Nat.le_trans (Nat.le_add_right _ _) (Nat.le_add_right _ _)

/-- A later year, or a later month of the year, is later. -/
theorem dayNumber_lt {d e : Date} (h : d.year < e.year ∨ d.year = e.year ∧ d.month < e.month) :
    d.dayNumber < e.dayNumber := by
  rcases h with hyear | ⟨hyear, hmonth⟩
  · exact Nat.lt_of_lt_of_le (Nat.lt_of_lt_of_le d.dayNumber_lt_year (yearStart_mono hyear)) e.yearStart_le_dayNumber
  · have hlt := d.dayNumber_lt_month hmonth
    rw [hyear] at hlt
    exact Nat.lt_of_lt_of_le hlt (Nat.le_add_right _ _)

/-- **A day has one date.** -/
theorem dayNumber_injective {d e : Date} (h : d.dayNumber = e.dayNumber) : d = e := by
  have hyear : d.year = e.year := by
    rcases Nat.lt_trichotomy d.year e.year with hlt | heq | hgt
    · exact absurd h (Nat.ne_of_lt (dayNumber_lt (.inl hlt)))
    · exact heq
    · exact absurd h (Nat.ne_of_gt (dayNumber_lt (.inl hgt)))
  have hmonth : d.month = e.month := by
    rcases Nat.lt_trichotomy d.month e.month with hlt | heq | hgt
    · exact absurd h (Nat.ne_of_lt (dayNumber_lt (.inr ⟨hyear, hlt⟩)))
    · exact heq
    · exact absurd h (Nat.ne_of_gt (dayNumber_lt (.inr ⟨hyear.symm, hgt⟩)))
  have hday : d.day = e.day := by
    have hone := d.one_le_day
    have hone' := e.one_le_day
    rw [dayNumber, dayNumber, hyear, hmonth] at h
    omega
  exact Date.ext hyear hmonth hday

end Date

/-- From Sunday, 0. -/
def weekday (n : Nat) : Nat := (n + 6) % 7

example : Date.ofDayNumber 736476 = ⟨2016, 5, 27, by decide, by decide, by decide, by decide⟩ := by decide +kernel

example : weekday 736476 = 5 := rfl

end Calendar
