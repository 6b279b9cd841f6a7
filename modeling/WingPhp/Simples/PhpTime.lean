import WingPhp.Lib.Calendar
import WingPhp.Lib.Decimal
import WingPhp.Simples.PhpText

/-!
# `date` and `strtotime`

As far as `wing_crontab.php` uses them, and in its time zone, which is eight hours ahead and has no
summer time any more.  `date` replaces the letters of a format and leaves other characters alone.
`strtotime` reads `year-month-day hour:minute:second`, with four digits for the year and one or two for
the others; a day behind the end of the month goes on into the next one.

`strtotime_written` reads such a text from its digits, `date_date` and the like write it.
-/

namespace WingPhp.Crontab

open Calendar Decimal Ascii PhpText

/-! ## The clock -/

/-- Where the time of PHP starts, by the local clock. -/
def epoch : Nat := 719528 * 86400 + 8 * 3600

/-- The day it is, of those of `Calendar`. -/
def dayOf (t : Nat) : Nat := (epoch + t) / 86400

def dateOf (t : Nat) : Date := .ofDayNumber (dayOf t)

def hourOf (t : Nat) : Nat := (epoch + t) % 86400 / 3600

def minuteOf (t : Nat) : Nat := (epoch + t) % 3600 / 60

def secondOf (t : Nat) : Nat := (epoch + t) % 60

/-! ## `date` -/

/-- With zeros in front. -/
def padDigits (k n : Nat) : List (Fin 10) := (natDigits n).leftpad k 0

/-- One letter of a format. -/
def dateLetter (t : Nat) (c : UInt8) : Text :=
  if c = 0x59 then digitText (padDigits 4 (dateOf t).year)  -- `Y`
  else if c = 0x6d then digitText (padDigits 2 (dateOf t).month)  -- `m`
  else if c = 0x64 then digitText (padDigits 2 (dateOf t).day)  -- `d`
  else if c = 0x48 then digitText (padDigits 2 (hourOf t))  -- `H`
  else if c = 0x73 then digitText (padDigits 2 (secondOf t))  -- `s`
  else if c = 0x77 then digitText (natDigits (weekday (dayOf t)))  -- `w`
  else [c]

def date (format : Text) (t : Nat) : Text := format.flatMap (dateLetter t)

/-! ## `strtotime` -/

/-- A row of digits only. -/
def readDigits (t : Text) : Option (List (Fin 10)) :=
  if (digits (t.map Sym.ofByte)).length = t.length then some (digits (t.map Sym.ofByte)) else none

/-- A number with `fewest` to `most` digits, and up to `max`. -/
def component (fewest most max : Nat) (t : Text) : Option Nat := do
  let ds ← readDigits t
  if fewest ≤ ds.length ∧ ds.length ≤ most ∧ natValue ds ≤ max then some (natValue ds) else none

/-- The day before a month; the month 0 is the last one of the year before. -/
def dayBefore (y m : Nat) : Int := if m = 0 then (yearStart y : Int) - 31 else monthStart y m

def timestamp (y m d h i s : Nat) : Int :=
  (dayBefore y m + d - 1) * 86400 + h * 3600 + i * 60 + s - epoch

/-- `none` is `false`. -/
def strtotime (text : Text) : Option Int :=
  match text.splitOn 32 with
  | [day, time] =>
    match day.splitOn 45, time.splitOn 58 with
    | [y, m, d], [h, i, s] => do
      let y ← component 4 4 9999 y
      let m ← component 1 2 12 m
      let d ← component 1 2 31 d
      let h ← component 1 2 24 h
      let i ← component 1 2 59 i
      let s ← component 1 2 60 s
      some (timestamp y m d h i s)
    | _, _ => none
  | _ => none

example : strtotime (date (ascii "Y-m-d H:5:0") 1464340000) = some 1464339900 := by decide +kernel

/-! ## What `strtotime` makes of digits -/

theorem not_mem_digitText {c : UInt8} (h : ¬ (48 ≤ c.toNat ∧ c.toNat ≤ 57)) (ds : List (Fin 10)) :
    c ∉ digitText ds := fun hmem => h (mem_digitText hmem)

theorem readDigits_digitText (ds : List (Fin 10)) : readDigits (digitText ds) = some ds := by
  have hread := digits_append ds []
  rw [List.append_nil, show digits [] = [] from rfl, List.append_nil] at hread
  rw [readDigits, map_ofByte_digitText, hread, length_digitText, if_pos rfl]

theorem component_digitText (fewest most max : Nat) (ds : List (Fin 10)) :
    component fewest most max (digitText ds) =
      if fewest ≤ ds.length ∧ ds.length ≤ most ∧ natValue ds ≤ max then some (natValue ds) else none := by
  rw [component, readDigits_digitText]
  rfl

/-- One or two digits, for a number up to `max`. -/
structure Short (max : Nat) (ds : List (Fin 10)) : Prop where
  fewest : 1 ≤ ds.length
  most : ds.length ≤ 2
  value : natValue ds ≤ max

theorem component_short {max : Nat} {ds : List (Fin 10)} (h : Short max ds) :
    component 1 2 max (digitText ds) = some (natValue ds) := by
  rw [component_digitText, if_pos ⟨h.fewest, h.most, h.value⟩]

/-- `year-month-day hour:minute:second`. -/
def written (y m d h i s : List (Fin 10)) : Text :=
  digitText y ++ 45 :: (digitText m ++ 45 :: digitText d) ++
    32 :: (digitText h ++ 58 :: (digitText i ++ 58 :: digitText s))

theorem splitOn_two {c : UInt8} {a b : Text} (ha : c ∉ a) (hb : c ∉ b) : (a ++ c :: b).splitOn c = [a, b] := by
  have h := @List.splitOn_intercalate _ [a, b] _ _ c (by simp [ha, hb]) (by simp)
  simpa [List.intercalate] using h

theorem splitOn_three {c : UInt8} {a b d : Text} (ha : c ∉ a) (hb : c ∉ b) (hd : c ∉ d) :
    (a ++ c :: (b ++ c :: d)).splitOn c = [a, b, d] := by
  have h := @List.splitOn_intercalate _ [a, b, d] _ _ c (by simp [ha, hb, hd]) (by simp)
  simpa [List.intercalate] using h

theorem strtotime_components (y m d h i s : List (Fin 10)) :
    strtotime (written y m d h i s) =
      (component 4 4 9999 (digitText y)).bind fun y => (component 1 2 12 (digitText m)).bind fun m =>
        (component 1 2 31 (digitText d)).bind fun d => (component 1 2 24 (digitText h)).bind fun h =>
          (component 1 2 59 (digitText i)).bind fun i => (component 1 2 60 (digitText s)).bind fun s =>
            some (timestamp y m d h i s) := by
  have hsplit : (written y m d h i s).splitOn 32 = [digitText y ++ 45 :: (digitText m ++ 45 :: digitText d),
      digitText h ++ 58 :: (digitText i ++ 58 :: digitText s)] :=
    splitOn_two (by simp [not_mem_digitText]) (by simp [not_mem_digitText])
  have hday : (digitText y ++ 45 :: (digitText m ++ 45 :: digitText d)).splitOn 45 =
      [digitText y, digitText m, digitText d] :=
    splitOn_three (not_mem_digitText (by decide) _) (not_mem_digitText (by decide) _)
      (not_mem_digitText (by decide) _)
  have htime : (digitText h ++ 58 :: (digitText i ++ 58 :: digitText s)).splitOn 58 =
      [digitText h, digitText i, digitText s] :=
    splitOn_three (not_mem_digitText (by decide) _) (not_mem_digitText (by decide) _)
      (not_mem_digitText (by decide) _)
  rw [strtotime, hsplit]
  simp only [hday, htime]
  rfl

/-- **A time that is written properly is read.** -/
theorem strtotime_written {y m d h i s : List (Fin 10)} (hy : y.length = 4) (hm : Short 12 m) (hd : Short 31 d)
    (hh : Short 24 h) (hi : Short 59 i) (hs : Short 60 s) :
    strtotime (written y m d h i s) =
      some (timestamp (natValue y) (natValue m) (natValue d) (natValue h) (natValue i) (natValue s)) := by
  have hyear : natValue y ≤ 9999 := by
    have hlt := natValue_lt y
    rw [hy] at hlt
    omega
  rw [strtotime_components, component_digitText, if_pos ⟨hy.ge, hy.le, hyear⟩, component_short hm, component_short hd,
    component_short hh, component_short hi, component_short hs]
  rfl

/-- A year with five digits is not. -/
theorem strtotime_long_year {y : List (Fin 10)} (hy : y.length ≠ 4) (m d h i s : List (Fin 10)) :
    strtotime (written y m d h i s) = none := by
  rw [strtotime_components, component_digitText, if_neg fun h => hy (Nat.le_antisymm h.2.1 h.1)]
  rfl

/-! ## What `date` writes -/

theorem date_append (a b : Text) (t : Nat) : date (a ++ b) t = date a t ++ date b t := List.flatMap_append

/-- Digits are no letters. -/
theorem date_digits (ds : List (Fin 10)) (t : Nat) : date (digitText ds) t = digitText ds := by
  have hletter : ∀ c ∈ digitText ds, dateLetter t c = [c] := by
    intro c hc
    have hne (x : UInt8) (hx : 57 < x.toNat) : c ≠ x := by
      rintro rfl
      exact absurd (mem_digitText hc).2 (Nat.not_le_of_lt hx)
    rw [dateLetter, if_neg (hne 0x59 (by decide)), if_neg (hne 0x6d (by decide)), if_neg (hne 0x64 (by decide)),
      if_neg (hne 0x48 (by decide)), if_neg (hne 0x73 (by decide)), if_neg (hne 0x77 (by decide))]
  rw [date, List.flatMap_congr hletter]
  exact List.flatMap_singleton' _

theorem padDigits_eq (k n : Nat) : padDigits k n = List.replicate (k - (natDigits n).length) 0 ++ natDigits n := rfl

theorem natValue_padDigits (k n : Nat) : natValue (padDigits k n) = n := by
  rw [padDigits_eq, natValue_zeros, natValue_natDigits]

theorem length_padDigits (k n : Nat) : (padDigits k n).length = max k (natDigits n).length := by
  rw [padDigits_eq, List.length_append, List.length_replicate]
  omega

/-- A year has four digits up to 9999. -/
theorem length_year_iff (y : Nat) : (padDigits 4 y).length = 4 ↔ y ≤ 9999 := by
  have h := @length_natDigits_le_iff y 4 (by decide)
  rw [length_padDigits]
  omega

theorem short_natDigits {max n : Nat} (hn : n ≤ max) (hmax : max < 100) : Short max (natDigits n) := by
  refine ⟨List.length_pos_iff.mpr (natDigits_ne_nil n), length_natDigits_le (by decide) (by omega), ?_⟩
  rw [natValue_natDigits]
  exact hn

theorem short_padDigits {max n : Nat} (hn : n ≤ max) (hmax : max < 100) : Short max (padDigits 2 n) := by
  have hlen := @length_natDigits_le n 2 (by decide) (by omega)
  refine ⟨?_, ?_, ?_⟩
  · rw [length_padDigits]
    omega
  · rw [length_padDigits]
    omega
  · rw [natValue_padDigits]
    exact hn

section
variable (ds : List (Fin 10)) (t : Nat)

theorem date_minute : date (ascii "Y-m-d H:" ++ digitText ds ++ ascii ":0") t =
    written (padDigits 4 (dateOf t).year) (padDigits 2 (dateOf t).month) (padDigits 2 (dateOf t).day)
      (padDigits 2 (hourOf t)) ds [0] := by
  have hfront : ascii "Y-m-d H:" = [0x59, 45, 0x6d, 45, 0x64, 32, 0x48, 58] := by decide
  have hback : ascii ":0" = [58, 48] := by decide
  rw [date_append, date_append, date_digits, hfront, hback]
  simp [date, dateLetter, written, digitText, Sym.byte]

theorem date_hour : date (ascii "Y-m-d " ++ digitText ds ++ ascii ":0:0") t =
    written (padDigits 4 (dateOf t).year) (padDigits 2 (dateOf t).month) (padDigits 2 (dateOf t).day)
      ds [0] [0] := by
  have hfront : ascii "Y-m-d " = [0x59, 45, 0x6d, 45, 0x64, 32] := by decide
  have hback : ascii ":0:0" = [58, 48, 58, 48] := by decide
  rw [date_append, date_append, date_digits, hfront, hback]
  simp [date, dateLetter, written, digitText, Sym.byte]

theorem date_day : date (ascii "Y-m-" ++ digitText ds ++ ascii " 0:0:0") t =
    written (padDigits 4 (dateOf t).year) (padDigits 2 (dateOf t).month) ds [0] [0] [0] := by
  have hfront : ascii "Y-m-" = [0x59, 45, 0x6d, 45] := by decide
  have hback : ascii " 0:0:0" = [32, 48, 58, 48, 58, 48] := by decide
  rw [date_append, date_append, date_digits, hfront, hback]
  simp [date, dateLetter, written, digitText, Sym.byte]

theorem date_month : date (ascii "Y-" ++ digitText ds ++ ascii "-1 0:0:0") t =
    written (padDigits 4 (dateOf t).year) ds [1] [0] [0] [0] := by
  have hfront : ascii "Y-" = [0x59, 45] := by decide
  have hback : ascii "-1 0:0:0" = [45, 49, 32, 48, 58, 48, 58, 48] := by decide
  rw [date_append, date_append, date_digits, hfront, hback]
  simp [date, dateLetter, written, digitText, Sym.byte]

theorem date_midnight : date (ascii "Y-m-d 00:00:00") t =
    written (padDigits 4 (dateOf t).year) (padDigits 2 (dateOf t).month) (padDigits 2 (dateOf t).day)
      [0, 0] [0, 0] [0, 0] := by
  have hformat : ascii "Y-m-d 00:00:00" =
      [0x59, 45, 0x6d, 45, 0x64, 32, 48, 48, 58, 48, 48, 58, 48, 48] := by decide
  rw [hformat]
  simp [date, dateLetter, written, digitText, Sym.byte]

end

/-! ## Points of time -/

theorem day_of_date (t : Nat) :
    dayBefore (dateOf t).year (dateOf t).month + (dateOf t).day - 1 = dayOf t := by
  have hday := Date.dayNumber_ofDayNumber (dayOf t)
  have hmonth := (dateOf t).one_le_month
  have hone := (dateOf t).one_le_day
  rw [dayBefore, if_neg (by omega), ← hday]
  show ((monthStart (dateOf t).year (dateOf t).month : Nat) : Int) + (dateOf t).day - 1 =
    ((monthStart (dateOf t).year (dateOf t).month + ((dateOf t).day - 1) : Nat) : Int)
  omega

section
variable (t n : Nat)

theorem timestamp_minute :
    timestamp (dateOf t).year (dateOf t).month (dateOf t).day (hourOf t) n 0 = t ↔
      n = minuteOf t ∧ secondOf t = 0 := by
  rw [timestamp, day_of_date]
  unfold dayOf hourOf minuteOf secondOf
  omega

theorem timestamp_hour :
    timestamp (dateOf t).year (dateOf t).month (dateOf t).day n 0 0 = t ↔
      n = hourOf t ∧ minuteOf t = 0 ∧ secondOf t = 0 := by
  rw [timestamp, day_of_date]
  unfold dayOf hourOf minuteOf secondOf
  omega

theorem timestamp_day :
    timestamp (dateOf t).year (dateOf t).month n 0 0 0 = t ↔
      n = (dateOf t).day ∧ hourOf t = 0 ∧ minuteOf t = 0 ∧ secondOf t = 0 := by
  have hday := day_of_date t
  rw [timestamp]
  unfold dayOf at hday
  unfold hourOf minuteOf secondOf
  omega

theorem timestamp_month (hn : 1 ≤ n) (hn' : n ≤ 12) :
    timestamp (dateOf t).year n 1 0 0 0 = t ↔
      n = (dateOf t).month ∧ (dateOf t).day = 1 ∧ hourOf t = 0 ∧ minuteOf t = 0 ∧ secondOf t = 0 := by
  have hfirst : dayOf t = monthStart (dateOf t).year n ↔ n = (dateOf t).month ∧ (dateOf t).day = 1 := by
    rw [← Date.dayNumber_ofDayNumber (dayOf t)]
    constructor
    · intro h
      have hdate : dateOf t = Date.first (dateOf t).year n hn hn' := Date.dayNumber_injective h
      exact ⟨(congrArg Date.month hdate).symm, congrArg Date.day hdate⟩
    · rintro ⟨rfl, hday⟩
      show monthStart (dateOf t).year (dateOf t).month + ((dateOf t).day - 1) = _
      rw [hday]
      rfl
  rw [← and_assoc, ← hfirst, timestamp, dayBefore, if_neg (by omega)]
  unfold dayOf hourOf minuteOf secondOf
  omega

end

end WingPhp.Crontab
