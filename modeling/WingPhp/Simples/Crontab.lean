import WingPhp.Simples.PhpTime

/-!
# The time fields of `wing_crontab.php`

Six functions each look at one field of a line and at the time.  Five of them share their shape
(`checkRule`): `*`, a list, a number, and behind a `/` every so many units since the start.  What a number
is compared with differs: the second of the minute (`checkSecondRule`), a whole point of time made of the
number and the present date (`checkAt`), and midnight of a coming day (`checkWeekRule`).

`crontab_right_iff` says when the six together accept what the fields say.
-/

namespace WingPhp.Crontab

open Calendar Decimal Ascii PhpText

/-! ## Loose comparison -/

/-- `==` of a time and a time or `false`. -/
def looseEq (t : Nat) : Option Int → Bool
  | some v => (t : Int) = v
  | none => t = 0

/-- `intval`, of a text without blanks or a `+` in front. -/
def intval (t : Text) : Int :=
  let n := parse (t.map Sym.ofByte)
  if n.neg then -natValue n.whole else natValue n.whole

/-- `==` of two strings, of which the numeric ones here are rows of digits. -/
def looseEqText (a b : Text) : Bool :=
  if a ≠ [] ∧ b ≠ [] ∧ (readDigits a).isSome ∧ (readDigits b).isSome then intval a = intval b else a = b

/-- `%` by 0 gives `false`, which is equal to 0.  The products the functions divide by are taken as whole, as PHP
does while they fit in its integers. -/
def divides (step elapsed : Int) : Bool := step = 0 || elapsed.tmod step = 0

/-! ## One field -/

/-- A field of the line. -/
def column (timesTab : Text) (i : Nat) : Text := (explode (ascii " ") timesTab).getD i []

/-- Behind the first `if`: `*/n` and `a-b/n`. -/
def everyUnits (within : Text → Text → Bool) (unit elapsed : Int) (tab : Text) : Bool :=
  let temp := explode (ascii "/") tab
  let temp0 := temp.getD 0 []
  let every := divides ((temp[1]?).elim 0 intval * unit) elapsed
  if temp0 = ascii "*" ∧ every then true
  else if 45 ∉ temp0 then false
  else
    let sTemp := explode (ascii "-") temp0
    let a := sTemp.getD 0 []
    let b := sTemp.getD 1 []
    -- nothing is less than a missing step
    if (temp[1]?).elim false fun step => decide (intval b - intval a < intval step) then false
    else within a b && every

/-- The rules for a field; `is` compares with one number of it. -/
def checkRule (is : Text → Bool) (within : Text → Text → Bool) (unit elapsed : Int) (tab : Text) : Bool :=
  if tab = ascii "*" then true
  else if 47 ∉ tab then
    if 44 ∈ tab then
      if (explode (ascii ",") tab).any is then true else everyUnits within unit elapsed tab
    else is tab
  else everyUnits within unit elapsed tab

section
variable (timesTab : Text) (startTime t : Nat)

def checkSecondRule : Bool :=
  let timesB := date (ascii "s") t
  checkRule (fun s => intval timesB = intval s) (fun a b => intval a ≤ intval timesB && intval timesB ≤ intval b) 1
    (t - startTime) (column timesTab 0)

/-- A number is put in a format, and the point of time compared with the present one. -/
def checkAt (format : Text → Text) (unit : Int) (tab : Text) : Bool :=
  let at' s := strtotime (date (format s) t)
  checkRule (fun s => looseEq t (at' s))
    (fun a b => (at' a).elim true (fun v => decide (v ≤ t)) && (at' b).elim (decide (t = 0)) fun v => decide (t ≤ v))
    unit (t - startTime) tab

def checkMinuteRule : Bool :=
  checkAt startTime t (fun s => ascii "Y-m-d H:" ++ s ++ ascii ":0") 60 (column timesTab 1)

def checkHourRule : Bool :=
  checkAt startTime t (fun s => ascii "Y-m-d " ++ s ++ ascii ":0:0") 3600 (column timesTab 2)

def checkDayRule : Bool :=
  checkAt startTime t (fun s => ascii "Y-m-" ++ s ++ ascii " 0:0:0") 86400 (column timesTab 3)

def checkMonthRule : Bool :=
  checkAt startTime t (fun s => ascii "Y-" ++ s ++ ascii "-1 0:0:0") 2592000 (column timesTab 4)

/-- `getNextWeekTime`, from the day `i` on. -/
def nextWeekTime (week : Text) (t : Nat) : Nat → Nat → Option Int
  | 0, _ => none
  | left + 1, i =>
    if looseEqText (date (ascii "w") (t + 86400 * i)) week then
      strtotime (date (ascii "Y-m-d 00:00:00") (t + 86400 * i))
    else nextWeekTime week t left (i + 1)

def getNextWeekTime (week : Text) (t : Nat) : Option Int := nextWeekTime week t 13 1

def checkWeekRule : Bool :=
  let tab := column timesTab 5
  let week := date (ascii "w") t
  let is s := looseEqText week s && looseEq t (getNextWeekTime s t)
  if tab = ascii "*" then true
  else if 44 ∈ tab then (explode (ascii ",") tab).any is
  else is tab

/-- The test in `crontab`. -/
def crontab : Bool :=
  checkSecondRule timesTab startTime t && checkMinuteRule timesTab startTime t &&
    checkHourRule timesTab startTime t && checkDayRule timesTab startTime t &&
    checkMonthRule timesTab startTime t && checkWeekRule timesTab t

end

/-! ## What a line says -/

/-- A number in a range, written with or without a zero in front of a single digit. -/
structure Number (lo hi : Nat) where
  value : Nat
  padded : Bool
  lo_le : lo ≤ value
  le_hi : value ≤ hi
  deriving DecidableEq

/-- `*`, or a list of numbers. -/
inductive Field (lo hi : Nat) where
  | star
  | numbers (first : Number lo hi) (rest : List (Number lo hi))
  deriving DecidableEq

section
variable {lo hi : Nat}

def Number.digits (n : Number lo hi) : List (Fin 10) :=
  if n.padded then padDigits 2 n.value else natDigits n.value

def Number.text (n : Number lo hi) : Text := digitText n.digits

def Field.text : Field lo hi → Text
  | .star => ascii "*"
  | .numbers first rest => [44].intercalate ((first :: rest).map Number.text)

/-- It allows a value. -/
def Field.Contains (v : Nat) : Field lo hi → Prop
  | .star => True
  | .numbers first rest => ∃ n ∈ first :: rest, n.value = v

end

structure Line where
  second : Field 0 59
  minute : Field 0 59
  hour : Field 0 23
  day : Field 1 31
  month : Field 1 12
  weekday : Field 0 6

namespace Line

variable (l : Line) (t : Nat)

/-- What `paramsFormat` makes of the fields. -/
def timesTab : Text :=
  [32].intercalate [l.second.text, l.minute.text, l.hour.text, l.day.text, l.month.text, l.weekday.text]

/-- Every field allows what the calendar says. -/
def Matches : Prop :=
  l.second.Contains (secondOf t) ∧ l.minute.Contains (minuteOf t) ∧ l.hour.Contains (hourOf t) ∧
    l.day.Contains (dateOf t).day ∧ l.month.Contains (dateOf t).month ∧ l.weekday.Contains (Calendar.weekday (dayOf t))

/-- It is the first second of the smallest unit that a constrained field needs, the year has four digits if
there is one, and the weekday is not constrained. -/
structure Punctual : Prop where
  minute : l.minute ≠ .star → secondOf t = 0 ∧ (dateOf t).year ≤ 9999
  hour : l.hour ≠ .star → minuteOf t = 0 ∧ secondOf t = 0 ∧ (dateOf t).year ≤ 9999
  day : l.day ≠ .star → hourOf t = 0 ∧ minuteOf t = 0 ∧ secondOf t = 0 ∧ (dateOf t).year ≤ 9999
  month : l.month ≠ .star →
    (dateOf t).day = 1 ∧ hourOf t = 0 ∧ minuteOf t = 0 ∧ secondOf t = 0 ∧ (dateOf t).year ≤ 9999
  weekday : l.weekday = .star

end Line

/-! ## Texts of fields -/

section
variable {lo hi : Nat} (first : Number lo hi) (rest : List (Number lo hi))

/-- A list has digits and commas. -/
theorem mem_numbers {c : UInt8} (h : c ∈ (Field.numbers first rest).text) : c = 44 ∨ 48 ≤ c.toNat ∧ c.toNat ≤ 57 := by
  rcases mem_intercalate h with hc | ⟨l, hl, hc⟩
  · exact .inl (List.mem_singleton.mp hc)
  · obtain ⟨n, -, rfl⟩ := List.mem_map.mp hl
    exact .inr (mem_digitText hc)

theorem not_mem_numbers {c : UInt8} (h : ¬ (c = 44 ∨ 48 ≤ c.toNat ∧ c.toNat ≤ 57)) :
    c ∉ (Field.numbers first rest).text := fun hmem => h (mem_numbers first rest hmem)

theorem numbers_ne_star : (Field.numbers first rest).text ≠ ascii "*" := by
  intro h
  exact not_mem_numbers first rest (c := 42) (by decide) (by rw [h]; decide)

theorem explode_numbers : explode (ascii ",") (Field.numbers first rest).text = (first :: rest).map Number.text := by
  refine explode_intercalate (fun l hl => ?_) (by simp)
  obtain ⟨n, -, rfl⟩ := List.mem_map.mp hl
  exact not_mem_digitText (by decide) _

/-- A comma tells a list from a number. -/
theorem comma_iff : 44 ∈ (Field.numbers first rest).text ↔ rest ≠ [] := by
  cases rest with
  | nil =>
    refine iff_of_false (fun h => ?_) fun h => h rfl
    have htext : (Field.numbers first []).text = first.text := by simp [Field.text, List.intercalate]
    rw [htext] at h
    exact not_mem_digitText (by decide) _ h
  | cons n rest =>
    refine iff_of_true ?_ (by simp)
    rw [Field.text, List.map_cons, List.map_cons, List.intercalate_cons_cons]
    simp

theorem text_single : (Field.numbers first []).text = first.text := by simp [Field.text, List.intercalate]

/-! ## The rules on such fields -/

theorem everyUnits_numbers (within : Text → Text → Bool) (unit elapsed : Int) :
    everyUnits within unit elapsed (Field.numbers first rest).text = false := by
  have hslash : explode (ascii "/") (Field.numbers first rest).text = [(Field.numbers first rest).text] :=
    explode_of_not_mem (not_mem_numbers first rest (by decide))
  rw [everyUnits, hslash]
  simp [numbers_ne_star, not_mem_numbers first rest (show ¬ ((45 : UInt8) = 44 ∨ _) by decide)]

/-- **A list is looked through.** -/
theorem checkRule_numbers (is : Text → Bool) (within : Text → Text → Bool) (unit elapsed : Int) :
    checkRule is within unit elapsed (Field.numbers first rest).text = true ↔
      ∃ n ∈ first :: rest, is n.text = true := by
  rw [checkRule, if_neg (numbers_ne_star first rest), if_pos (not_mem_numbers first rest (by decide))]
  cases rest with
  | nil =>
    rw [if_neg fun h => (comma_iff first []).mp h rfl, text_single]
    simp
  | cons m rest =>
    rw [if_pos ((comma_iff first (m :: rest)).mpr (by simp)), explode_numbers, everyUnits_numbers, List.any_map]
    simp

end

theorem checkRule_star (is : Text → Bool) (within : Text → Text → Bool) (unit elapsed : Int) {lo hi : Nat} :
    checkRule is within unit elapsed (Field.star : Field lo hi).text = true := if_pos rfl

/-- The columns are the fields. -/
theorem explode_timesTab (l : Line) : explode (ascii " ") l.timesTab =
    [l.second.text, l.minute.text, l.hour.text, l.day.text, l.month.text, l.weekday.text] := by
  have hblank {lo hi : Nat} (f : Field lo hi) : 32 ∉ f.text := by
    cases f with
    | star =>
      show 32 ∉ ascii "*"
      decide
    | numbers first rest => exact not_mem_numbers first rest (by decide)
  have hfields : ∀ f ∈ [l.second.text, l.minute.text, l.hour.text, l.day.text, l.month.text, l.weekday.text],
      32 ∉ f := by simp [hblank]
  exact explode_intercalate hfields (by simp)

theorem short_number {lo hi : Nat} (n : Number lo hi) (hhi : hi < 100) : Short hi n.digits := by
  unfold Number.digits
  split
  · exact short_padDigits n.le_hi hhi
  · exact short_natDigits n.le_hi hhi

theorem natValue_number {lo hi : Nat} (n : Number lo hi) : natValue n.digits = n.value := by
  unfold Number.digits
  split
  · exact natValue_padDigits 2 n.value
  · exact natValue_natDigits n.value

theorem intval_digitText (ds : List (Fin 10)) : intval (digitText ds) = natValue ds := by
  have hread := digits_append ds []
  rw [List.append_nil, show digits [] = [] from rfl, List.append_nil] at hread
  rw [intval, map_ofByte_digitText]
  cases ds with
  | nil => rfl
  | cons d ds =>
    show (natValue (digits ((d :: ds).map .digit)) : Int) = natValue (d :: ds)
    rw [hread]

theorem date_second (t : Nat) : date (ascii "s") t = digitText (padDigits 2 (secondOf t)) := by
  have hformat : ascii "s" = [0x73] := by decide
  rw [hformat]
  simp [date, dateLetter]

section
variable (startTime t : Nat)

theorem checkSecondRule_iff (l : Line) :
    checkSecondRule l.timesTab startTime t = true ↔ l.second.Contains (secondOf t) := by
  rw [checkSecondRule, column, explode_timesTab]
  show checkRule _ _ _ _ l.second.text = true ↔ _
  cases l.second with
  | star => exact iff_of_true (checkRule_star _ _ _ _) trivial
  | numbers first rest =>
    rw [checkRule_numbers]
    have hone (n : Number 0 59) :
        decide (intval (date (ascii "s") t) = intval n.text) = true ↔ n.value = secondOf t := by
      rw [date_second, intval_digitText, natValue_padDigits, Number.text, intval_digitText, natValue_number,
        decide_eq_true_eq]
      omega
    simp only [hone]
    rfl

/-- A time that cannot be read is not the present one. -/
theorem year_of_zero : (dateOf 0).year = 1970 := by decide +kernel

/-- A text that starts with the present year stands for the present time. -/
theorem looseEq_written {m d h i s : List (Fin 10)} (hm : Short 12 m) (hd : Short 31 d) (hh : Short 24 h)
    (hi : Short 59 i) (hs : Short 60 s) :
    looseEq t (strtotime (written (padDigits 4 (dateOf t).year) m d h i s)) = true ↔
      timestamp (dateOf t).year (natValue m) (natValue d) (natValue h) (natValue i) (natValue s) = t ∧
        (dateOf t).year ≤ 9999 := by
  by_cases hyear : (dateOf t).year ≤ 9999
  · rw [strtotime_written ((length_year_iff _).mpr hyear) hm hd hh hi hs, natValue_padDigits, looseEq,
      decide_eq_true_eq, and_iff_left hyear]
    exact eq_comm
  · rw [strtotime_long_year fun h => hyear ((length_year_iff _).mp h), looseEq, decide_eq_true_eq]
    refine iff_of_false (fun hzero => hyear ?_) fun h => hyear h.2
    rw [hzero, year_of_zero]
    decide

theorem short_month : Short 12 (padDigits 2 (dateOf t).month) :=
  short_padDigits (dateOf t).month_le (by decide)

theorem short_day : Short 31 (padDigits 2 (dateOf t).day) :=
  short_padDigits (Nat.le_trans (dateOf t).day_le (daysInMonth_le _ _)) (by decide)

theorem short_hour : Short 24 (padDigits 2 (hourOf t)) := by
  refine short_padDigits ?_ (by decide)
  unfold hourOf
  omega

theorem short_zero {max : Nat} : Short max [0] := ⟨by decide, by decide, Nat.zero_le _⟩

/-- A field that is put in a format. -/
theorem checkAt_iff {format : Text → Text} {unit : Int} {lo hi : Nat} {f : Field lo hi} {v : Nat} {P : Prop}
    (h : ∀ n : Number lo hi, looseEq t (strtotime (date (format n.text) t)) = true ↔ n.value = v ∧ P) :
    checkAt startTime t format unit f.text = true ↔ f.Contains v ∧ (f ≠ .star → P) := by
  rw [checkAt]
  cases f with
  | star => exact iff_of_true (checkRule_star _ _ _ _) ⟨trivial, fun h => absurd rfl h⟩
  | numbers first rest =>
    rw [checkRule_numbers]
    simp only [h]
    constructor
    · rintro ⟨n, hn, hv, hP⟩
      exact ⟨⟨n, hn, hv⟩, fun _ => hP⟩
    · rintro ⟨⟨n, hn, hv⟩, hP⟩
      exact ⟨n, hn, hv, hP (by simp)⟩

theorem checkMinuteRule_iff (l : Line) : checkMinuteRule l.timesTab startTime t = true ↔
    l.minute.Contains (minuteOf t) ∧ (l.minute ≠ .star → secondOf t = 0 ∧ (dateOf t).year ≤ 9999) := by
  rw [checkMinuteRule, column, explode_timesTab]
  refine checkAt_iff startTime t (f := l.minute) fun n => ?_
  rw [Number.text, date_minute, looseEq_written t (short_month t) (short_day t) (short_hour t)
    (short_number n (by decide)) short_zero]
  simp only [natValue_padDigits, natValue_number]
  rw [show natValue [0] = 0 from rfl, timestamp_minute, and_assoc]

theorem checkHourRule_iff (l : Line) : checkHourRule l.timesTab startTime t = true ↔
    l.hour.Contains (hourOf t) ∧
      (l.hour ≠ .star → minuteOf t = 0 ∧ secondOf t = 0 ∧ (dateOf t).year ≤ 9999) := by
  rw [checkHourRule, column, explode_timesTab]
  refine checkAt_iff startTime t (f := l.hour) fun n => ?_
  have hn := short_number n (by decide)
  rw [Number.text, date_hour, looseEq_written t (short_month t) (short_day t)
    ⟨hn.fewest, hn.most, Nat.le_succ_of_le hn.value⟩ short_zero short_zero]
  simp only [natValue_padDigits, natValue_number]
  rw [show natValue [0] = 0 from rfl, timestamp_hour, and_assoc, and_assoc]

theorem checkDayRule_iff (l : Line) : checkDayRule l.timesTab startTime t = true ↔
    l.day.Contains (dateOf t).day ∧
      (l.day ≠ .star → hourOf t = 0 ∧ minuteOf t = 0 ∧ secondOf t = 0 ∧ (dateOf t).year ≤ 9999) := by
  rw [checkDayRule, column, explode_timesTab]
  refine checkAt_iff startTime t (f := l.day) fun n => ?_
  rw [Number.text, date_day, looseEq_written t (short_month t) (short_number n (by decide)) short_zero short_zero
    short_zero]
  simp only [natValue_padDigits, natValue_number]
  rw [show natValue [0] = 0 from rfl, timestamp_day, and_assoc, and_assoc, and_assoc]

theorem checkMonthRule_iff (l : Line) : checkMonthRule l.timesTab startTime t = true ↔
    l.month.Contains (dateOf t).month ∧
      (l.month ≠ .star → (dateOf t).day = 1 ∧ hourOf t = 0 ∧ minuteOf t = 0 ∧ secondOf t = 0 ∧
        (dateOf t).year ≤ 9999) := by
  rw [checkMonthRule, column, explode_timesTab]
  refine checkAt_iff startTime t (f := l.month) fun n => ?_
  have hone : Short 31 [1] := ⟨by decide, by decide, by decide⟩
  rw [Number.text, date_month, looseEq_written t (short_number n (by decide)) hone short_zero short_zero short_zero]
  simp only [natValue_number]
  rw [show natValue [0] = 0 from rfl, show natValue [1] = 1 from rfl, timestamp_month t n.value n.lo_le n.le_hi,
    and_assoc, and_assoc, and_assoc, and_assoc]

/-! ## The weekday -/

theorem date_week : date (ascii "w") t = digitText (natDigits (weekday (dayOf t))) := by
  have hformat : ascii "w" = [0x77] := by decide
  rw [hformat]
  simp [date, dateLetter]

/-- **Midnight of a coming day is not now.** -/
theorem midnight_ne {i : Nat} (hi : 1 ≤ i) (hi' : i ≤ 13) :
    looseEq t (strtotime (date (ascii "Y-m-d 00:00:00") (t + 86400 * i))) = false := by
  have hzero : Short 24 [0, 0] ∧ Short 59 [0, 0] ∧ Short 60 [0, 0] :=
    ⟨⟨by decide, by decide, by decide⟩, ⟨by decide, by decide, by decide⟩, ⟨by decide, by decide, by decide⟩⟩
  rw [date_midnight]
  by_cases hyear : (dateOf (t + 86400 * i)).year ≤ 9999
  · have hday := day_of_date (t + 86400 * i)
    rw [strtotime_written ((length_year_iff _).mpr hyear) (short_month _) (short_day _) hzero.1 hzero.2.1 hzero.2.2]
    simp only [natValue_padDigits]
    rw [show natValue [0, 0] = 0 from rfl, looseEq, decide_eq_false_iff_not, timestamp, hday]
    unfold dayOf
    omega
  · rw [strtotime_long_year fun h => hyear ((length_year_iff _).mp h), looseEq, decide_eq_false_iff_not]
    rintro rfl
    refine hyear (Nat.le_trans (Nat.findGreatest_le _) ?_)
    unfold dayOf epoch
    omega

/-- The loop ends on such a midnight, if it finds the weekday. -/
theorem nextWeekTime_ne (week : Text) {left i : Nat} (hi : 1 ≤ i) (hle : i + left ≤ 14)
    (hfound : ∃ j, i ≤ j ∧ j < i + left ∧ looseEqText (date (ascii "w") (t + 86400 * j)) week = true) :
    looseEq t (nextWeekTime week t left i) = false := by
  induction left generalizing i with
  | zero =>
    obtain ⟨j, hj, hlt, -⟩ := hfound
    omega
  | succ left ih =>
    rw [nextWeekTime]
    by_cases hweek : looseEqText (date (ascii "w") (t + 86400 * i)) week = true
    · rw [if_pos hweek]
      exact midnight_ne t hi (by omega)
    · rw [if_neg hweek]
      obtain ⟨j, hj, hlt, hat⟩ := hfound
      have hne : j ≠ i := by
        rintro rfl
        exact hweek hat
      exact ih (by omega) (by omega) ⟨j, by omega, by omega, hat⟩

/-- **No weekday is accepted.** -/
theorem week_refused (s : Text) :
    (looseEqText (date (ascii "w") t) s && looseEq t (getNextWeekTime s t)) = false := by
  cases hweek : looseEqText (date (ascii "w") t) s with
  | false => rfl
  | true =>
    have hnext : weekday (dayOf (t + 86400 * 7)) = weekday (dayOf t) := by
      unfold weekday dayOf
      omega
    have hfound : looseEqText (date (ascii "w") (t + 86400 * 7)) s = true := by
      rw [date_week, hnext, ← date_week]
      exact hweek
    rw [Bool.true_and, getNextWeekTime]
    exact nextWeekTime_ne t s (Nat.le_refl 1) (Nat.le_refl 14) ⟨7, by decide, by decide, hfound⟩

theorem checkWeekRule_iff (l : Line) : checkWeekRule l.timesTab t = true ↔ l.weekday = .star := by
  rw [checkWeekRule, column, explode_timesTab]
  show (if l.weekday.text = ascii "*" then true
    else if 44 ∈ l.weekday.text then (explode (ascii ",") l.weekday.text).any _ else _) = true ↔ _
  cases l.weekday with
  | star => exact iff_of_true (if_pos rfl) rfl
  | numbers first rest =>
    refine iff_of_false ?_ (by simp)
    rw [if_neg (numbers_ne_star first rest)]
    simp only [week_refused]
    split <;> simp

/-! ## All six -/

theorem crontab_iff (l : Line) : crontab l.timesTab startTime t = true ↔
    (l.second.Contains (secondOf t) ∧ l.minute.Contains (minuteOf t) ∧ l.hour.Contains (hourOf t) ∧
      l.day.Contains (dateOf t).day ∧ l.month.Contains (dateOf t).month) ∧ l.Punctual t := by
  simp only [crontab, Bool.and_eq_true, checkSecondRule_iff, checkMinuteRule_iff, checkHourRule_iff, checkDayRule_iff,
    checkMonthRule_iff, checkWeekRule_iff]
  constructor
  · rintro ⟨⟨⟨⟨⟨hsecond, hminute⟩, hhour⟩, hday⟩, hmonth⟩, hweek⟩
    exact ⟨⟨hsecond, hminute.1, hhour.1, hday.1, hmonth.1⟩, hminute.2, hhour.2, hday.2, hmonth.2, hweek⟩
  · rintro ⟨⟨hsecond, hminute, hhour, hday, hmonth⟩, hp⟩
    exact ⟨⟨⟨⟨⟨hsecond, hminute, hp.minute⟩, hhour, hp.hour⟩, hday, hp.day⟩, hmonth, hp.month⟩, hp.weekday⟩

/-- **The functions accept what the fields say** when the time is not one the fields allow, or it is the
first second of the units they constrain and the weekday is not constrained. -/
theorem crontab_right_iff (l : Line) (startTime t : Nat) :
    (crontab l.timesTab startTime t = true ↔ l.Matches t) ↔ (l.Matches t → l.Punctual t) := by
  rw [crontab_iff]
  constructor
  · intro h hmatches
    exact (h.mpr hmatches).2
  · intro h
    constructor
    · rintro ⟨⟨hsecond, hminute, hhour, hday, hmonth⟩, hp⟩
      refine ⟨hsecond, hminute, hhour, hday, hmonth, ?_⟩
      rw [hp.weekday]
      trivial
    · intro hmatches
      obtain ⟨hsecond, hminute, hhour, hday, hmonth, -⟩ := id hmatches
      exact ⟨⟨hsecond, hminute, hhour, hday, hmonth⟩, h hmatches⟩

end

/-- `0 6 17 * * *`. -/
def sixPastFive : Line :=
  ⟨.numbers ⟨0, false, by decide, by decide⟩ [], .numbers ⟨6, false, by decide, by decide⟩ [],
    .numbers ⟨17, false, by decide, by decide⟩ [], .star, .star, .star⟩

/-- At 17:06:00 the hour is not accepted, which wants 17:00:00. -/
theorem crontab_past_the_hour :
    ¬ (crontab sixPastFive.timesTab 1464339960 1464339960 = true ↔ sixPastFive.Matches 1464339960) := by
  have hmatches : sixPastFive.Matches 1464339960 :=
    ⟨⟨_, List.mem_cons_self, by decide⟩, ⟨_, List.mem_cons_self, by decide⟩, ⟨_, List.mem_cons_self, by decide⟩,
      trivial, trivial, trivial⟩
  rw [crontab_iff]
  intro h
  have hpunctual := (h.mpr hmatches).2.hour (by decide)
  exact absurd hpunctual.1 (by decide)

end WingPhp.Crontab
