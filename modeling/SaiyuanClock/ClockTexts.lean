import Mathlib.Order.Monotone.Basic
import SaiyuanClock.Calendar
import SaiyuanClock.Uart

/-!
# The texts of the clock

`refresh_time` writes the time of day and the date of the clock reading as texts. The date of a
local day is counted from the first of January 1970 with the rules of the calendar. The two texts
determine the clock reading, they fit their arrays whatever the clock reads, and the screens show
them as one line each.
-/

namespace SaiyuanClock

open DecimalText

/-! ## Dates -/

/-- A day of the calendar. -/
structure Date where
  year : Nat
  month : Nat
  day : Nat
  deriving DecidableEq, Repr

/-- A leap year. -/
def leapYear (year : Nat) : Prop := year % 4 = 0 ∧ (year % 100 ≠ 0 ∨ year % 400 = 0)

/-- Being a leap year is decidable by its remainders. -/
instance (year : Nat) : Decidable (leapYear year) := inferInstanceAs (Decidable (_ ∧ _))

/-- The number of days of a month. -/
def daysInMonth (year month : Nat) : Nat :=
  if month = 2 then if leapYear year then 29 else 28
  else if month = 4 ∨ month = 6 ∨ month = 9 ∨ month = 11 then 30
  else 31

/-- The next day. -/
def Date.next (date : Date) : Date :=
  if date.day < daysInMonth date.year date.month then { date with day := date.day + 1 }
  else if date.month < 12 then ⟨date.year, date.month + 1, 1⟩
  else ⟨date.year + 1, 1, 1⟩

/-- The date that `localtime_r` gives for the number of a local day. -/
def dateOfDay : Nat → Date
  | 0 => ⟨1970, 1, 1⟩
  | n + 1 => (dateOfDay n).next

/-- A date has a month of the year and a day of the month. -/
def Date.Valid (date : Date) : Prop :=
  (1 ≤ date.month ∧ date.month ≤ 12) ∧ 1 ≤ date.day ∧ date.day ≤ daysInMonth date.year date.month

/-- A month has 28 to 31 days. -/
theorem days_in_month_bounds (year month : Nat) :
    28 ≤ daysInMonth year month ∧ daysInMonth year month ≤ 31 := by
  unfold daysInMonth
  repeat' split
  all_goals omega

/-- The day after a valid date is a valid date. -/
theorem Date.Valid.next {date : Date} (h : date.Valid) : date.next.Valid := by
  obtain ⟨⟨hmonth, hmonth'⟩, hday, -⟩ := h
  unfold Date.next
  by_cases hsame : date.day < daysInMonth date.year date.month
  · rw [if_pos hsame]
    exact ⟨⟨hmonth, hmonth'⟩, by simp, hsame⟩
  · rw [if_neg hsame]
    by_cases hyear : date.month < 12
    · rw [if_pos hyear]
      exact ⟨⟨by simp, hyear⟩, le_rfl, (by decide : 1 ≤ 28).trans (days_in_month_bounds _ _).1⟩
    · rw [if_neg hyear]
      exact ⟨⟨le_rfl, by simp⟩, le_rfl, (by decide : 1 ≤ 28).trans (days_in_month_bounds _ _).1⟩

/-- The date of a local day is valid. -/
theorem date_of_day_valid (n : Nat) : (dateOfDay n).Valid := by
  induction n with
  | zero => exact ⟨⟨le_rfl, by decide⟩, le_rfl, by decide⟩
  | succ n ih => exact ih.next

/-- Dates in the order of the calendar. -/
def Date.rank (date : Date) : Nat := date.year * 372 + date.month * 31 + date.day

/-- The next day is later. -/
theorem Date.rank_lt_next {date : Date} (h : date.Valid) : date.rank < date.next.rank := by
  obtain ⟨⟨hmonth, hmonth'⟩, hday, hday'⟩ := h
  have hbound := (days_in_month_bounds date.year date.month).2
  unfold Date.next
  by_cases hsame : date.day < daysInMonth date.year date.month
  · rw [if_pos hsame]
    simp only [rank]
    omega
  · rw [if_neg hsame]
    by_cases hyear : date.month < 12
    · rw [if_pos hyear]
      simp only [rank]
      omega
    · rw [if_neg hyear]
      simp only [rank]
      omega

/-- Different local days have different dates. -/
theorem date_of_day_injective : Function.Injective dateOfDay := by
  have hmono : StrictMono fun n => (dateOfDay n).rank :=
    strictMono_nat_of_lt_succ fun n => Date.rank_lt_next (date_of_day_valid n)
  exact fun m n h => hmono.injective (congrArg Date.rank h)

/-- A year has at least one day. -/
theorem year_le (n : Nat) : (dateOfDay n).year ≤ 1970 + n := by
  induction n with
  | zero => exact le_rfl
  | succ n ih =>
      show (dateOfDay n).next.year ≤ _
      unfold Date.next
      repeat' split
      all_goals simp only; omega

/-! ## `refresh_time` -/

/-- The two digits of `%H`, `%M`, `%S`, `%m` and `%d`. -/
def twoDigits (n : Nat) : List UInt8 := [digit (n / 10 % 10), digit (n % 10)]

/-- `strftime` with `"%H:%M:%S"`. -/
def timeText (timeinfo : Tm) : List UInt8 :=
  twoDigits timeinfo.tmHour.toNat ++ 58 :: twoDigits timeinfo.tmMin.toNat ++
    58 :: twoDigits timeinfo.tmSec.toNat

/-- `strftime` with `"%Y-%m-%d"`. -/
def dateText (timeinfo : Tm) : List UInt8 :=
  let date := dateOfDay timeinfo.tmDay.toNat
  text date.year ++ 45 :: twoDigits date.month ++ 45 :: twoDigits date.day

/-- A clock reading from the first of January 1970 on, local time, with a year that `tm_year` can
hold. -/
def Representable (now : Int) : Prop := -utcOffset ≤ now ∧ now < 2 ^ 55

/-- Being representable is decidable by the two comparisons. -/
instance (now : Int) : Decidable (Representable now) := inferInstanceAs (Decidable (_ ∧ _))

/-- `refresh_time`: the texts that it writes to `time_s` and `date_s`. -/
def refreshTime (now : Int) : List UInt8 × List UInt8 :=
  let timeinfo := localtimeR now
  (timeText timeinfo, dateText timeinfo)

/-- Two digits determine a number below a hundred. -/
theorem value_two_digits {n : Nat} (h : n < 100) : value (twoDigits n) = n := by
  have hten : n / 10 < 10 := by omega
  simp only [twoDigits, value, List.foldl_cons, List.foldl_nil, Nat.mod_eq_of_lt hten,
    to_nat_digit hten, to_nat_digit (Nat.mod_lt n (by decide : 10 > 0))]
  omega

/-- Two digits determine a number below a hundred. -/
theorem two_digits_inj {m n : Nat} (hm : m < 100) (hn : n < 100)
    (h : twoDigits m = twoDigits n) : m = n := by
  rw [← value_two_digits hm, h, value_two_digits hn]

/-- The time of day that `localtime_r` gives. -/
theorem localtime_r_bounds (now : Int) :
    (0 ≤ (localtimeR now).tmHour ∧ (localtimeR now).tmHour < 24) ∧
      (0 ≤ (localtimeR now).tmMin ∧ (localtimeR now).tmMin < 60) ∧
        0 ≤ (localtimeR now).tmSec ∧ (localtimeR now).tmSec < 60 := by
  simp only [localtimeR]
  omega

/-- The text of the time determines the time of day. -/
theorem time_text_inj {first second : Int}
    (h : timeText (localtimeR first) = timeText (localtimeR second)) :
    (localtimeR first).tmHour = (localtimeR second).tmHour ∧
      (localtimeR first).tmMin = (localtimeR second).tmMin ∧
        (localtimeR first).tmSec = (localtimeR second).tmSec := by
  have hfirst := localtime_r_bounds first
  have hsecond := localtime_r_bounds second
  obtain ⟨hrest, hsec⟩ := List.append_inj' h rfl
  obtain ⟨hhour, hmin⟩ := List.append_inj' hrest rfl
  have hhour := two_digits_inj (by omega) (by omega) hhour
  have hmin := two_digits_inj (by omega) (by omega) (List.cons.inj hmin).2
  have hsec := two_digits_inj (by omega) (by omega) (List.cons.inj hsec).2
  omega

/-- The text of the date determines the day. -/
theorem date_text_inj {first second : Tm} (hfirst : 0 ≤ first.tmDay) (hsecond : 0 ≤ second.tmDay)
    (h : dateText first = dateText second) : first.tmDay = second.tmDay := by
  have hvalid := date_of_day_valid first.tmDay.toNat
  have hvalid' := date_of_day_valid second.tmDay.toNat
  have hbound := (days_in_month_bounds (dateOfDay first.tmDay.toNat).year
    (dateOfDay first.tmDay.toNat).month).2
  have hbound' := (days_in_month_bounds (dateOfDay second.tmDay.toNat).year
    (dateOfDay second.tmDay.toNat).month).2
  simp only [Date.Valid] at hvalid hvalid'
  obtain ⟨hrest, hday⟩ := List.append_inj' h rfl
  obtain ⟨hyear, hmonth⟩ := List.append_inj' hrest rfl
  have hyear := congrArg value hyear
  rw [value_text, value_text] at hyear
  have hmonth := two_digits_inj (by omega) (by omega) (List.cons.inj hmonth).2
  have hday := two_digits_inj (by omega) (by omega) (List.cons.inj hday).2
  have hdate : dateOfDay first.tmDay.toNat = dateOfDay second.tmDay.toNat := by
    cases hd : dateOfDay first.tmDay.toNat
    cases hd' : dateOfDay second.tmDay.toNat
    simp only [hd, hd'] at hyear hmonth hday
    rw [hyear, hmonth, hday]
  have hday := date_of_day_injective hdate
  omega

/-- The two texts of `refresh_time` change with every second: they are the same for two clock
readings only if these are the same. -/
theorem refresh_time_eq_iff {first second : Int} (hfirst : Representable first)
    (hsecond : Representable second) :
    refreshTime first = refreshTime second ↔ first = second := by
  refine ⟨fun h => ?_, congrArg refreshTime⟩
  obtain ⟨htime, hdate⟩ := Prod.ext_iff.mp h
  have hday : ∀ now, -utcOffset ≤ now → 0 ≤ (localtimeR now).tmDay := by
    intro now hnow
    simp only [localtimeR, utcOffset] at hnow ⊢
    omega
  obtain ⟨hhour, hmin, hsec⟩ := time_text_inj htime
  have hday := date_text_inj (hday first hfirst.1) (hday second hsecond.1) hdate
  rw [← mktime_localtime_r first, ← mktime_localtime_r second, mktime, mktime, hday, hhour, hmin,
    hsec]

/-- A second before midnight and midnight have different texts. -/
theorem refresh_time_eq_iff_midnight :
    refreshTime 57599 = refreshTime 57600 ↔ (57599 : Int) = 57600 :=
  refresh_time_eq_iff (by decide) (by decide)

/-- The texts of `refresh_time` and their NUL fit `time_s` and `date_s`, which have 32 bytes,
though `refresh_time` lets `strftime` write 128. -/
theorem refresh_time_fits {now : Int} (h : Representable now) :
    (refreshTime now).1.length + 1 ≤ 32 ∧ (refreshTime now).2.length + 1 ≤ 32 := by
  refine ⟨by simp [refreshTime, timeText, twoDigits], ?_⟩
  have hnow := h.2
  have hday : (localtimeR now).tmDay.toNat < 10 ^ 15 - 1970 := by
    simp only [localtimeR, utcOffset]
    omega
  have hyear := year_le (localtimeR now).tmDay.toNat
  have hlength := length_text_le (n := (dateOfDay (localtimeR now).tmDay.toNat).year) 14 (by omega)
  simp only [refreshTime, dateText, twoDigits, List.length_append, List.length_cons,
    List.length_nil]
  omega

/-- The texts of `refresh_time` consist of digits, colons and hyphens. -/
theorem refresh_time_characters (now : Int) {byte : UInt8}
    (h : byte ∈ (refreshTime now).1 ∨ byte ∈ (refreshTime now).2) :
    IsDigit byte ∨ byte = 58 ∨ byte = 45 := by
  have htwo : ∀ n, byte ∈ twoDigits n → IsDigit byte := by
    intro n hmem
    simp only [twoDigits, List.mem_cons, List.not_mem_nil, or_false] at hmem
    rcases hmem with rfl | rfl
    · exact is_digit_digit (Nat.mod_lt _ (by decide))
    · exact is_digit_digit (Nat.mod_lt _ (by decide))
  simp only [refreshTime, timeText, dateText, List.mem_append, List.mem_cons] at h
  rcases h with ((h | h | h) | h | h) | (h | h | h) | h | h
  · exact .inl (htwo _ h)
  · exact .inr (.inl h)
  · exact .inl (htwo _ h)
  · exact .inr (.inl h)
  · exact .inl (htwo _ h)
  · exact .inl (is_digit_of_mem_text h)
  · exact .inr (.inr h)
  · exact .inl (htwo _ h)
  · exact .inr (.inr h)
  · exact .inl (htwo _ h)

end SaiyuanClock
