import Mathlib.Data.Int.Basic

/-!
# Calendar arithmetic

The firmware sets the time zone `CST-8`, so `localtime_r` and `mktime` are calendar arithmetic
at a fixed offset of eight hours. Of `struct tm` only the date, as the number of the local day,
and the time of day are used.
-/

namespace SaiyuanClock

/-- The offset of the time zone `CST-8` from UTC in seconds. -/
def utcOffset : Int := 28800

/-- The part of `struct tm` that the firmware reads and writes. -/
structure Tm where
  tmDay : Int
  tmHour : Int
  tmMin : Int
  tmSec : Int
  deriving DecidableEq, Repr

/-- `localtime_r` at the fixed offset. -/
def localtimeR (time : Int) : Tm where
  tmDay := (time + utcOffset) / 86400
  tmHour := (time + utcOffset) % 86400 / 3600
  tmMin := (time + utcOffset) % 3600 / 60
  tmSec := (time + utcOffset) % 60

/-- `mktime` at the fixed offset. -/
def mktime (timeinfo : Tm) : Int :=
  timeinfo.tmDay * 86400 + timeinfo.tmHour * 3600 + timeinfo.tmMin * 60 + timeinfo.tmSec - utcOffset

/-- `mktime` undoes `localtime_r`. -/
theorem mktime_localtime_r (time : Int) : mktime (localtimeR time) = time := by
  simp only [mktime, localtimeR, utcOffset]
  omega

/-- An hour, a minute and a second. -/
structure TimeOfDay where
  hh : Int
  mm : Int
  ss : Int
  deriving DecidableEq, Repr

/-- The time of day is one that a clock can show. -/
def TimeOfDay.Valid (time : TimeOfDay) : Prop :=
  (0 ≤ time.hh ∧ time.hh < 24) ∧ (0 ≤ time.mm ∧ time.mm < 60) ∧ 0 ≤ time.ss ∧ time.ss < 60

/-- `sprintf(time_str, "%d:%d:%d", hh, mm, ss)`. -/
def TimeOfDay.text (time : TimeOfDay) : String :=
  toString time.hh ++ ":" ++ toString time.mm ++ ":" ++ toString time.ss

/-- `convert_time_to_hhmmss`. -/
def convertTimeToHhmmss (time : Int) : TimeOfDay :=
  let timeinfo := localtimeR time
  ⟨timeinfo.tmHour, timeinfo.tmMin, timeinfo.tmSec⟩

/-- `convert_hhmmss_to_timestamp` at the clock reading `now`. -/
def convertHhmmssToTimestamp (now : Int) (time : TimeOfDay) : Int :=
  mktime { localtimeR now with tmHour := time.hh, tmMin := time.mm, tmSec := time.ss }

/-- `convert_time_to_hhmmss` gives a time of day. -/
theorem convert_time_to_hhmmss_valid (time : Int) : (convertTimeToHhmmss time).Valid := by
  simp only [TimeOfDay.Valid, convertTimeToHhmmss, localtimeR, utcOffset]
  omega

/-- The timestamp of a time of day lies on the local day of the clock reading and has that time of
day. -/
theorem localtime_r_timestamp (now : Int) {time : TimeOfDay} (h : time.Valid) :
    localtimeR (convertHhmmssToTimestamp now time) =
      { localtimeR now with tmHour := time.hh, tmMin := time.mm, tmSec := time.ss } := by
  obtain ⟨hh, mm, ss⟩ := time
  simp only [TimeOfDay.Valid] at h
  simp only [convertHhmmssToTimestamp, mktime, localtimeR, utcOffset, Tm.mk.injEq]
  refine ⟨?_, ?_, ?_, ?_⟩ <;> omega

/-- The timestamp of a time of day has that time of day. -/
theorem convert_time_to_hhmmss_timestamp (now : Int) {time : TimeOfDay} (h : time.Valid) :
    convertTimeToHhmmss (convertHhmmssToTimestamp now time) = time := by
  unfold convertTimeToHhmmss
  rw [localtime_r_timestamp now h]

/-! ## The text of a time of day -/

/-- The digits of a number that a clock shows determine it, contain no colon, and take at most two
bytes. -/
theorem clock_digits {n : Int} (hnonneg : 0 ≤ n) (h : n < 60) :
    (Nat.ofDigitChars 10 (toString n).toList 0 : Int) = n ∧
      ':' ∉ (toString n).toList ∧ (toString n).utf8ByteSize ≤ 2 := by
  have hdigits : ∀ k : Nat, k < 60 → (Nat.ofDigitChars 10 (toString (k : Int)).toList 0 : Int) = k ∧
      ':' ∉ (toString (k : Int)).toList ∧ (toString (k : Int)).utf8ByteSize ≤ 2 := by decide
  obtain ⟨k, rfl⟩ := Int.eq_ofNat_of_zero_le hnonneg
  exact hdigits k (by omega)

/-- What stands before and after the first separator of a list is determined by the list. -/
theorem append_separator_inj {separator : Char} {first second rest others : List Char}
    (hfirst : separator ∉ first) (hsecond : separator ∉ second)
    (h : first ++ separator :: rest = second ++ separator :: others) :
    first = second ∧ rest = others := by
  rcases List.append_eq_append_iff.mp h with ⟨middle, rfl, hmiddle⟩ | ⟨middle, rfl, hmiddle⟩
  · cases middle with
    | nil => simpa using hmiddle
    | cons c middle =>
        obtain ⟨rfl, -⟩ := List.cons.inj hmiddle
        simp at hsecond
  · cases middle with
    | nil => simpa [eq_comm] using hmiddle
    | cons c middle =>
        obtain ⟨rfl, -⟩ := List.cons.inj hmiddle
        simp at hfirst

/-- A time of day is determined by its text. -/
theorem text_inj {first second : TimeOfDay} (hfirst : first.Valid) (hsecond : second.Valid)
    (h : first.text = second.text) : first = second := by
  obtain ⟨⟨hhh, hhh'⟩, ⟨hmm, hmm'⟩, hss, hss'⟩ := hfirst
  obtain ⟨⟨ohh, ohh'⟩, ⟨omm, omm'⟩, oss, oss'⟩ := hsecond
  have hchars := congrArg String.toList h
  simp only [TimeOfDay.text, String.toList_append, List.append_assoc] at hchars
  obtain ⟨hhours, hrest⟩ := append_separator_inj (clock_digits hhh (by omega)).2.1
    (clock_digits ohh (by omega)).2.1 hchars
  obtain ⟨hminutes, hseconds⟩ := append_separator_inj (clock_digits hmm hmm').2.1
    (clock_digits omm omm').2.1 hrest
  have hseconds : (toString first.ss).toList = (toString second.ss).toList := hseconds
  have hnumbers : first.hh = second.hh ∧ first.mm = second.mm ∧ first.ss = second.ss := by
    rw [← (clock_digits hhh (by omega)).1, ← (clock_digits hmm hmm').1, ← (clock_digits hss hss').1,
      hhours, hminutes, hseconds]
    exact ⟨(clock_digits ohh (by omega)).1, (clock_digits omm omm').1, (clock_digits oss oss').1⟩
  cases first
  cases second
  simpa using hnumbers

/-- The text of a time of day fits an array of nine bytes with its terminating NUL. -/
theorem text_size {time : TimeOfDay} (h : time.Valid) : time.text.utf8ByteSize ≤ 8 := by
  obtain ⟨⟨hhh, hhh'⟩, ⟨hmm, hmm'⟩, hss, hss'⟩ := h
  have hhours := (clock_digits hhh (by omega)).2.2
  have hminutes := (clock_digits hmm hmm').2.2
  have hseconds := (clock_digits hss hss').2.2
  have hcolon : (":" : String).utf8ByteSize = 1 := rfl
  simp only [TimeOfDay.text, String.utf8ByteSize_append, hcolon]
  omega

/-- Two instants have the same text exactly when they are whole days apart. -/
theorem convert_time_text_eq_iff (first second : Int) :
    (convertTimeToHhmmss first).text = (convertTimeToHhmmss second).text ↔
      86400 ∣ first - second := by
  constructor
  · intro htext
    have htime := text_inj (convert_time_to_hhmmss_valid _) (convert_time_to_hhmmss_valid _) htext
    simp only [convertTimeToHhmmss, localtimeR, utcOffset, TimeOfDay.mk.injEq] at htime
    omega
  · intro hdays
    have htime : convertTimeToHhmmss first = convertTimeToHhmmss second := by
      simp only [convertTimeToHhmmss, localtimeR, utcOffset, TimeOfDay.mk.injEq]
      omega
    rw [htime]

end SaiyuanClock
