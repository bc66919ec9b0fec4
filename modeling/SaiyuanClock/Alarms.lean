import Mathlib.Algebra.Ring.Int.Defs
import Mathlib.Data.List.Basic
import Mathlib.Logic.Function.Basic
import SaiyuanClock.Calendar

/-!
# The alarm store

The part of `static_vars_t` that the tasks share, and the functions of `utils.c` and
`activity.c` on the alarms in it. `time_t` is a 64-bit type whose values the firmware keeps far
from its bounds, so timestamps are integers; the narrowing to `int` in the call of `abs` is
explicit.
-/

namespace SaiyuanClock

/-- `alarm_t`. The text is `none` until it has been written. -/
structure Alarm where
  alarmTimestamp : Int
  alarmTimeString : Option String
  deriving DecidableEq, Repr

/-- The variables that `static_vars_t` points to: the array of alarms with its count and
capacity, the command slot, and the buffer of the data-sync frame. -/
structure StaticVars where
  alarms : Vector Alarm 8
  alarmCount : Nat
  alarmCapacity : Nat
  isCommand : Bool
  commandLastIndex : Nat
  uartDataTx : List UInt8
  deriving DecidableEq

namespace StaticVars

/-- The stored alarms, that is, the first `alarm_count` entries of the array. -/
def stored (vars : StaticVars) : List Alarm := vars.alarms.toList.take vars.alarmCount

/-- Write to one entry of the array. -/
def modifyAlarm (vars : StaticVars) (i : Nat) (f : Alarm → Alarm) : StaticVars :=
  if h : i < 8 then { vars with alarms := vars.alarms.set i (f vars.alarms[i]) } else vars

/-- Writing to one entry leaves the others as they are. -/
theorem modify_alarm_get (vars : StaticVars) (i j : Nat) (f : Alarm → Alarm) :
    (vars.modifyAlarm i f).alarms[j]? =
      if i = j then vars.alarms[j]?.map f else vars.alarms[j]? := by
  unfold modifyAlarm
  split
  · next hi =>
    rw [Vector.getElem?_set]
    split
    · next heq =>
      subst heq
      simp [Vector.getElem?_eq_getElem hi]
    · rfl
  · next hi =>
    split
    · next heq =>
      subst heq
      simp [Vector.getElem?_eq_none (Nat.le_of_not_lt hi)]
    · rfl

@[simp] theorem modify_alarm_count (vars : StaticVars) (i : Nat) (f : Alarm → Alarm) :
    (vars.modifyAlarm i f).alarmCount = vars.alarmCount := by
  unfold modifyAlarm
  split <;> rfl

@[simp] theorem modify_alarm_capacity (vars : StaticVars) (i : Nat) (f : Alarm → Alarm) :
    (vars.modifyAlarm i f).alarmCapacity = vars.alarmCapacity := by
  unfold modifyAlarm
  split <;> rfl

@[simp] theorem modify_alarm_is_command (vars : StaticVars) (i : Nat) (f : Alarm → Alarm) :
    (vars.modifyAlarm i f).isCommand = vars.isCommand := by
  unfold modifyAlarm
  split <;> rfl

@[simp] theorem modify_alarm_command_last_index (vars : StaticVars) (i : Nat)
    (f : Alarm → Alarm) :
    (vars.modifyAlarm i f).commandLastIndex = vars.commandLastIndex := by
  unfold modifyAlarm
  split <;> rfl

/-- The timestamp of an entry of the array. -/
def timestamp (vars : StaticVars) (i : Nat) : Int :=
  (vars.alarms[i]?.map Alarm.alarmTimestamp).getD 0

/-- The timestamp of an entry that is read. -/
theorem timestamp_of_get {vars : StaticVars} {i : Nat} {alarm : Alarm}
    (h : vars.alarms[i]? = some alarm) : vars.timestamp i = alarm.alarmTimestamp := by
  simp [timestamp, h]

/-- Writing to one entry leaves the timestamps of the others as they are. -/
theorem timestamp_modify_alarm_ne (vars : StaticVars) {i j : Nat} (hij : i ≠ j)
    (f : Alarm → Alarm) : (vars.modifyAlarm i f).timestamp j = vars.timestamp j := by
  unfold timestamp
  rw [modify_alarm_get, if_neg hij]

/-- Writing to an entry changes its timestamp as the written function does. -/
theorem timestamp_modify_alarm (vars : StaticVars) {i : Nat} (hi : i < 8) {f : Alarm → Alarm}
    {g : Int → Int} (hf : ∀ alarm, (f alarm).alarmTimestamp = g alarm.alarmTimestamp) :
    (vars.modifyAlarm i f).timestamp = Function.update vars.timestamp i (g (vars.timestamp i)) := by
  funext j
  by_cases hij : i = j
  · subst hij
    unfold timestamp
    rw [modify_alarm_get, if_pos rfl, Function.update_self, Vector.getElem?_eq_getElem hi]
    simp [hf]
  · rw [timestamp_modify_alarm_ne vars hij, Function.update_of_ne (Ne.symm hij)]

/-- Writing to the text of an entry leaves all timestamps as they are. -/
theorem timestamp_modify_alarm_text (vars : StaticVars) (i : Nat) (f : Alarm → Alarm)
    (hf : ∀ alarm, (f alarm).alarmTimestamp = alarm.alarmTimestamp) :
    (vars.modifyAlarm i f).timestamp = vars.timestamp := by
  funext j
  by_cases hij : i = j
  · subst hij
    unfold timestamp
    rw [modify_alarm_get, if_pos rfl, Option.map_map]
    simp [Function.comp_def, hf]
  · exact timestamp_modify_alarm_ne vars hij f

/-- A stored alarm is an entry below the count. -/
theorem stored_get_iff {vars : StaticVars} {i : Nat} {alarm : Alarm} :
    vars.stored[i]? = some alarm ↔ i < vars.alarmCount ∧ vars.alarms[i]? = some alarm := by
  simp [stored, List.getElem?_take]

/-- The first of the stored alarms from entry `i` on is that entry. -/
theorem get_of_stored_drop {vars : StaticVars} {i : Nat} {alarm : Alarm} {alarms : List Alarm}
    (h : vars.stored.drop i = alarm :: alarms) :
    i < vars.alarmCount ∧ vars.alarms[i]? = some alarm := by
  rw [← stored_get_iff, ← List.head?_drop, h, List.head?_cons]

/-- A count that fits the array is the number of stored alarms. -/
theorem stored_length {vars : StaticVars} (h : vars.alarmCount ≤ 8) :
    vars.stored.length = vars.alarmCount := by
  simp only [stored, List.length_take, Vector.length_toList]
  omega

end StaticVars

/-! ## The due test -/

/-- The conversion of a wider integer to the 32-bit type `int`. -/
def toInt32 (x : Int) : Int :=
  if x % 2 ^ 32 < 2 ^ 31 then x % 2 ^ 32 else x % 2 ^ 32 - 2 ^ 32

/-- `abs` of the C library, whose argument is converted to `int`. The `abs` of the least `int` is
undefined in C. Here it is what a negation that wraps gives, a negative number, which the due test
takes for less than a minute; a compiler may also take it for a large one. -/
def cAbs (x : Int) : Int :=
  if toInt32 x < 0 then toInt32 (-toInt32 x) else toInt32 x

/-- `check_alarm` of an alarm with the given timestamp at the clock reading `now`. -/
def checkAlarm (timestamp now : Int) : Bool := cAbs (now - timestamp) < 60

/-- The due test in terms of the difference modulo `2 ^ 32`. -/
theorem check_alarm_iff (timestamp now : Int) :
    checkAlarm timestamp now = true ↔
      (now - timestamp) % 2 ^ 32 < 60 ∨ 2 ^ 32 - 60 < (now - timestamp) % 2 ^ 32 ∨
        (now - timestamp) % 2 ^ 32 = 2 ^ 31 := by
  rw [checkAlarm, decide_eq_true_eq, cAbs]
  unfold toInt32
  omega

/-- An alarm less than a minute from the clock reading is due. -/
theorem check_alarm_of_near {timestamp now : Int} (h : -60 < now - timestamp)
    (h' : now - timestamp < 60) : checkAlarm timestamp now = true := by
  rw [check_alarm_iff]
  omega

/-- A difference that does not fit into `int` and that the narrowing in the call of `abs` turns
into one of less than a minute. -/
def Narrowed (difference : Int) : Prop :=
  (difference ≤ -2 ^ 31 ∨ 2 ^ 31 ≤ difference) ∧
    (difference % 2 ^ 32 < 60 ∨ 2 ^ 32 - 60 < difference % 2 ^ 32 ∨ difference % 2 ^ 32 = 2 ^ 31)

/-- An alarm is due less than a minute from its time, and where the difference is narrowed. -/
theorem check_alarm_cases (alarmTimestamp now : Int) :
    checkAlarm alarmTimestamp now = true ↔
      alarmTimestamp - 60 < now ∧ now < alarmTimestamp + 60 ∨ Narrowed (now - alarmTimestamp) := by
  rw [check_alarm_iff, Narrowed]
  omega

/-- `check_alarms` at the clock reading `now`: the loop stops at the first alarm that is due. -/
def checkAlarms (vars : StaticVars) (now : Int) : Bool :=
  vars.stored.any fun alarm => checkAlarm alarm.alarmTimestamp now

/-! ## The nearest alarm -/

/-- The loop of `find_nearest_alarm` from entry `i` on, with the values of `nearest_time` and
`nearest_alarm` so far. -/
def findNearestLoop (now : Int) :
    List Alarm → (i : Nat) → (nearestTime : Int) → (nearestAlarm : Option Nat) → Option Nat
  | [], _, _, nearestAlarm => nearestAlarm
  | alarm :: alarms, i, nearestTime, nearestAlarm =>
      if alarm.alarmTimestamp - now < nearestTime then
        findNearestLoop now alarms (i + 1) (alarm.alarmTimestamp - now) (some i)
      else findNearestLoop now alarms (i + 1) nearestTime nearestAlarm

/-- `find_nearest_alarm` at the clock reading `now`: the index of the entry that the returned
pointer designates, `none` for `NULL`. -/
def findNearestAlarm (vars : StaticVars) (now : Int) : Option Nat :=
  findNearestLoop now vars.stored 0 0 none

/-- What the loop of `find_nearest_alarm` has established after the entries `seen`: the smallest
negative difference to the clock, if there is one, and the first entry that attains it. -/
structure NearestOf (now : Int) (seen : List Alarm) (nearestTime : Int)
    (nearestAlarm : Option Nat) : Prop where
  least : ∀ alarm ∈ seen, nearestTime ≤ alarm.alarmTimestamp - now
  unset : nearestAlarm = none → nearestTime = 0
  attained : ∀ i, nearestAlarm = some i → nearestTime < 0 ∧
    ∃ alarm, seen[i]? = some alarm ∧ alarm.alarmTimestamp - now = nearestTime

/-- The loop of `find_nearest_alarm` keeps its invariant. -/
theorem find_nearest_loop_spec (now : Int) (seen rest : List Alarm) (nearestTime : Int)
    (nearestAlarm : Option Nat) (h : NearestOf now seen nearestTime nearestAlarm) :
    ∃ time, NearestOf now (seen ++ rest) time
      (findNearestLoop now rest seen.length nearestTime nearestAlarm) := by
  induction rest generalizing seen nearestTime nearestAlarm with
  | nil => exact ⟨nearestTime, by simpa [findNearestLoop] using h⟩
  | cons alarm rest ih =>
      have hsplit : seen ++ alarm :: rest = (seen ++ [alarm]) ++ rest := by simp
      have hlength : seen.length + 1 = (seen ++ [alarm]).length := by simp
      rw [findNearestLoop, hsplit, hlength]
      split
      · next hless =>
        refine ih _ _ _ ⟨?_, by simp, ?_⟩
        · intro other hmem
          rcases List.mem_append.mp hmem with hmem | hmem
          · have := h.least other hmem
            omega
          · simp [List.mem_singleton.mp hmem]
        · intro i hi
          obtain rfl : seen.length = i := Option.some.inj hi
          have hneg : nearestTime ≤ 0 := by
            cases hbest : nearestAlarm with
            | none => exact Int.le_of_eq (h.unset hbest)
            | some i => exact Int.le_of_lt (h.attained i hbest).1
          exact ⟨by omega, alarm, by simp, rfl⟩
      · next hless =>
        refine ih _ _ _ ⟨?_, h.unset, ?_⟩
        · intro other hmem
          rcases List.mem_append.mp hmem with hmem | hmem
          · exact h.least other hmem
          · rw [List.mem_singleton.mp hmem]
            omega
        · intro i hi
          obtain ⟨hneg, best, hget, hbest⟩ := h.attained i hi
          refine ⟨hneg, best, ?_, hbest⟩
          rw [List.getElem?_append_left (List.getElem?_eq_some_iff.mp hget).1]
          exact hget

/-- `find_nearest_alarm` returns `NULL` exactly when no stored alarm lies in the past. -/
theorem find_nearest_alarm_none {vars : StaticVars} {now : Int}
    (h : findNearestAlarm vars now = none) :
    ∀ alarm ∈ vars.stored, now ≤ alarm.alarmTimestamp := by
  obtain ⟨time, hspec⟩ := find_nearest_loop_spec now [] vars.stored 0 none
    ⟨by simp, fun _ => rfl, by simp⟩
  have htime : time = 0 := hspec.unset h
  intro alarm hmem
  have := hspec.least alarm (by simpa using hmem)
  omega

/-- When `find_nearest_alarm` returns an entry, that entry lies in the past and no stored alarm
is older. -/
theorem find_nearest_alarm_some {vars : StaticVars} {now : Int} {i : Nat}
    (h : findNearestAlarm vars now = some i) :
    ∃ alarm, vars.stored[i]? = some alarm ∧ alarm.alarmTimestamp < now ∧
      ∀ other ∈ vars.stored, alarm.alarmTimestamp ≤ other.alarmTimestamp := by
  obtain ⟨time, hspec⟩ := find_nearest_loop_spec now [] vars.stored 0 none
    ⟨by simp, fun _ => rfl, by simp⟩
  obtain ⟨hneg, alarm, hget, htime⟩ := hspec.attained i h
  refine ⟨alarm, by simpa using hget, by omega, ?_⟩
  intro other hmem
  have := hspec.least other (by simpa using hmem)
  omega

/-! ## Snoozing -/

/-- The CANCEL branch of `activity_alarm_ringing` at the clock reading `now`: five minutes are
added to the timestamp of the alarm that `find_nearest_alarm` returns. `none` is the write
through a null pointer. -/
def snooze (vars : StaticVars) (now : Int) : Option StaticVars :=
  (findNearestAlarm vars now).map fun i =>
    vars.modifyAlarm i fun alarm => { alarm with alarmTimestamp := alarm.alarmTimestamp + 300 }

end SaiyuanClock
