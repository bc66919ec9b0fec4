import SaiyuanClock.Tasks

/-!
# The two searches in the store

`check_alarms` looks for an alarm that is due, `find_nearest_alarm` for the one that is nearest to
the clock. `exact_due_test_iff` says for which stores and clock readings the first finds real alarms
only: it compares the placeholder like any other entry, and `abs` narrows the difference to `int`.
`finds_nearest_iff` says for which the second finds the nearest: it compares signed differences and
starts from 0, so that it finds the oldest alarm of the past.
-/

namespace SaiyuanClock

/-- A real alarm, with a timestamp other than that of the placeholder, is stored less than a minute
from the clock reading. -/
def DueAlarm (vars : StaticVars) (now : Int) : Prop :=
  ∃ alarm ∈ vars.stored, alarm.alarmTimestamp ≠ 0 ∧
    -60 < now - alarm.alarmTimestamp ∧ now - alarm.alarmTimestamp < 60

/-- `check_alarms` reports the real alarms that are due and nothing else. -/
def ExactDueTest (vars : StaticVars) (now : Int) : Prop :=
  checkAlarms vars now = true ↔ DueAlarm vars now

/-- A stored alarm is reported although no real alarm is due: the placeholder in the first minute of
the clock, or an alarm whose difference to the clock is narrowed. -/
theorem check_alarms_cases (vars : StaticVars) (now : Int) :
    checkAlarms vars now = true ↔ DueAlarm vars now ∨ ∃ alarm ∈ vars.stored,
      alarm.alarmTimestamp = 0 ∧ now.natAbs < 60 ∨ Narrowed (now - alarm.alarmTimestamp) := by
  rw [checkAlarms, List.any_eq_true]
  constructor
  · intro hreported
    obtain ⟨alarm, hmem, hdue⟩ := hreported
    rcases (check_alarm_cases _ _).mp hdue with hnear | hnarrowed
    · by_cases hzero : alarm.alarmTimestamp = 0
      · exact .inr ⟨alarm, hmem, .inl ⟨hzero, by omega⟩⟩
      · exact .inl ⟨alarm, hmem, hzero, by omega, by omega⟩
    · exact .inr ⟨alarm, hmem, .inr hnarrowed⟩
  · intro hreal
    rcases hreal with ⟨alarm, hmem, -, hlow, hhigh⟩ | ⟨alarm, hmem, ⟨hzero, hnear⟩ | hnarrowed⟩
    · exact ⟨alarm, hmem, check_alarm_of_near hlow hhigh⟩
    · exact ⟨alarm, hmem, check_alarm_of_near (by omega) (by omega)⟩
    · exact ⟨alarm, hmem, (check_alarm_cases _ _).mpr (.inr hnarrowed)⟩

/-- `check_alarms` is exact if and only if a real alarm is due, or the clock has left its first
minute or stores no placeholder, and no difference is narrowed. -/
theorem exact_due_test_iff (vars : StaticVars) (now : Int) :
    ExactDueTest vars now ↔ DueAlarm vars now ∨ ∀ alarm ∈ vars.stored,
      (alarm.alarmTimestamp = 0 → 60 ≤ now.natAbs) ∧ ¬ Narrowed (now - alarm.alarmTimestamp) := by
  rw [ExactDueTest, check_alarms_cases]
  constructor
  · intro hexact
    by_cases hdue : DueAlarm vars now
    · exact .inl hdue
    · refine .inr fun alarm hmem => ⟨fun hzero => ?_, fun hnarrowed => ?_⟩
      · by_contra hnear
        exact hdue (hexact.mp (.inr ⟨alarm, hmem, .inl ⟨hzero, by omega⟩⟩))
      · exact hdue (hexact.mp (.inr ⟨alarm, hmem, .inr hnarrowed⟩))
  · intro hcondition
    refine ⟨fun hreport => ?_, .inl⟩
    rcases hcondition with hdue | hquiet
    · exact hdue
    · refine hreport.resolve_right ?_
      intro hreal
      rcases hreal with ⟨alarm, hmem, ⟨hzero, hnear⟩ | hnarrowed⟩
      · have hpast := (hquiet alarm hmem).1 hzero
        omega
      · exact (hquiet alarm hmem).2 hnarrowed

/-- The store that `i2c_app_main` leaves, and a clock that was never set: the placeholder is
reported as due. -/
theorem placeholder_reported :
    ¬ ExactDueTest ((boot 0 .zero .zero).vars.modifyAlarm 0 fun _ => ⟨0, none⟩) 0 := by
  intro hexact
  have hstored : ((boot 0 .zero .zero).vars.modifyAlarm 0 fun _ => ⟨0, none⟩).stored =
      [⟨0, none⟩] := by decide
  obtain ⟨alarm, hmem, hreal, -⟩ := hexact.mp (by decide)
  rw [hstored, List.mem_singleton] at hmem
  exact hreal (by rw [hmem])

/-! ## The nearest alarm -/

/-- `find_nearest_alarm` returns a stored alarm, and none is nearer to the clock reading. -/
def FindsNearest (vars : StaticVars) (now : Int) : Prop :=
  ∃ i alarm, findNearestAlarm vars now = some i ∧ i < vars.alarmCount ∧
    vars.alarms[i]? = some alarm ∧ ∀ other ∈ vars.stored,
      (alarm.alarmTimestamp - now).natAbs ≤ (other.alarmTimestamp - now).natAbs

/-- `find_nearest_alarm` finds the nearest alarm if and only if some stored alarm lies in the past
and every other has the same timestamp or lies at least as far in the future. -/
theorem finds_nearest_iff (vars : StaticVars) (now : Int) :
    FindsNearest vars now ↔ ∃ past ∈ vars.stored, past.alarmTimestamp < now ∧
      ∀ other ∈ vars.stored, other.alarmTimestamp = past.alarmTimestamp ∨
        now - past.alarmTimestamp ≤ other.alarmTimestamp - now := by
  constructor
  · intro hfinds
    obtain ⟨i, alarm, hfind, -, hget, hnearest⟩ := hfinds
    obtain ⟨past, hstored, hpast, hleast⟩ := find_nearest_alarm_some hfind
    obtain rfl : alarm = past := by
      rw [(StaticVars.stored_get_iff.mp hstored).2] at hget
      exact (Option.some.inj hget).symm
    refine ⟨alarm, List.mem_of_getElem? hstored, hpast, fun other hmem => ?_⟩
    have holdest := hleast other hmem
    have hnear := hnearest other hmem
    omega
  · intro hnear
    obtain ⟨past, hmem, hpast, hothers⟩ := hnear
    cases hfind : findNearestAlarm vars now with
    | none =>
        have hfuture := find_nearest_alarm_none hfind past hmem
        omega
    | some i =>
        obtain ⟨alarm, hstored, -, hleast⟩ := find_nearest_alarm_some hfind
        obtain ⟨hi, hget⟩ := StaticVars.stored_get_iff.mp hstored
        refine ⟨i, alarm, hfind, hi, hget, fun other hother => ?_⟩
        -- the oldest alarm is the one that the condition speaks about
        have holdest := hleast past hmem
        have hsame := hothers alarm (List.mem_of_getElem? hstored)
        have hfar := hothers other hother
        omega

/-- With the placeholder and an alarm for this very second in the store, the placeholder is
found. -/
theorem placeholder_found :
    ¬ FindsNearest
      (({ (boot 1000 .zero .zero).vars with alarmCount := 2 }.modifyAlarm 0 fun _ =>
        ⟨0, none⟩).modifyAlarm 1 fun _ => ⟨1000, some "8:16:40"⟩) 1000 := by
  generalize hvars : (({ (boot 1000 .zero .zero).vars with alarmCount := 2 }.modifyAlarm 0 fun _ =>
    ⟨0, none⟩).modifyAlarm 1 fun _ => ⟨1000, some "8:16:40"⟩) = vars
  have hfound : findNearestAlarm vars 1000 = some 0 := by
    rw [← hvars]
    decide
  have hstored : vars.stored = [⟨0, none⟩, ⟨1000, some "8:16:40"⟩] := by
    rw [← hvars]
    decide
  intro hfinds
  obtain ⟨i, alarm, hfind, -, hget, hnearest⟩ := hfinds
  obtain rfl : 0 = i := Option.some.inj (hfound.symm.trans hfind)
  have hzero : alarm = ⟨0, none⟩ := by
    have hfirst : vars.alarms[0]? = some ⟨0, none⟩ := by
      rw [← hvars]
      decide
    exact Option.some.inj (hget.symm.trans hfirst)
  have hnear := hnearest ⟨1000, some "8:16:40"⟩ (by simp [hstored])
  rw [hzero] at hnear
  simp at hnear

end SaiyuanClock
