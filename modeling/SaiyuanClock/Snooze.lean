import SaiyuanClock.AlarmStore

/-!
# Snoozing

The CANCEL branch of `activity_alarm_ringing` postpones the alarm that `find_nearest_alarm`
returns. That function starts from the difference 0 and keeps the smallest one, so that it
returns the oldest alarm of the past, whichever alarm rings: `snooze_postpones_iff` says for which
stores this is an alarm that is due.
-/

namespace SaiyuanClock

open LabelledSteps

/-- A snooze at the clock reading `now` postpones an alarm that was due by five minutes, after
which it is not due, and leaves everything else in the store as it is. -/
def SnoozePostpones (vars : StaticVars) (now : Int) : Prop :=
  ∃ after i, snooze vars now = some after ∧ i < vars.alarmCount ∧
    (now - vars.timestamp i).natAbs < 60 ∧ after.timestamp i = vars.timestamp i + 300 ∧
    checkAlarm (after.timestamp i) now = false ∧
    (∀ j, j ≠ i → after.alarms[j]? = vars.alarms[j]?) ∧ after.alarmCount = vars.alarmCount

/-- A snooze adds five minutes to the timestamp of the chosen entry. -/
theorem timestamp_snoozed {vars : StaticVars} {i : Nat} {alarm : Alarm}
    (h : vars.alarms[i]? = some alarm) :
    (vars.modifyAlarm i fun alarm =>
      { alarm with alarmTimestamp := alarm.alarmTimestamp + 300 }).timestamp i =
        vars.timestamp i + 300 := by
  have hi : i < 8 := (Vector.getElem?_eq_some_iff.mp h).1
  rw [StaticVars.timestamp_modify_alarm vars hi (g := snoozed) fun _ => rfl, Function.update_self]
  rfl

/-- A snooze that postpones an alarm that is due found it in the past, and no stored alarm lies
a minute back. -/
theorem SnoozePostpones.near {vars : StaticVars} {now : Int} (h : SnoozePostpones vars now) :
    (∃ alarm ∈ vars.stored, alarm.alarmTimestamp < now) ∧
      ∀ alarm ∈ vars.stored, now - 60 < alarm.alarmTimestamp := by
  obtain ⟨after, i, hsnooze, hi, hnear, hmoved, -, -, -⟩ := h
  obtain ⟨chosen, hfind, rfl⟩ := Option.map_eq_some_iff.mp hsnooze
  obtain ⟨alarm, hget, hpast, hleast⟩ := find_nearest_alarm_some hfind
  -- the entry that moved is the one that was chosen
  obtain rfl : i = chosen := by
    by_contra hne
    rw [StaticVars.timestamp_modify_alarm_ne vars (Ne.symm hne)] at hmoved
    omega
  rw [StaticVars.timestamp_of_get (StaticVars.stored_get_iff.mp hget).2] at hnear
  refine ⟨⟨alarm, List.mem_of_getElem? hget, hpast⟩, fun other hmem => ?_⟩
  have := hleast other hmem
  omega

/-- If some stored alarm lies in the past and none a minute back, a snooze postpones an alarm that
is due. -/
theorem SnoozePostpones.of_near {vars : StaticVars} {now : Int} {past : Alarm}
    (hmem : past ∈ vars.stored) (hpast : past.alarmTimestamp < now)
    (hnear : ∀ alarm ∈ vars.stored, now - 60 < alarm.alarmTimestamp) :
    SnoozePostpones vars now := by
  cases hfind : findNearestAlarm vars now with
  | none =>
      have := find_nearest_alarm_none hfind past hmem
      omega
  | some i =>
      obtain ⟨alarm, hget, hearlier, -⟩ := find_nearest_alarm_some hfind
      obtain ⟨hi, halarm⟩ := StaticVars.stored_get_iff.mp hget
      have hlate := hnear alarm (List.mem_of_getElem? hget)
      have htimestamp := StaticVars.timestamp_of_get halarm
      have hmoved := timestamp_snoozed halarm
      refine ⟨_, i, by rw [snooze, hfind]; rfl, hi, by omega, hmoved, ?_, ?_, by simp⟩
      · rw [hmoved, ← Bool.not_eq_true, check_alarm_iff]
        omega
      · intro j hj
        rw [StaticVars.modify_alarm_get, if_neg (Ne.symm hj)]

/-- A snooze postpones an alarm that is due exactly when some stored alarm lies in the past and
every stored alarm lies less than a minute back or in the future. -/
theorem snooze_postpones_iff (vars : StaticVars) (now : Int) :
    SnoozePostpones vars now ↔
      (∃ alarm ∈ vars.stored, alarm.alarmTimestamp < now) ∧
        ∀ alarm ∈ vars.stored, now - 60 < alarm.alarmTimestamp := by
  constructor
  · exact SnoozePostpones.near
  · rintro ⟨⟨past, hmem, hpast⟩, hnear⟩
    exact .of_near hmem hpast hnear

/-- The two steps in which the main task snoozes compute `snooze`; without an alarm in the past
the first of them faults. -/
theorem snooze_steps (first second : Nat) {s : System} {cause : Option Nat}
    (hpc : s.main = .snoozeFind cause) :
    match snooze s.vars s.clock with
    | none => (mainStep first s).1.halted = true ∧ .fault .main ∈ (mainStep first s).2
    | some after => (mainStep second (mainStep first s).1).1.vars = after := by
  unfold snooze
  cases hfind : findNearestAlarm s.vars s.clock with
  | none => simp [mainStep, hpc, hfind, System.halt]
  | some i => simp [mainStep, hpc, hfind, System.gotoMain, System.modifyAlarm]

/-- The placeholder of `i2c_app_main` is the oldest alarm of the past. An alarm set in the editor
rings, the user presses CANCEL, and the placeholder is postponed instead. -/
theorem snooze_moves_placeholder :
    ∃ trace s, Run (fun _ => none) anyOrder (boot 1000 .zero .zero) trace s ∧
      s.main = .snoozeFind (some 1) ∧ checkAlarms s.vars s.clock = true ∧
      ¬ SnoozePostpones s.vars s.clock := by
  obtain ⟨trace, s, hrun, hobserved⟩ := execute_observe
    (fun result : System × List Event => (result.1.main, result.1.clock,
      result.1.vars.stored.map Alarm.alarmTimestamp))
    (show (execute (step fun _ => none) anyOrder
      (List.replicate 3 (.main 0) ++ [.main 5, .main 0, .main 0, .main 11, .main 11] ++
        List.replicate 10 (.main 0) ++ [.main 14] ++ List.replicate 4 (.main 0))
        (boot 1000 .zero .zero)).map (fun result => (result.1.main, result.1.clock,
          result.1.vars.stored.map Alarm.alarmTimestamp)) =
      some (.snoozeFind (some 1), 1000, [0, 1000]) by decide)
  obtain ⟨hmain, hclock, hstored⟩ : s.main = .snoozeFind (some 1) ∧ s.clock = 1000 ∧
      s.vars.stored.map Alarm.alarmTimestamp = [0, 1000] := by simpa using hobserved
  refine ⟨trace, s, hrun, hmain, ?_, ?_⟩
  · rw [checkAlarms, hclock]
    have hany : (s.vars.stored.map Alarm.alarmTimestamp).any (checkAlarm · 1000) = true := by
      rw [hstored]
      decide
    rwa [List.any_map] at hany
  · rw [hclock]
    intro hpostpones
    have hmem : (0 : Int) ∈ s.vars.stored.map Alarm.alarmTimestamp := by simp [hstored]
    obtain ⟨alarm, halarm, hzero⟩ := List.mem_map.mp hmem
    have := hpostpones.near.2 alarm halarm
    omega

end SaiyuanClock
