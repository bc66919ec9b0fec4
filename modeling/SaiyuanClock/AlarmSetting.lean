import SaiyuanClock.AlarmText

/-!
# Two ways of setting an alarm

`alarm_set` of `utils.c` and the commit of `activity_alarm_setting` both append an alarm for an
hour, a minute and a second. The first counts them from the clock reading on and leaves the text of
the alarm unwritten, the second takes them for a time of the current day. `set_alike_iff` says for
which stores the two agree.
-/

namespace SaiyuanClock

open LabelledSteps

/-- The commit of `activity_alarm_setting` at the clock reading `now`, for the time of day that the
user has confirmed. -/
def confirmAlarm (vars : StaticVars) (now : Int) (time : TimeOfDay) : StaticVars :=
  let setAlarm : Alarm := ⟨convertHhmmssToTimestamp now time, some time.text⟩
  if vars.alarmCount < vars.alarmCapacity then
    let vars := vars.modifyAlarm vars.alarmCount fun alarm =>
      { alarm with alarmTimestamp := setAlarm.alarmTimestamp }
    let vars := vars.modifyAlarm vars.alarmCount fun alarm =>
      { alarm with alarmTimeString := setAlarm.alarmTimeString }
    { vars with alarmCount := vars.alarmCount + 1 }
  else vars

/-- When the user confirms twice, the main task computes `confirmAlarm` and leaves the editor. -/
theorem confirm_steps (memory : Nat → Option UInt8) {s : System} {time : TimeOfDay}
    (hpc : s.main = .editorPoll time time.text) (hrunning : s.halted = false) :
    ∃ trace finish, Run memory (onlyTask .main) s
        (.polled .editor .confirm :: .polled .confirm .confirm :: trace) finish ∧
      finish.main = .postIndex .lightOn ∧ finish.vars = confirmAlarm s.vars s.clock time := by
  have hsteps : ∃ finish trace, execute (step memory) (onlyTask .main)
      ([.main 11, .main 11, .main 0] ++
        if s.vars.alarmCount < s.vars.alarmCapacity then [.main 0, .main 0, .main 0] else []) s =
        some (finish, .polled .editor .confirm :: .polled .confirm .confirm :: trace) ∧
      finish.main = .postIndex .lightOn ∧ finish.vars = confirmAlarm s.vars s.clock time := by
    have hkey : buttonKeyCheck 11 = .confirm := rfl
    by_cases hroom : s.vars.alarmCount < s.vars.alarmCapacity
    · simp [execute, onlyTask, step, act, mainStep, hpc, hrunning, hkey, hroom, confirmAlarm,
        System.gotoMain, System.modifyAlarm]
    · simp [execute, onlyTask, step, act, mainStep, hpc, hrunning, hkey, hroom, confirmAlarm,
        System.gotoMain]
  obtain ⟨finish, trace, hrun, hmain, hvars⟩ := hsteps
  exact ⟨trace, finish, execute_steps hrun, hmain, hvars⟩

/-- Two stores have the same count and the same timestamps and texts. -/
structure SameAlarms (first second : StaticVars) : Prop where
  alarmCount : first.alarmCount = second.alarmCount
  timestamps : first.timestamp = second.timestamp
  texts : first.text = second.text

/-- Setting an alarm for a time of day with `alarm_set` and in the editor leaves the same store,
and a full store is left as it is. -/
structure SetAlike (vars : StaticVars) (now : Int) (time : TimeOfDay) : Prop where
  same : SameAlarms (alarmSet vars now time.hh time.mm time.ss) (confirmAlarm vars now time)
  full : vars.alarmCount = vars.alarmCapacity →
    alarmSet vars now time.hh time.mm time.ss = vars ∧ confirmAlarm vars now time = vars

section

variable {vars : StaticVars} (now : Int) (time : TimeOfDay)

/-- Neither way changes a full store. -/
theorem set_full (hfull : ¬ vars.alarmCount < vars.alarmCapacity) :
    alarmSet vars now time.hh time.mm time.ss = vars ∧ confirmAlarm vars now time = vars :=
  ⟨if_neg hfull, if_neg hfull⟩

variable (hroom : vars.alarmCount < vars.alarmCapacity) (hcapacity : vars.alarmCapacity ≤ 8)

include hroom hcapacity

/-- The alarm that `alarm_set` appends has no text. -/
theorem text_alarm_set :
    (alarmSet vars now time.hh time.mm time.ss).text vars.alarmCount = none := by
  rw [alarmSet, if_pos hroom]
  exact StaticVars.text_modify_alarm vars (by omega) none fun _ => rfl

/-- The alarm that the editor appends has the text of its time of day. -/
theorem text_confirm_alarm :
    (confirmAlarm vars now time).text vars.alarmCount = some time.text := by
  have hlast : vars.alarmCount < 8 := by omega
  simp only [confirmAlarm, if_pos hroom, StaticVars.modify_alarm_count]
  exact StaticVars.text_modify_alarm _ hlast
    (f := fun alarm => { alarm with alarmTimeString := some time.text }) _ fun _ => rfl

/-- The alarm that `alarm_set` appends rings the hours, minutes and seconds after the clock
reading. -/
theorem timestamp_alarm_set :
    (alarmSet vars now time.hh time.mm time.ss).timestamp =
      Function.update vars.timestamp vars.alarmCount
        (time.hh * 3600 + time.mm * 60 + time.ss + now) := by
  rw [alarmSet, if_pos hroom]
  exact StaticVars.timestamp_modify_alarm vars (by omega)
    (g := fun _ => time.hh * 3600 + time.mm * 60 + time.ss + now) fun _ => rfl

/-- The alarm that the editor appends rings at the time of day on the current day. -/
theorem timestamp_confirm_alarm :
    (confirmAlarm vars now time).timestamp =
      Function.update vars.timestamp vars.alarmCount (convertHhmmssToTimestamp now time) := by
  have hlast : vars.alarmCount < 8 := by omega
  have htimestamp := StaticVars.timestamp_modify_alarm vars hlast
    (f := fun alarm => { alarm with alarmTimestamp := convertHhmmssToTimestamp now time })
    (g := fun _ => convertHhmmssToTimestamp now time) fun _ => rfl
  have htext := StaticVars.timestamp_modify_alarm_text
    (vars.modifyAlarm vars.alarmCount fun alarm =>
      { alarm with alarmTimestamp := convertHhmmssToTimestamp now time }) vars.alarmCount
    (fun alarm => { alarm with alarmTimeString := some time.text }) fun _ => rfl
  simp only [confirmAlarm, if_pos hroom, StaticVars.modify_alarm_count]
  exact htext.trans htimestamp

/-- The two ways write the same timestamp exactly at local midnight. -/
theorem same_timestamps_iff :
    (alarmSet vars now time.hh time.mm time.ss).timestamp = (confirmAlarm vars now time).timestamp ↔
      (now + utcOffset) % 86400 = 0 := by
  rw [timestamp_alarm_set now time hroom hcapacity,
    timestamp_confirm_alarm now time hroom hcapacity, (Function.update_injective _ _).eq_iff]
  simp only [convertHhmmssToTimestamp, mktime, localtimeR]
  omega

end

/-- The two ways of setting an alarm agree exactly when the store is full. -/
theorem set_alike_iff {vars : StaticVars} (hcapacity : vars.alarmCapacity ≤ 8) (now : Int)
    (time : TimeOfDay) : SetAlike vars now time ↔ ¬ vars.alarmCount < vars.alarmCapacity := by
  constructor
  · intro h hroom
    have htexts := congrFun h.same.texts vars.alarmCount
    rw [text_alarm_set now time hroom hcapacity, text_confirm_alarm now time hroom hcapacity]
      at htexts
    cases htexts
  · intro hfull
    obtain ⟨hset, hconfirm⟩ := set_full now time hfull
    refine ⟨?_, fun _ => ⟨hset, hconfirm⟩⟩
    rw [hset, hconfirm]
    exact ⟨rfl, rfl, rfl⟩

/-- In a full store neither way adds an alarm. -/
theorem set_alike_iff_full :
    SetAlike { (boot 0 .zero .zero).vars with alarmCount := 8 } 10000 ⟨9, 46, 40⟩ :=
  (set_alike_iff (by decide) 10000 ⟨9, 46, 40⟩).mpr (by decide)

/-- In the morning the two ways set the alarm for different times. -/
theorem set_differently : ¬ SetAlike (boot 0 .zero .zero).vars 10000 ⟨9, 46, 40⟩ := by
  intro h
  have hmidnight := (same_timestamps_iff 10000 ⟨9, 46, 40⟩ (by decide) (by decide)).mp
    h.same.timestamps
  exact absurd hmidnight (by decide)

end SaiyuanClock
