import SaiyuanClock.AlarmText
import SaiyuanClock.Dismissal

/-!
# Null pointers

`static_vars_global` is a static variable, so that a field which `app_main` does not assign is
null. A screen faults when it dereferences such a field, and `activity_alarm_ringing` faults when
it snoozes and `find_nearest_alarm` returns null. `null_free_iff` says when neither happens.
-/

namespace SaiyuanClock

open LabelledSteps

/-- The fields of `static_vars_t` that are pointers. -/
inductive ContainerField where
  | timeS
  | dateS
  | alarms
  | alarmCount
  | alarmCapacity
  | commands
  | commandLast
  | isCommand
  | commandLastIndex
  | currentRingtone
  deriving DecidableEq, Repr

/-- Which pointers of a container hold the address of a variable; the others are null. -/
abbrev Container := ContainerField → Bool

/-- The container as `app_main` fills it. -/
def appMainContainer : Container
  | .currentRingtone => false
  | .timeS | .dateS | .alarmCapacity | .alarmCount | .alarms | .commands | .commandLast
  | .isCommand | .commandLastIndex => true

/-- The pointers of the container that the main task dereferences in the step from a program point
to the next. -/
def MainPc.dereferences : MainPc → List ContainerField
  -- the entry of `activity_clock_main` and that of `activity_alarm_ringing`
  | .seedCount | .ringDelay _ => [.timeS, .dateS]
  -- only the beep is also written to `command_last`
  | .postIndex .beep => [.commandLast, .commandLastIndex]
  | .postIndex _ => [.commandLastIndex]
  | .postFlag | .ringRaise _ _ | .ringFlag _ _ => [.isCommand]
  | .ringIndex _ _ => [.commandLast, .commandLastIndex]
  | .checkAlarms => [.alarmCount, .alarmCapacity]
  | .checkAlarm i alarmCount => if i < alarmCount then [.alarms] else []
  | .snoozeFind _ => [.alarmCount, .alarmCapacity, .alarms]
  | .commitTime _ _ => [.alarmCount, .alarmCapacity]
  | .commitTimestamp _ _ | .commitString _ => [.alarms, .alarmCount]
  | .commitCount => [.alarmCount]
  | _ => []

/-- The next step of the main task over a container: it faults at a null pointer. -/
def containerMainStep (container : Container) (keyScan : Nat) (s : System) :
    System × List Event :=
  if s.main.dereferences.all container then mainStep keyScan s else (s.halt, [.fault .main])

/-- One step of the firmware and its surroundings, the main task over a container. -/
def containerStep (container : Container) (memory : Nat → Option UInt8) (action : Action)
    (s : System) : Option (System × List Event) :=
  if s.halted then none
  else
    match action with
    | .main keyScan => some (containerMainStep container keyScan s)
    | action => some (act memory s action)

/-- A run of the firmware, the main task over a container. -/
abbrev ContainerRun (container : Container) (memory : Nat → Option UInt8)
    (allowed : System → Action → Prop) : System → List Event → System → Prop :=
  Steps (StepOf (containerStep container memory) allowed)

/-- How far `activity_alarm_ringtone_setting` is after a number of key polls. -/
inductive RingtoneResult where
  | waiting (selectedRingtone : Nat)
  | cancelled
  | stored (selectedRingtone : Nat)
  | nullDereference
  deriving DecidableEq, Repr

/-- The loop of `activity_alarm_ringtone_setting` over the key numbers that its polls read. -/
def ringtoneLoop (container : Container) : (selectedRingtone : Nat) → List Nat → RingtoneResult
  | selectedRingtone, [] => .waiting selectedRingtone
  | selectedRingtone, keyScan :: keyScans =>
      match buttonKeyCheck keyScan with
      | .cancel => .cancelled
      | .confirm =>
          if container .currentRingtone then .stored selectedRingtone else .nullDereference
      | .clickUp => ringtoneLoop container 1 keyScans
      | .clickDown => ringtoneLoop container 2 keyScans
      | _ => ringtoneLoop container selectedRingtone keyScans

/-- `activity_alarm_ringtone_setting` over the key numbers that its polls read. -/
def activityAlarmRingtoneSetting (container : Container) (keyScans : List Nat) :
    RingtoneResult :=
  if container .timeS && container .dateS then ringtoneLoop container 1 keyScans
  else .nullDereference

/-- The keys that leave `activity_alarm_ringtone_setting`. -/
def ButtonKey.leavesRingtone (key : ButtonKey) : Bool := key = .cancel || key = .confirm

/-- When the main task looks for the alarm to snooze, a stored alarm lies in the past. -/
def pastAtSnooze (s : System) : Action → Prop
  | .main _ => ∀ cause, s.main = .snoozeFind cause →
      ∃ alarm ∈ s.vars.stored, alarm.alarmTimestamp < s.clock
  | _ => True

/-- The screens dereference no pointer that `app_main` leaves null, except for the ringtone
screen. -/
theorem app_main_fills (pc : MainPc) : pc.dereferences.all appMainContainer = true := by
  cases pc
  case postIndex command => cases command <;> rfl
  case checkAlarm i alarmCount =>
    simp only [MainPc.dereferences]
    split <;> rfl
  all_goals rfl

/-- Over the container of `app_main` the firmware steps as it does over the variables. -/
theorem container_step_app_main (memory : Nat → Option UInt8) :
    containerStep appMainContainer memory = step memory := by
  funext action s
  unfold containerStep step
  cases action with
  | main keyScan => simp only [containerMainStep, if_pos (app_main_fills s.main), act]
  | echo available | alarm keyScan | arrive bytes | tick now => rfl

/-- `find_nearest_alarm` returns an entry exactly when a stored alarm lies in the past. -/
theorem find_nearest_alarm_is_some {vars : StaticVars} {now : Int} :
    findNearestAlarm vars now ≠ none ↔ ∃ alarm ∈ vars.stored, alarm.alarmTimestamp < now := by
  constructor
  · intro hfound
    obtain ⟨i, hi⟩ := Option.ne_none_iff_exists'.mp hfound
    obtain ⟨alarm, hget, hpast, -⟩ := find_nearest_alarm_some hi
    exact ⟨alarm, List.mem_of_getElem? hget, hpast⟩
  · intro hpast hnone
    obtain ⟨alarm, hmem, hpast⟩ := hpast
    have hfuture := find_nearest_alarm_none hnone alarm hmem
    omega

/-- In the alarm check of the main task the entry that is read lies within the array. -/
theorem check_alarm_in_array {s : System} {history : List (SharedTable.TableEvent Int Task)}
    {i alarmCount : Nat} (h : Stocked s history) (hpc : s.main = .checkAlarm i alarmCount)
    (hi : i < alarmCount) : s.vars.alarms[i]? ≠ none := by
  have hbound : s.main.bound s.vars.alarmCount ≤ s.vars.alarmCount := h.table.bound .main
  have hcount : s.vars.alarmCount ≤ 8 := h.table.count_le
  rw [hpc, MainPc.bound] at hbound
  rw [Vector.getElem?_eq_getElem (by omega)]
  exact Option.some_ne_none _

/-- The main task faults exactly when it snoozes while no stored alarm lies in the past. -/
theorem main_step_fault_iff {s : System} {history : List (SharedTable.TableEvent Int Task)}
    (keyScan : Nat) (h : Booting s history ∨ Stocked s history) :
    .fault .main ∈ (mainStep keyScan s).2 ↔ ¬ pastAtSnooze s (.main keyScan) := by
  cases hpc : s.main
  case snoozeFind cause =>
    have hpast : pastAtSnooze s (.main keyScan) ↔ findNearestAlarm s.vars s.clock ≠ none := by
      rw [find_nearest_alarm_is_some]
      exact ⟨fun hpast => hpast cause hpc, fun hpast _ _ => hpast⟩
    rw [hpast, not_not]
    simp only [mainStep, hpc]
    cases findNearestAlarm s.vars s.clock <;> simp
  all_goals
    have hpast : pastAtSnooze s (.main keyScan) := by simp [pastAtSnooze, hpc]
    refine iff_of_false (fun hfault => ?_) (not_not_intro hpast)
    have hemits := main_step_emits keyScan s _ hfault
    rw [hpc] at hemits
  case checkAlarm i alarmCount =>
    have hstocked : Stocked s history := by
      refine h.resolve_left fun hboot => ?_
      rw [hboot.start] at hpc
      cases hpc
    simp only [mainStep, hpc] at hfault
    split at hfault
    · next hi =>
      cases hget : s.vars.alarms[i]? with
      | none => exact check_alarm_in_array hstocked hpc hi hget
      | some alarm =>
          simp only [hget] at hfault
          split at hfault <;> simp at hfault
    · simp at hfault
  all_goals simp [MainPc.emits] at hemits

/-- A step of the firmware is a fault of the main task exactly when it is a snooze of the main
task while no stored alarm lies in the past. -/
theorem act_fault_iff {memory : Nat → Option UInt8} {s : System}
    {history : List (SharedTable.TableEvent Int Task)} (action : Action)
    (h : Booting s history ∨ Stocked s history) :
    .fault .main ∈ (act memory s action).2 ↔ ¬ pastAtSnooze s action := by
  by_cases hmain : ∃ keyScan, action = .main keyScan
  · obtain ⟨keyScan, rfl⟩ := hmain
    exact main_step_fault_iff keyScan h
  · refine iff_of_false (fun hfault => hmain (main_of_mem rfl hfault)) (not_not_intro ?_)
    cases action with
    | main keyScan => exact absurd ⟨keyScan, rfl⟩ hmain
    | echo available | alarm keyScan | arrive bytes | tick now => trivial

/-- A run of the screens is free of faults exactly when every snooze finds an alarm in the
past. -/
theorem run_fault_free_iff {memory : Nat → Option UInt8} {clock : Int} {data dataDest : Buffer}
    {trace : List Event} {s : System}
    (hrun : Run memory forward (boot clock data dataDest) trace s) :
    .fault .main ∉ trace ↔
      Run memory (fun s action => forward s action ∧ pastAtSnooze s action)
        (boot clock data dataDest) trace s := by
  constructor
  · intro hfree
    induction hrun with
    | refl => exact .refl _
    | snoc hrun hstep ih =>
        rw [List.mem_append, not_or] at hfree
        obtain ⟨action, hforward, hrunning, rfl, rfl⟩ := step_of_iff.mp hstep
        have hpast : pastAtSnooze _ action :=
          not_not.mp (mt (act_fault_iff action (boot_run hrun)).mpr hfree.2)
        exact (ih hfree.1).snoc (step_of_iff.mpr ⟨action, ⟨hforward, hpast⟩, hrunning, rfl, rfl⟩)
  · intro hrestricted
    refine hrestricted.invariant (fun _ events => .fault .main ∉ events) (by simp) ?_
    intro events state emitted next hbefore hfree hstep
    obtain ⟨action, ⟨-, hpast⟩, -, rfl, rfl⟩ := step_of_iff.mp hstep
    rw [List.mem_append, not_or]
    exact ⟨hfree, mt (act_fault_iff action (boot_run hbefore)).mp (not_not_intro hpast)⟩

/-- A snooze finds an alarm in the past as long as the clock is ahead of five minutes for each
snooze of the placeholder. -/
theorem past_at_snooze_of_clock {memory : Nat → Option UInt8} {allowed : System → Action → Prop}
    {clock : Int} {data dataDest : Buffer} {trace : List Event} {s : System}
    (hrun : Run memory allowed (boot clock data dataDest) trace s)
    (hclock : 300 * (trace.count (.snoozed 0) : Int) < s.clock) (action : Action) :
    pastAtSnooze s action := by
  cases action with
  | main keyScan =>
      intro cause hpc
      have hmain : s.main ≠ .seedAlarm := by simp [hpc]
      have hstocked := (boot_run hrun).resolve_left fun hboot => hmain hboot.start
      obtain ⟨alarm, hget⟩ : ∃ alarm, s.vars.alarms[0]? = some alarm :=
        ⟨_, Vector.getElem?_eq_getElem (by omega)⟩
      refine ⟨alarm, List.mem_of_getElem?
        (StaticVars.stored_get_iff.mpr ⟨hstocked.nonempty, hget⟩), ?_⟩
      rw [← StaticVars.timestamp_of_get hget, placeholder_timestamp hrun hmain]
      exact hclock
  | echo available | alarm keyScan | arrive bytes | tick now => trivial

/-- The loop of the ringtone screen writes through a null pointer exactly when the first key that
leaves it is CONFIRM. -/
theorem ringtone_loop_null_iff (selectedRingtone : Nat) (keyScans : List Nat) :
    ringtoneLoop appMainContainer selectedRingtone keyScans = .nullDereference ↔
      (keyScans.map buttonKeyCheck).find? ButtonKey.leavesRingtone = some .confirm := by
  induction keyScans generalizing selectedRingtone with
  | nil => simp [ringtoneLoop]
  | cons keyScan keyScans ih =>
      rw [List.map_cons, ringtoneLoop]
      cases buttonKeyCheck keyScan
      case cancel => simp [ButtonKey.leavesRingtone]
      case confirm => simp [ButtonKey.leavesRingtone, appMainContainer]
      all_goals
        rw [List.find?_cons_of_neg (by decide)]
        exact ih _

/-- No null pointer is dereferenced, in a run of the screens and in a run of the ringtone screen,
exactly when every snooze finds an alarm in the past and the ringtone screen is not left with
CONFIRM. -/
theorem null_free_iff {memory : Nat → Option UInt8} {clock : Int} {data dataDest : Buffer}
    {trace : List Event} {s : System} (keyScans : List Nat)
    (hrun : ContainerRun appMainContainer memory forward (boot clock data dataDest) trace s) :
    (.fault .main ∉ trace ∧
        activityAlarmRingtoneSetting appMainContainer keyScans ≠ .nullDereference) ↔
      (ContainerRun appMainContainer memory (fun s action => forward s action ∧
        pastAtSnooze s action) (boot clock data dataDest) trace s ∧
          (keyScans.map buttonKeyCheck).find? ButtonKey.leavesRingtone ≠ some .confirm) := by
  unfold ContainerRun at hrun ⊢
  rw [container_step_app_main] at hrun ⊢
  exact and_congr (run_fault_free_iff hrun) (not_congr (ringtone_loop_null_iff 1 keyScans))

/-- The alarm key opens the ringing screen and CANCEL snoozes the placeholder, which lies in the
past; the ringtone screen is left with CANCEL. -/
theorem null_free_iff_snooze :
    ∃ trace s, ContainerRun appMainContainer (fun _ => none) forward (boot 1000 .zero .zero)
        trace s ∧ .snoozed 0 ∈ trace ∧
      ((.fault .main ∉ trace ∧
          activityAlarmRingtoneSetting appMainContainer [6, 14] ≠ .nullDereference) ↔
        (ContainerRun appMainContainer (fun _ => none) (fun s action => forward s action ∧
          pastAtSnooze s action) (boot 1000 .zero .zero) trace s ∧
            ([6, 14].map buttonKeyCheck).find? ButtonKey.leavesRingtone ≠ some .confirm)) := by
  obtain ⟨trace, s, hrun, hsnoozed⟩ := execute_observe
    (fun result : System × List Event => decide (.snoozed 0 ∈ result.2))
    (show (execute (containerStep appMainContainer fun _ => none) forward
      (List.replicate 3 (.main 0) ++ [.main 2, .main 0, .main 14] ++ List.replicate 7 (.main 0))
        (boot 1000 .zero .zero)).map (fun result => decide (.snoozed 0 ∈ result.2)) =
      some true by decide)
  exact ⟨trace, s, hrun, of_decide_eq_true hsnoozed, null_free_iff [6, 14] hrun⟩

/-- With a clock that was never set the alarm key and CANCEL write through the null pointer that
`find_nearest_alarm` returns, and CONFIRM in the ringtone screen writes through
`current_ringtone`. -/
theorem snooze_writes_through_null :
    (∃ trace s, ContainerRun appMainContainer (fun _ => none) forward (boot 0 .zero .zero)
        trace s ∧ .fault .main ∈ trace) ∧
      activityAlarmRingtoneSetting appMainContainer [11] = .nullDereference := by
  refine ⟨?_, by decide⟩
  obtain ⟨trace, s, hrun, hfault⟩ := execute_observe
    (fun result : System × List Event => decide (.fault .main ∈ result.2))
    (show (execute (containerStep appMainContainer fun _ => none) forward
      (List.replicate 3 (.main 0) ++ [.main 2, .main 0, .main 14] ++ List.replicate 5 (.main 0))
        (boot 0 .zero .zero)).map (fun result => decide (.fault .main ∈ result.2)) =
      some true by decide)
  exact ⟨trace, s, hrun, of_decide_eq_true hfault⟩

end SaiyuanClock
