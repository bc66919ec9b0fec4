import SaiyuanClock.Tasks

/-!
# The data-sync frame

`command_handler` answers `datasync_start` with a frame of all timestamps. In the state machine of
`echo_task` the loop over the alarms takes one step per alarm; `echo_handles_data_sync` shows that
these steps, when no other task interferes, compute the function `commandHandler`. Whether it
completes depends on the memory at the addresses `'N'` and `'E'`, which the code passes to
`strncat` as pointers.
-/

namespace SaiyuanClock

open LabelledSteps

/-- The frame that the timestamps should give: `N` and the decimal rendering for each of them, and
a final `E`. -/
def dataSyncFrame (timestamps : List Int) : List UInt8 :=
  timestamps.flatMap (fun timestamp => ascii "N" ++ DecimalText.signedText timestamp) ++ ascii "E"

/-- `datasync_start` is answered with the frame of all timestamps, with memory in which an integer
is no pointer. -/
def SyncsData (vars : StaticVars) : Prop :=
  ∃ after, commandHandler (fun _ => none) (ascii "datasync_start") vars = some after ∧
    after.alarms = vars.alarms ∧ after.alarmCount = vars.alarmCount ∧ after.isCommand = true ∧
    after.commandLastIndex = 5 ∧
    after.uartDataTx = dataSyncFrame (vars.stored.map Alarm.alarmTimestamp) ∧
    after.uartDataTx.length < frameSize

/-- An alarm is not transferred when the character `'N'` is no address. -/
theorem transfer_alarm_faults {memory : Nat → Option UInt8} (h : memory 'N'.toNat = none)
    (alarmCount i : Nat) (alarmTimestamp : Int) (buffer : List UInt8) :
    transferAlarm memory alarmCount i alarmTimestamp buffer = none := by
  have hload : strncat memory buffer (.integer 'N'.toNat) 1 = none := by
    rw [strncat, CharPointer.load, loadString, h]
    rfl
  unfold transferAlarm
  split <;> rw [hload] <;> rfl

/-- With an alarm stored, `datasync_start` faults when the character `'N'` is no address. -/
theorem command_handler_faults {memory : Nat → Option UInt8} (h : memory 'N'.toNat = none)
    {vars : StaticVars} (hcount : 1 ≤ vars.alarmCount) :
    commandHandler memory (ascii "datasync_start") vars = none := by
  have hstored : 0 < vars.stored.length := by
    simp only [StaticVars.stored, List.length_take, Vector.length_toList]
    omega
  obtain ⟨alarm, alarms, hcons⟩ := List.exists_cons_of_length_pos hstored
  have hne : ascii "datasync_start" ≠ ascii "test_command" := by decide
  rw [commandHandler, if_neg hne, if_pos rfl, hcons, transferAlarms, transfer_alarm_faults h]
  rfl

/-- One step of `echo_task` alone. -/
theorem echo_alone (memory : Nat → Option UInt8) {s : System} (hrunning : s.halted = false) :
    Run memory (onlyTask .echo) s (echoStep memory 0 s).2 (echoStep memory 0 s).1 :=
  run_act memory (.echo 0) rfl hrunning

/-- The data-sync loop of `echo_task` alone computes `transferAlarms`. -/
theorem echo_transfers_alarms {memory : Nat → Option UInt8} {s : System} {i : Nat}
    {alarms : List Alarm} {buffer frame : List UInt8} (hrunning : s.halted = false)
    (hecho : s.echo = .transfer i s.vars.alarmCount buffer)
    (halarms : s.vars.stored.drop i = alarms)
    (hlength : i + alarms.length = s.vars.alarmCount)
    (h : transferAlarms memory s.vars.alarmCount alarms i buffer = some frame) :
    ∃ trace, Run memory (onlyTask .echo) s trace
      (s.gotoEcho (.transfer s.vars.alarmCount s.vars.alarmCount frame)) := by
  induction alarms generalizing s i buffer with
  | nil =>
      obtain rfl : buffer = frame := Option.some.inj h
      obtain rfl : i = s.vars.alarmCount := by simpa using hlength
      refine ⟨[], ?_⟩
      rw [System.gotoEcho, ← hecho]
      exact .refl s
  | cons alarm alarms ih =>
      rw [transferAlarms] at h
      obtain ⟨next, hnext, hrest⟩ := Option.bind_eq_some_iff.mp h
      obtain ⟨hi, hget⟩ := StaticVars.get_of_stored_drop halarms
      have hstep : (echoStep memory 0 s).1 =
          s.gotoEcho (.transfer (i + 1) s.vars.alarmCount next) := by
        simp [echoStep, hecho, hi, hget, hnext]
      have hone := echo_alone memory hrunning
      rw [hstep] at hone
      have hdrop :
          (s.gotoEcho (.transfer (i + 1) s.vars.alarmCount next)).vars.stored.drop (i + 1) =
            alarms := by
        show s.vars.stored.drop (i + 1) = alarms
        rw [← List.tail_drop, halarms, List.tail_cons]
      obtain ⟨trace, hrun⟩ := ih (s := s.gotoEcho (.transfer (i + 1) s.vars.alarmCount next))
        hrunning rfl hdrop (by rw [List.length_cons] at hlength; show _ = s.vars.alarmCount; omega)
        hrest
      exact ⟨_, hone.trans hrun⟩

/-- The steps of `echo_task` alone that handle `datasync_start` compute `commandHandler`. -/
theorem echo_handles_data_sync {memory : Nat → Option UInt8} {s : System} {after : StaticVars}
    (hrunning : s.halted = false) (hecho : s.echo = .transfer 0 s.vars.alarmCount [])
    (hcount : s.vars.alarmCount ≤ 8)
    (h : commandHandler memory (ascii "datasync_start") s.vars = some after) :
    ∃ trace, Run memory (onlyTask .echo) s trace { s with vars := after, echo := .flush } := by
  have hne : ascii "datasync_start" ≠ ascii "test_command" := by decide
  rw [commandHandler, if_neg hne, if_pos rfl] at h
  obtain ⟨frame, hframe, hafter⟩ := Option.bind_eq_some_iff.mp h
  obtain rfl := Option.some.inj hafter
  have hlength : 0 + s.vars.stored.length = s.vars.alarmCount := by
    rw [StaticVars.stored_length hcount, Nat.zero_add]
  obtain ⟨trace, hrun⟩ := echo_transfers_alarms hrunning hecho rfl hlength hframe
  have hdone : echoStep memory 0
      (s.gotoEcho (.transfer s.vars.alarmCount s.vars.alarmCount frame)) =
        (s.gotoEcho (.replyFlag frame), []) := by
    simp [echoStep, System.gotoEcho]
  have hend := echo_alone memory
    (s := s.gotoEcho (.transfer s.vars.alarmCount s.vars.alarmCount frame)) hrunning
  rw [hdone] at hend
  have hflag := echo_alone memory (s := s.gotoEcho (.replyFlag frame)) hrunning
  have hindex := echo_alone memory
    (s := (s.setFlag true).gotoEcho (.replyIndex frame)) hrunning
  have hcopy := echo_alone memory
    (s := ((s.setFlag true).setIndex .dataSync).gotoEcho (.replyCopy frame)) hrunning
  exact ⟨_, (((hrun.trans hend).trans hflag).trans hindex).trans hcopy⟩

/-- The data-sync branch never completes: it passes the character `'N'` as a pointer for the first
alarm already. -/
theorem data_sync_never_completes {vars : StaticVars} (h : 1 ≤ vars.alarmCount) :
    ¬ SyncsData vars := by
  rintro ⟨after, hhandled, -⟩
  rw [command_handler_faults rfl h] at hhandled
  simp at hhandled

/-- The store with the sample alarm of `app_main`. -/
theorem data_sync_never_completes_sample :
    (boot 1000 .zero .zero).vars.stored = [⟨1120, none⟩] ∧
      ¬ SyncsData (boot 1000 .zero .zero).vars :=
  ⟨by decide, data_sync_never_completes (by decide)⟩

/-- The store with the placeholder of `i2c_app_main`: handling `datasync_start` faults. -/
theorem placeholder_not_synced :
    ¬ SyncsData ((boot 1000 .zero .zero).vars.modifyAlarm 0 fun _ => ⟨0, none⟩) := by
  rintro ⟨after, hhandled, -⟩
  rw [command_handler_faults rfl (by decide)] at hhandled
  simp at hhandled

end SaiyuanClock
