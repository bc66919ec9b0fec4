import SaiyuanClock.Library.Steps
import SaiyuanClock.System

/-!
# The steps of the tasks

`mainStep`, `echoStep` and `alarmStep` execute the next access of a task, and `step` lets one
task, the clock or the peer on the UART move. What a step reads from outside is part of the
action: the number that `key_scan` finds, the count that `uart_read_bytes` returns, the bytes
that arrive, the new time. `boot` is the state in which `app_main` has just created the tasks.
-/

namespace SaiyuanClock

/-- Where `activity_alarm_ringing` returns to: the alarm check that follows the key dispatch, or
the delay that follows the alarm check. -/
def afterRinging : Option Nat → MainPc
  | none => .checkAlarms
  | some _ => .clockDelay

/-- The key dispatch of `activity_clock_main`. The alarm-setting case has no `break`: when the
editor returns, it goes on with the light-on case. -/
def dispatch (key : ButtonKey) : MainPc :=
  match key with
  | .alarmActivity => .ringDelay none
  | .mainActivity => .poll
  | .alarmRingtoneActivity => .postIndex .beep
  | .alarmSettingActivity => .editorOpen
  | .lightOn => .postIndex .lightOn
  | .lightOff => .postIndex .lightOff
  | _ => .checkAlarms

/-- The edit keys of `activity_alarm_setting`; the other keys go to the delay of its loop. -/
def edit (time : TimeOfDay) (key : ButtonKey) : MainPc :=
  match key with
  | .clickUp => .editorDraw { time with hh := if time.hh + 1 ≥ 24 then 0 else time.hh + 1 }
  | .clickDown => .editorDraw { time with hh := if time.hh - 1 < 0 then 23 else time.hh - 1 }
  | .clickLeft => .editorDraw { time with mm := if time.mm - 1 < 0 then 59 else time.mm - 1 }
  | .clickRight => .editorDraw { time with mm := if time.mm + 1 ≥ 60 then 0 else time.mm + 1 }
  | _ => .editorDelay time

/-- The next step of the main task, given the number that `key_scan` finds if it is called. -/
def mainStep (keyScan : Nat) (s : System) : System × List Event :=
  let key := buttonKeyCheck keyScan
  match s.main with
  | .seedAlarm =>
      ((s.modifyAlarm 0 fun _ => ⟨0, none⟩).gotoMain .seedCapacity, [.committed 0 0])
  | .seedCapacity =>
      ({ s with vars := { s.vars with alarmCapacity := 8 }, main := .seedCount }, [])
  | .seedCount =>
      ({ s with vars := { s.vars with alarmCount := 1 }, main := .poll }, [.entered])
  | .poll =>
      (s.gotoMain (dispatch key),
        .polled .clock key ::
          if key = .alarmActivity then [.ringing .main none] else [])
  | .postIndex command => ((s.setIndex command).gotoMain .postFlag, [.posted command])
  | .postFlag => ((s.setFlag true).gotoMain .checkAlarms, [])
  | .checkAlarms => (s.gotoMain (.checkAlarm 0 s.vars.alarmCount), [])
  | .checkAlarm i alarmCount =>
      if i < alarmCount then
        match s.vars.alarms[i]? with
        | none => (s.halt, [.readAlarm .main i, .fault .main])
        | some alarm =>
            let seen := [.readAlarm .main i, .checked .main i alarm.alarmTimestamp s.clock]
            -- `check_alarms` returns at the first alarm that is due
            if SaiyuanClock.checkAlarm alarm.alarmTimestamp s.clock then
              (s.gotoMain (.ringDelay (some i)), seen ++ [.ringing .main (some i)])
            else (s.gotoMain (.checkAlarm (i + 1) alarmCount), seen)
      else (s.gotoMain .clockDelay, [])
  | .clockDelay => (s.gotoMain .poll, [])
  | .ringDelay cause => (s.gotoMain (.ringPoll cause), [])
  | .ringPoll cause => (s.gotoMain (.ringRaise cause key), [.polled .ringing key])
  -- here the flag goes first, then the index, then the flag once more
  | .ringRaise cause key => ((s.setFlag true).gotoMain (.ringIndex cause key), [])
  | .ringIndex cause key =>
      ((s.setIndex .alarm).gotoMain (.ringFlag cause key), [.posted .alarm])
  | .ringFlag cause key => ((s.setFlag true).gotoMain (.ringWait cause key), [])
  | .ringWait cause key =>
      -- CONFIRM leaves the alarm as it is
      if key = .confirm then
        (s.gotoMain (afterRinging cause),
          (cause.toList.map Event.dismissed) ++ [.silenced .main cause])
      else if key = .cancel then (s.gotoMain (.snoozeFind cause), [])
      else (s.gotoMain (.ringAgain cause), [])
  | .snoozeFind cause =>
      let seen := (List.range s.vars.alarmCount).map (Event.readAlarm .main)
      match findNearestAlarm s.vars s.clock with
      -- the pointer is not tested for `NULL`
      | none => (s.halt, seen ++ [.fault .main])
      | some i => (s.gotoMain (.snoozeWrite cause i), seen)
  | .snoozeWrite cause i =>
      ((s.modifyAlarm i fun alarm =>
        { alarm with alarmTimestamp := alarm.alarmTimestamp + 300 }).gotoMain
          (.snoozeDelay cause), [.snoozed i])
  | .snoozeDelay cause => (s.gotoMain (afterRinging cause), [.silenced .main cause])
  | .ringAgain cause => (s.gotoMain (.ringPoll cause), [])
  | .editorOpen => (s.gotoMain (.editorDraw (convertTimeToHhmmss s.clock)), [])
  | .editorDraw time => (s.gotoMain (.editorPoll time time.text), [])
  | .editorPoll time timeStr =>
      (s.gotoMain
        (if key = .cancel then .postIndex .lightOn
        else if key = .confirm then .editorConfirm time timeStr
        else edit time key), [.polled .editor key])
  | .editorConfirm time timeStr =>
      -- only a second CONFIRM commits; with any other key the editing goes on
      (s.gotoMain (if key = .confirm then .commitTime time timeStr else .editorDelay time),
        [.polled .confirm key])
  | .commitTime time timeStr =>
      -- where the store is full the screen ends without the alarm
      (s.gotoMain
        (if s.vars.alarmCount < s.vars.alarmCapacity then
          .commitTimestamp (convertHhmmssToTimestamp s.clock time) timeStr
        else .postIndex .lightOn), [])
  | .commitTimestamp alarmTimestamp timeStr =>
      ((s.modifyAlarm s.vars.alarmCount fun alarm =>
        { alarm with alarmTimestamp := alarmTimestamp }).gotoMain (.commitString timeStr),
          [.committed s.vars.alarmCount alarmTimestamp])
  | .commitString timeStr =>
      ((s.modifyAlarm s.vars.alarmCount fun alarm =>
        { alarm with alarmTimeString := some timeStr }).gotoMain .commitCount,
          [.named s.vars.alarmCount])
  | .commitCount =>
      ({ s with vars := { s.vars with alarmCount := s.vars.alarmCount + 1 },
                main := .postIndex .lightOn }, [.counted])
  | .editorDelay time => (s.gotoMain (.editorDraw time), [])

/-- The next step of `echo_task`, given the count that `uart_read_bytes` returns if it is called;
the driver gives no more than `BUF_SIZE` of the oldest bytes it has. -/
def echoStep (memory : Nat → Option UInt8) (available : Nat) (s : System) :
    System × List Event :=
  match s.echo with
  | .readBytes =>
      let bytes := s.rx.take (min available bufSize)
      ({ s with rx := s.rx.drop bytes.length, data := s.data.fill bytes,
                echo := .testFlag bytes.length }, [.readBytes bytes])
  | .testFlag len =>
      -- without a command the heartbeat is sent
      if s.vars.isCommand then (s.gotoEcho (.sendSection len Command.all), [])
      else (s.gotoEcho (.handle len), [.sent .testCommand])
  | .sendSection len [] => ((s.setFlag false).gotoEcho (.handle len), [.reset])
  | .sendSection len (command :: comparisons) =>
      -- the comparison reads the index again each time; only data sync delays before the reset
      if s.vars.commandLastIndex = command.code then
        (s.gotoEcho (if command = .dataSync then .dataSyncDelay len else .sendSection len []),
          [.sent (command.message s.vars.uartDataTx)])
      else (s.gotoEcho (.sendSection len comparisons), [])
  | .dataSyncDelay len => (s.gotoEcho (.sendSection len []), [])
  | .handle len =>
      if len = 0 then (s.gotoEcho .flush, [])
      else
        match s.data.clearString s.dataDest len with
        | none => (s.halt, [.fault .echo])
        | some dataDest =>
            let command := cString dataDest.bytes
            ({ s with
                dataDest := dataDest
                echo :=
                  if command = ascii "test_command" then .flush
                  else if command = ascii "datasync_start" then .transfer 0 s.vars.alarmCount []
                  else .flush },
              [.handled command])
  | .transfer i alarmCount buffer =>
      if i < alarmCount then
        match s.vars.alarms[i]? with
        | none => (s.halt, [.readAlarm .echo i, .fault .echo])
        | some alarm =>
            match transferAlarm memory alarmCount i alarm.alarmTimestamp buffer with
            | none => (s.halt, [.readAlarm .echo i, .fault .echo])
            | some buffer =>
                (s.gotoEcho (.transfer (i + 1) alarmCount buffer), [.readAlarm .echo i])
      else (s.gotoEcho (.replyFlag buffer), [])
  -- flag and index are written before the frame that they announce
  | .replyFlag buffer => ((s.setFlag true).gotoEcho (.replyIndex buffer), [])
  | .replyIndex buffer =>
      ((s.setIndex .dataSync).gotoEcho (.replyCopy buffer), [.posted .dataSync])
  | .replyCopy buffer =>
      ({ s with vars := { s.vars with uartDataTx := buffer }, echo := .flush }, [])
  -- what has arrived since the read is lost
  | .flush => ({ s with rx := [], echo := .delay }, [.flushed s.rx])
  | .delay => (s.gotoEcho .readBytes, [])

/-- The next step of `alarm_task`. -/
def alarmStep (keyScan : Nat) (s : System) : System × List Event :=
  let key := buttonKeyCheck keyScan
  match s.alarm with
  | .testCount i =>
      (s.gotoAlarm (if i < s.vars.alarmCount then .checkAlarm i else .delay), [])
  | .checkAlarm i =>
      match s.vars.alarms[i]? with
      | none => (s.halt, [.readAlarm .alarm i, .fault .alarm])
      | some alarm =>
          let seen := [.readAlarm .alarm i, .checked .alarm i alarm.alarmTimestamp s.clock]
          if checkAlarm alarm.alarmTimestamp s.clock then
            (s.gotoAlarm (.ringPoll i), seen ++ [.ringing .alarm (some i)])
          else (s.gotoAlarm (.testCount (i + 1)), seen)
  | .ringPoll i =>
      -- `alarm_ring` posts nothing, whatever the key
      if key = .confirm then
        (s.gotoAlarm (.testCount (i + 1)),
          [.polled .alarmRing key, .dismissed i, .silenced .alarm (some i)])
      else (s.gotoAlarm (.ringDelay i), [.polled .alarmRing key])
  | .ringDelay i => (s.gotoAlarm (.ringPoll i), [])
  | .delay => (s.gotoAlarm (.testCount 0), [])

/-- Who moves, and what it finds outside. -/
inductive Action where
  | main (keyScan : Nat)
  | echo (available : Nat)
  | alarm (keyScan : Nat)
  | arrive (bytes : List UInt8)
  | tick (now : Int)
  deriving DecidableEq, Repr

/-- What an action does. -/
def act (memory : Nat → Option UInt8) (s : System) : Action → System × List Event
  | .main keyScan => mainStep keyScan s
  | .echo available => echoStep memory available s
  | .alarm keyScan => alarmStep keyScan s
  | .arrive bytes => ({ s with rx := s.rx ++ bytes }, [.arrived bytes])
  | .tick now => ({ s with clock := now }, [])

/-- One step of the firmware and its surroundings. -/
def step (memory : Nat → Option UInt8) (action : Action) (s : System) :
    Option (System × List Event) :=
  if s.halted then none else some (act memory s action)

/-- The state in which `app_main` has created the tasks: one sample alarm two minutes ahead,
whose text was never written, and an empty command slot. -/
def boot (clock : Int) (data dataDest : Buffer) : System where
  vars :=
    { alarms := (Vector.replicate 8 ⟨0, some ""⟩).set 0 ⟨clock + 120, none⟩
      alarmCount := 1
      alarmCapacity := 8
      isCommand := false
      commandLastIndex := 0
      uartDataTx := [] }
  clock := clock
  rx := []
  data := data
  dataDest := dataDest
  main := .seedAlarm
  echo := .readBytes
  alarm := .testCount 0
  halted := false

open LabelledSteps

/-- A run of the firmware whose steps are all admitted by `allowed`. -/
abbrev Run (memory : Nat → Option UInt8) (allowed : System → Action → Prop) :
    System → List Event → System → Prop :=
  Steps (StepOf (step memory) allowed)

/-- Any order of steps. -/
def anyOrder (_ : System) (_ : Action) : Prop := True

/-- Nothing is excluded by `anyOrder`. -/
instance (s : System) (action : Action) : Decidable (anyOrder s action) :=
  inferInstanceAs (Decidable True)

/-- An action is done in a state that has not halted. -/
theorem step_eq_some_iff {memory : Nat → Option UInt8} {action : Action} {s next : System}
    {emitted : List Event} :
    step memory action s = some (next, emitted) ↔
      s.halted = false ∧ act memory s action = (next, emitted) := by
  unfold step
  cases s.halted <;> simp

/-- The steps of a run: an admitted action in a state that has not halted. -/
theorem step_of_iff {memory : Nat → Option UInt8} {allowed : System → Action → Prop}
    {s next : System} {emitted : List Event} :
    StepOf (step memory) allowed s emitted next ↔
      ∃ action, allowed s action ∧ s.halted = false ∧ (act memory s action).1 = next ∧
        (act memory s action).2 = emitted := by
  refine exists_congr fun action => and_congr_right fun _ => ?_
  rw [step_eq_some_iff, Prod.ext_iff]

/-- Only one task moves. -/
def onlyTask (task : Task) (_ : System) : Action → Prop
  | .main _ => task = .main
  | .echo _ => task = .echo
  | .alarm _ => task = .alarm
  | .arrive _ | .tick _ => False

/-- Whose move an action is, is decidable. -/
instance (task : Task) (s : System) : ∀ action, Decidable (onlyTask task s action)
  | .main _ => inferInstanceAs (Decidable (task = .main))
  | .echo _ => inferInstanceAs (Decidable (task = .echo))
  | .alarm _ => inferInstanceAs (Decidable (task = .alarm))
  | .arrive _ | .tick _ => inferInstanceAs (Decidable False)

/-- An admitted action is a run. -/
theorem run_act (memory : Nat → Option UInt8) {allowed : System → Action → Prop} {s : System}
    (action : Action) (hallowed : allowed s action) (hrunning : s.halted = false) :
    Run memory allowed s (act memory s action).2 (act memory s action).1 :=
  .single (step_of_iff.mpr ⟨action, hallowed, hrunning, rfl, rfl⟩)

end SaiyuanClock
