import SaiyuanClock.Tasks

/-!
# What a step leaves alone

Every task has its own part of the state and its own events. The frames say which parts of the
state a step of a task leaves as they are, `main_step_vars` what a step of the main task writes,
and `main_step_emits`, `echo_step_from` and `alarm_step_from` which events a step of a task can
emit. The other modules go through the program points of a task only for what is their own.
-/

namespace SaiyuanClock

/-! ## States -/

/-- What the main task leaves alone: the other tasks, the clock and the receive buffers. -/
structure MainFrame (s next : System) : Prop where
  echo : next.echo = s.echo
  alarm : next.alarm = s.alarm
  clock : next.clock = s.clock
  rx : next.rx = s.rx
  data : next.data = s.data

/-- The main task may write to the shared variables, move, and stop the device. -/
theorem MainFrame.update (s : System) (vars : StaticVars) (pc : MainPc) (halted : Bool) :
    MainFrame s { s with vars := vars, main := pc, halted := halted } :=
  ⟨rfl, rfl, rfl, rfl, rfl⟩

/-- A step of the main task keeps its frame. -/
theorem main_step_frame (keyScan : Nat) (s : System) : MainFrame s (mainStep keyScan s).1 := by
  cases hpc : s.main <;> simp only [mainStep, hpc]
  case checkAlarm =>
    split
    · split
      · exact .update s _ _ _
      · split <;> exact .update s _ _ _
    · exact .update s _ _ _
  case ringWait =>
    split
    · exact .update s _ _ _
    · split <;> exact .update s _ _ _
  case snoozeFind => split <;> exact .update s _ _ _
  all_goals exact .update s _ _ _

/-- What the step at a program point of the main task writes to the shared variables. -/
def MainPc.write (vars : StaticVars) : MainPc → StaticVars
  | .seedAlarm => vars.modifyAlarm 0 fun _ => ⟨0, none⟩
  | .seedCapacity => { vars with alarmCapacity := 8 }
  | .seedCount => { vars with alarmCount := 1 }
  | .postIndex command => { vars with commandLastIndex := command.code }
  | .postFlag | .ringRaise _ _ | .ringFlag _ _ => { vars with isCommand := true }
  | .ringIndex _ _ => { vars with commandLastIndex := Command.alarm.code }
  | .snoozeWrite _ i =>
      vars.modifyAlarm i fun alarm => { alarm with alarmTimestamp := alarm.alarmTimestamp + 300 }
  | .commitTimestamp alarmTimestamp _ =>
      vars.modifyAlarm vars.alarmCount fun alarm => { alarm with alarmTimestamp := alarmTimestamp }
  | .commitString timeStr =>
      vars.modifyAlarm vars.alarmCount fun alarm => { alarm with alarmTimeString := some timeStr }
  | .commitCount => { vars with alarmCount := vars.alarmCount + 1 }
  | _ => vars

/-- A step of the main task writes what its program point says, whatever it finds outside. -/
theorem main_step_vars (keyScan : Nat) (s : System) :
    (mainStep keyScan s).1.vars = s.main.write s.vars := by
  cases hpc : s.main <;> simp only [mainStep, hpc]
  case checkAlarm =>
    split
    · split
      · rfl
      · split <;> rfl
    · rfl
  case ringWait =>
    split
    · rfl
    · split <;> rfl
  case snoozeFind => split <;> rfl
  all_goals rfl

/-- An edit key goes on with the screen, any other key with the delay of the loop. -/
theorem edit_loop (time : TimeOfDay) (key : ButtonKey) :
    (∃ edited, edit time key = .editorDraw edited) ∨ edit time key = .editorDelay time := by
  cases key
  case clickUp | clickDown | clickLeft | clickRight => exact .inl ⟨_, rfl⟩
  all_goals exact .inr rfl

/-- The program points to which the main task can go from another. A fault leaves it where it
is. -/
def MainPc.Next (next : MainPc) : MainPc → Prop
  | .seedAlarm => next = .seedCapacity
  | .seedCapacity => next = .seedCount
  | .seedCount | .clockDelay => next = .poll
  | .poll =>
      next = .checkAlarms ∨ next = .ringDelay none ∨ next = .poll ∨ next = .editorOpen ∨
        ∃ command, command ≠ .alarm ∧ next = .postIndex command
  | .postIndex _ => next = .postFlag
  | .postFlag => next = .checkAlarms
  | .checkAlarms => ∃ alarmCount, next = .checkAlarm 0 alarmCount
  | .checkAlarm i alarmCount =>
      next = .clockDelay ∨ next = .checkAlarm i alarmCount ∨ next = .ringDelay (some i) ∨
        next = .checkAlarm (i + 1) alarmCount
  | .ringDelay cause | .ringAgain cause => next = .ringPoll cause
  | .ringPoll cause => ∃ key, next = .ringRaise cause key
  | .ringRaise cause key => next = .ringIndex cause key
  | .ringIndex cause key => next = .ringFlag cause key
  | .ringFlag cause key => next = .ringWait cause key
  | .ringWait cause _ =>
      next = .checkAlarms ∨ next = .clockDelay ∨ next = .snoozeFind cause ∨ next = .ringAgain cause
  | .snoozeFind cause => next = .snoozeFind cause ∨ ∃ i, next = .snoozeWrite cause i
  | .snoozeWrite cause _ => next = .snoozeDelay cause
  | .snoozeDelay _ => next = .checkAlarms ∨ next = .clockDelay
  | .editorOpen => ∃ now, next = .editorDraw (convertTimeToHhmmss now)
  | .editorDraw time => next = .editorPoll time time.text
  | .editorPoll time timeStr =>
      next = .postIndex .lightOn ∨ next = .editorConfirm time timeStr ∨ next = .editorDelay time ∨
        ∃ key edited, edit time key = .editorDraw edited ∧ next = .editorDraw edited
  | .editorConfirm time timeStr => next = .commitTime time timeStr ∨ next = .editorDelay time
  | .commitTime time timeStr =>
      (∃ now, next = .commitTimestamp (convertHhmmssToTimestamp now time) timeStr) ∨
        next = .postIndex .lightOn
  | .commitTimestamp _ timeStr => next = .commitString timeStr
  | .commitString _ => next = .commitCount
  | .commitCount => next = .postIndex .lightOn
  | .editorDelay time => next = .editorDraw time

/-- A step of the main task goes on to one of the next program points. -/
theorem main_step_next (keyScan : Nat) (s : System) :
    MainPc.Next (mainStep keyScan s).1.main s.main := by
  cases hpc : s.main <;> simp only [mainStep, hpc, MainPc.Next]
  case poll => cases buttonKeyCheck keyScan <;> simp [System.gotoMain, dispatch]
  case checkAlarms => exact ⟨_, rfl⟩
  case checkAlarm =>
    split
    · split
      · exact .inr (.inl hpc)
      · split
        · exact .inr (.inr (.inl rfl))
        · exact .inr (.inr (.inr rfl))
    · exact .inl rfl
  case ringPoll => exact ⟨_, rfl⟩
  case ringWait cause _ =>
    split
    · cases cause with
      | none => exact .inl rfl
      | some i => exact .inr (.inl rfl)
    · split
      · exact .inr (.inr (.inl rfl))
      · exact .inr (.inr (.inr rfl))
  case snoozeDelay cause =>
    cases cause with
    | none => exact .inl rfl
    | some i => exact .inr rfl
  case snoozeFind =>
    split
    · exact .inl hpc
    · exact .inr ⟨_, rfl⟩
  case editorOpen => exact ⟨_, rfl⟩
  case editorPoll time _ =>
    generalize buttonKeyCheck keyScan = key
    simp only [System.gotoMain]
    split
    · exact .inl rfl
    · split
      · exact .inr (.inl rfl)
      · rcases edit_loop time key with ⟨edited, hdraw⟩ | hdelay
        · exact .inr (.inr (.inr ⟨key, edited, hdraw, hdraw⟩))
        · exact .inr (.inr (.inl hdelay))
  case editorConfirm =>
    simp only [System.gotoMain]
    split
    · exact .inl rfl
    · exact .inr rfl
  case commitTime =>
    simp only [System.gotoMain]
    split
    · exact .inl ⟨_, rfl⟩
    · exact .inr rfl
  all_goals rfl

/-- What `echo_task` leaves alone: the other tasks, the clock and the alarms. -/
structure EchoFrame (s next : System) : Prop where
  main : next.main = s.main
  alarm : next.alarm = s.alarm
  clock : next.clock = s.clock
  alarms : next.vars.alarms = s.vars.alarms
  alarmCount : next.vars.alarmCount = s.vars.alarmCount
  alarmCapacity : next.vars.alarmCapacity = s.vars.alarmCapacity

/-- `echo_task` may write to the command slot and the frame, to its buffers, move, and stop the
device. -/
theorem EchoFrame.update (s : System) (isCommand : Bool) (commandLastIndex : Nat)
    (uartDataTx rx : List UInt8) (data dataDest : Buffer) (pc : EchoPc) (halted : Bool) :
    EchoFrame s
      { s with
        vars := { s.vars with isCommand := isCommand, commandLastIndex := commandLastIndex,
                              uartDataTx := uartDataTx }
        rx := rx, data := data, dataDest := dataDest, echo := pc, halted := halted } :=
  ⟨rfl, rfl, rfl, rfl, rfl, rfl⟩

/-- A step of `echo_task` keeps its frame. -/
theorem echo_step_frame (memory : Nat → Option UInt8) (available : Nat) (s : System) :
    EchoFrame s (echoStep memory available s).1 := by
  cases hpc : s.echo <;> simp only [echoStep, hpc]
  case testFlag => split <;> exact .update s _ _ _ _ _ _ _ _
  case sendSection len comparisons =>
    cases comparisons with
    | nil => exact .update s _ _ _ _ _ _ _ _
    | cons command comparisons =>
        simp only
        split <;> exact .update s _ _ _ _ _ _ _ _
  case handle =>
    split
    · exact .update s _ _ _ _ _ _ _ _
    · split <;> exact .update s _ _ _ _ _ _ _ _
  case transfer =>
    split
    · split
      · exact .update s _ _ _ _ _ _ _ _
      · split <;> exact .update s _ _ _ _ _ _ _ _
    · exact .update s _ _ _ _ _ _ _ _
  all_goals exact .update s _ _ _ _ _ _ _ _

/-- What the step at a program point of `echo_task` leaves in the command slot: the flag and the
index. -/
def EchoPc.slot (vars : StaticVars) : EchoPc → Bool × Nat
  | .sendSection _ [] => (false, vars.commandLastIndex)
  | .replyFlag _ => (true, vars.commandLastIndex)
  | .replyIndex _ => (vars.isCommand, Command.dataSync.code)
  | _ => (vars.isCommand, vars.commandLastIndex)

/-- A step of `echo_task` leaves in the command slot what its program point says. -/
theorem echo_step_writes (memory : Nat → Option UInt8) (available : Nat) (s : System) :
    ((echoStep memory available s).1.vars.isCommand,
      (echoStep memory available s).1.vars.commandLastIndex) = s.echo.slot s.vars := by
  cases hpc : s.echo <;> simp only [echoStep, hpc]
  case testFlag => split <;> rfl
  case sendSection len comparisons =>
    cases comparisons with
    | nil => rfl
    | cons command comparisons =>
        simp only
        split <;> rfl
  case handle =>
    split
    · rfl
    · split <;> rfl
  case transfer =>
    split
    · split
      · rfl
      · split <;> rfl
    · rfl
  all_goals rfl

/-- What `alarm_task` leaves alone: the other tasks, the clock, the shared variables and the
receive buffers. -/
structure AlarmFrame (s next : System) : Prop where
  main : next.main = s.main
  echo : next.echo = s.echo
  clock : next.clock = s.clock
  vars : next.vars = s.vars
  rx : next.rx = s.rx
  data : next.data = s.data

/-- `alarm_task` may move and stop the device. -/
theorem AlarmFrame.update (s : System) (pc : AlarmPc) (halted : Bool) :
    AlarmFrame s { s with alarm := pc, halted := halted } :=
  ⟨rfl, rfl, rfl, rfl, rfl, rfl⟩

/-- A step of `alarm_task` keeps its frame. -/
theorem alarm_step_frame (keyScan : Nat) (s : System) :
    AlarmFrame s (alarmStep keyScan s).1 := by
  cases hpc : s.alarm <;> simp only [alarmStep, hpc]
  case checkAlarm =>
    split
    · exact .update s _ _
    · split <;> exact .update s _ _
  case ringPoll => split <;> exact .update s _ _
  all_goals exact .update s _ _

/-- What a step outside the main task leaves alone: the main task and the alarms. -/
structure OtherFrame (s next : System) : Prop where
  main : next.main = s.main
  alarms : next.vars.alarms = s.vars.alarms
  alarmCount : next.vars.alarmCount = s.vars.alarmCount
  alarmCapacity : next.vars.alarmCapacity = s.vars.alarmCapacity

/-- A step is one of the main task or leaves the main task and the alarms alone. -/
theorem act_other (memory : Nat → Option UInt8) (s : System) (action : Action) :
    (∃ keyScan, action = .main keyScan) ∨ OtherFrame s (act memory s action).1 := by
  cases action with
  | main keyScan => exact .inl ⟨keyScan, rfl⟩
  | echo available =>
      have hframe := echo_step_frame memory available s
      exact .inr ⟨hframe.main, hframe.alarms, hframe.alarmCount, hframe.alarmCapacity⟩
  | alarm keyScan =>
      have hframe := alarm_step_frame keyScan s
      have hvars := hframe.vars
      exact .inr ⟨hframe.main, by rw [act, hvars], by rw [act, hvars], by rw [act, hvars]⟩
  | arrive bytes | tick now => exact .inr ⟨rfl, rfl, rfl, rfl⟩

/-! ## Events -/

/-- The events that a step of the main task can emit. -/
def Event.fromMain : Event → Bool
  | .entered | .posted _ | .dismissed _ | .committed _ _ | .named _ | .counted | .snoozed _ => true
  | .polled screen _ => screen ≠ .alarmRing
  | .readAlarm task _ | .checked task _ _ _ | .ringing task _ | .silenced task _ | .fault task =>
      task = .main
  | _ => false

/-- The events that the main task can emit at a program point. -/
def MainPc.emits : MainPc → Event → Bool
  | .seedAlarm, .committed i alarmTimestamp => i = 0 ∧ alarmTimestamp = 0
  | .seedCount, .entered => true
  | .poll, .polled screen _ => screen = .clock
  | .poll, .ringing task cause => task = .main ∧ cause = none
  | .postIndex command, .posted posted => posted = command
  | .checkAlarm i _, .readAlarm task j | .checkAlarm i _, .checked task j _ _ =>
      task = .main ∧ j = i
  | .checkAlarm _ _, .fault task | .snoozeFind _, .fault task => task = .main
  | .checkAlarm i _, .ringing task cause => task = .main ∧ cause = some i
  | .ringPoll _, .polled screen _ => screen = .ringing
  | .ringIndex _ _, .posted command => command = .alarm
  | .ringWait cause _, .dismissed i => cause = some i
  | .ringWait cause _, .silenced task ended | .snoozeDelay cause, .silenced task ended =>
      task = .main ∧ ended = cause
  | .snoozeFind _, .readAlarm task _ => task = .main
  | .snoozeWrite _ i, .snoozed j => j = i
  | .editorPoll _ _, .polled screen _ => screen = .editor
  | .editorConfirm _ _, .polled screen _ => screen = .confirm
  | .commitTimestamp alarmTimestamp _, .committed _ committed => committed = alarmTimestamp
  | .commitString _, .named _ => true
  | .commitCount, .counted => true
  | _, _ => false

/-- The events that a step of `echo_task` can emit. -/
def Event.fromEcho : Event → Bool
  | .posted command => command = .dataSync
  | .sent _ | .reset | .readBytes _ | .handled _ | .flushed _ => true
  | .readAlarm task _ | .fault task => task = .echo
  | _ => false

/-- The events that a step of `alarm_task` can emit. -/
def Event.fromAlarm : Event → Bool
  | .polled screen _ => screen = .alarmRing
  | .dismissed _ => true
  | .readAlarm task _ | .checked task _ _ _ | .ringing task _ | .silenced task _ | .fault task =>
      task = .alarm
  | _ => false

/-- The main task emits the events of its program point. -/
theorem main_step_emits (keyScan : Nat) (s : System) :
    ∀ event ∈ (mainStep keyScan s).2, s.main.emits event = true := by
  cases hpc : s.main <;> simp only [mainStep, hpc]
  case checkAlarm =>
    split
    · split
      · simp [MainPc.emits]
      · split <;> simp [MainPc.emits]
    · simp
  case poll => split <;> simp [MainPc.emits]
  case ringWait cause _ =>
    split
    · cases cause <;> simp [MainPc.emits]
    · split <;> simp
  case snoozeFind cause =>
    have hreads : ∀ event ∈ (List.range s.vars.alarmCount).map (Event.readAlarm .main),
        MainPc.emits (.snoozeFind cause) event = true := by simp [MainPc.emits]
    split
    · exact List.forall_mem_append.mpr ⟨hreads, by simp [MainPc.emits]⟩
    · exact hreads
  all_goals simp [MainPc.emits]

/-- The main task emits its own events. -/
theorem main_step_from (keyScan : Nat) (s : System) :
    ∀ event ∈ (mainStep keyScan s).2, event.fromMain = true := by
  intro event hmem
  have hemits := main_step_emits keyScan s event hmem
  unfold MainPc.emits at hemits
  split at hemits <;> simp_all [Event.fromMain]

/-- `echo_task` emits its own events. -/
theorem echo_step_from (memory : Nat → Option UInt8) (available : Nat) (s : System) :
    ∀ event ∈ (echoStep memory available s).2, event.fromEcho = true := by
  cases hpc : s.echo <;> simp only [echoStep, hpc]
  case testFlag => split <;> simp [Event.fromEcho]
  case sendSection len comparisons =>
    cases comparisons with
    | nil => simp [Event.fromEcho]
    | cons command comparisons =>
        simp only
        split <;> simp [Event.fromEcho]
  case handle =>
    split
    · simp
    · split <;> simp [Event.fromEcho]
  case transfer =>
    split
    · split
      · simp [Event.fromEcho]
      · split <;> simp [Event.fromEcho]
    · simp
  all_goals simp [Event.fromEcho]

/-- `alarm_task` emits its own events. -/
theorem alarm_step_from (keyScan : Nat) (s : System) :
    ∀ event ∈ (alarmStep keyScan s).2, event.fromAlarm = true := by
  cases hpc : s.alarm <;> simp only [alarmStep, hpc]
  case checkAlarm =>
    split
    · simp [Event.fromAlarm]
    · split <;> simp [Event.fromAlarm]
  case ringPoll => split <;> simp [Event.fromAlarm]
  all_goals simp

/-- The events that only the main task emits. -/
def Event.mainOnly (event : Event) : Bool :=
  event.fromMain && !event.fromEcho && !event.fromAlarm

/-- An event that only the main task emits is emitted by a step of the main task. -/
theorem main_of_mem {memory : Nat → Option UInt8} {s : System} {action : Action} {event : Event}
    (honly : event.mainOnly = true) (hmem : event ∈ (act memory s action).2) :
    ∃ keyScan, action = .main keyScan := by
  simp only [Event.mainOnly, Bool.and_eq_true, Bool.not_eq_true'] at honly
  obtain ⟨⟨hmain, hecho⟩, halarm⟩ := honly
  cases action with
  | main keyScan => exact ⟨keyScan, rfl⟩
  | echo available =>
      have hfrom := echo_step_from memory available s event hmem
      rw [hecho] at hfrom
      simp at hfrom
  | alarm keyScan =>
      have hfrom := alarm_step_from keyScan s event hmem
      rw [halarm] at hfrom
      simp at hfrom
  | arrive bytes =>
      rw [List.mem_singleton.mp hmem] at hmain
      simp [Event.fromMain] at hmain
  | tick now => exact absurd hmem (List.not_mem_nil)

end SaiyuanClock
