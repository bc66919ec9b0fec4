import SaiyuanClock.Keypad
import SaiyuanClock.Uart

/-!
# The state of the firmware

Three tasks run once the clock is set: the main task, which enters `activity_clock_main` and the
screens it opens, `echo_task` on the UART, and `alarm_task`. Each task is at a program point
between two of its accesses to shared state; the constructors of `MainPc`, `EchoPc` and `AlarmPc`
are those points, with the local variables that are live there. A step of a task makes one
access, or a few when only that task uses what they touch.

`Event` records what the steps do, for the properties that speak about the past of a run.
-/

namespace SaiyuanClock

/-- The tasks that read the alarm store. -/
inductive Task where
  | main
  | echo
  | alarm
  deriving DecidableEq, Repr

/-- The places where the keypad is polled. -/
inductive Screen where
  | clock
  | ringing
  | editor
  | confirm
  | alarmRing
  deriving DecidableEq, Repr

/-- The program points of the main task. The first three are the writes of `i2c_app_main`: the
placeholder in entry 0, the capacity, the count. From `poll` to `clockDelay` it is in
`activity_clock_main`: the key poll, a post in its two writes, `check_alarms` with its loop, the
delay. From `ringDelay` to `ringAgain` it is in `activity_alarm_ringing`: the first delay, the poll,
the three writes of the post, the delay after it, the two halves of the snooze, its delay, the delay
of the loop. The others are those of `activity_alarm_setting`: its entry, `sprintf`, the two polls,
the conversion, the three writes of the commit, the delay of the loop.

A screen that returns goes on where its caller was: `cause` is the alarm for which `check_alarms`
opened the ringing screen, `none` if the alarm key opened it. -/
inductive MainPc where
  | seedAlarm
  | seedCapacity
  | seedCount
  | poll
  | postIndex (command : Command)
  | postFlag
  | checkAlarms
  | checkAlarm (i alarmCount : Nat)
  | clockDelay
  | ringDelay (cause : Option Nat)
  | ringPoll (cause : Option Nat)
  | ringRaise (cause : Option Nat) (key : ButtonKey)
  | ringIndex (cause : Option Nat) (key : ButtonKey)
  | ringFlag (cause : Option Nat) (key : ButtonKey)
  | ringWait (cause : Option Nat) (key : ButtonKey)
  | snoozeFind (cause : Option Nat)
  | snoozeWrite (cause : Option Nat) (nearestAlarm : Nat)
  | snoozeDelay (cause : Option Nat)
  | ringAgain (cause : Option Nat)
  | editorOpen
  | editorDraw (time : TimeOfDay)
  | editorPoll (time : TimeOfDay) (timeStr : String)
  | editorConfirm (time : TimeOfDay) (timeStr : String)
  | commitTime (time : TimeOfDay) (timeStr : String)
  | commitTimestamp (alarmTimestamp : Int) (timeStr : String)
  | commitString (timeStr : String)
  | commitCount
  | editorDelay (time : TimeOfDay)
  deriving DecidableEq, Repr

/-- The program points of `echo_task`. In `sendSection` the comparisons of `command_last_index`
still to make are listed; with none left, `isCommand` is about to be reset. -/
inductive EchoPc where
  | readBytes
  | testFlag (len : Nat)
  | sendSection (len : Nat) (comparisons : List Command)
  | dataSyncDelay (len : Nat)
  | handle (len : Nat)
  | transfer (i alarmCount : Nat) (uartDataTxBuffer : List UInt8)
  | replyFlag (uartDataTxBuffer : List UInt8)
  | replyIndex (uartDataTxBuffer : List UInt8)
  | replyCopy (uartDataTxBuffer : List UInt8)
  | flush
  | delay
  deriving DecidableEq, Repr

/-- The program points of `alarm_task` and of `alarm_ring`, which it calls. -/
inductive AlarmPc where
  | testCount (i : Nat)
  | checkAlarm (i : Nat)
  | ringPoll (i : Nat)
  | ringDelay (i : Nat)
  | delay
  deriving DecidableEq, Repr

/-- What a step does that later steps, the peer, or the user can notice. The main task enters
`activity_clock_main`, or a screen polls the keypad. `posted` is the write of `command_last_index`
for a new command, `sent` a message that `echo_task` writes to the UART, `reset` its reset of
`isCommand`. Bytes arrive, are read, are handed to `command_handler` as a line, and are discarded.
A task reads an entry of the store, and `checked` is its `check_alarm` with the timestamp and the
clock reading that it compared. The ringing screen, or `alarm_ring`, is entered with `ringing` and
left with `silenced`; `dismissed` says that the user ended the ringing for an alarm with CONFIRM.
The next four are the writes to the store. A `fault` is an access that the hardware or the C
standard does not allow. -/
inductive Event where
  | entered
  | polled (screen : Screen) (key : ButtonKey)
  | posted (command : Command)
  | sent (message : Message)
  | reset
  | arrived (bytes : List UInt8)
  | readBytes (bytes : List UInt8)
  | handled (line : List UInt8)
  | flushed (bytes : List UInt8)
  | readAlarm (task : Task) (i : Nat)
  | checked (task : Task) (i : Nat) (alarmTimestamp now : Int)
  | ringing (task : Task) (cause : Option Nat)
  | silenced (task : Task) (cause : Option Nat)
  | dismissed (i : Nat)
  | committed (i : Nat) (alarmTimestamp : Int)
  | named (i : Nat)
  | counted
  | snoozed (i : Nat)
  | fault (task : Task)
  deriving DecidableEq, Repr

/-- The state of the firmware: the shared variables, the clock, the receive buffer of the UART
driver, the two buffers of `echo_task`, and the program points. After a fault nothing runs. -/
structure System where
  vars : StaticVars
  clock : Int
  rx : List UInt8
  data : Buffer
  dataDest : Buffer
  main : MainPc
  echo : EchoPc
  alarm : AlarmPc
  halted : Bool

namespace System

/-- The main task reaches a program point. -/
def gotoMain (s : System) (pc : MainPc) : System := { s with main := pc }

/-- `echo_task` reaches a program point. -/
def gotoEcho (s : System) (pc : EchoPc) : System := { s with echo := pc }

/-- `alarm_task` reaches a program point. -/
def gotoAlarm (s : System) (pc : AlarmPc) : System := { s with alarm := pc }

/-- Write `isCommand`. -/
def setFlag (s : System) (value : Bool) : System :=
  { s with vars := { s.vars with isCommand := value } }

/-- Write `command_last_index`. -/
def setIndex (s : System) (command : Command) : System :=
  { s with vars := { s.vars with commandLastIndex := command.code } }

/-- Write to an entry of the store. -/
def modifyAlarm (s : System) (i : Nat) (f : Alarm → Alarm) : System :=
  { s with vars := s.vars.modifyAlarm i f }

/-- The device stops. -/
def halt (s : System) : System := { s with halted := true }

end System

end SaiyuanClock
