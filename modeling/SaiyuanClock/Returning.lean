import SaiyuanClock.Library.Recurrence
import SaiyuanClock.NullPointers

/-!
# Returning

No screen keeps the user: while CONFIRM is pressed the main task comes back to the key poll of
`activity_clock_main` within 27 of its own steps, from wherever it is and whatever the other tasks,
the clock and the peer do. In the same sense `echo_task` comes back to the UART and `alarm_task` to
every stored alarm. The one state from which the main task never comes back is a CANCEL in the
ringing screen with no stored alarm in the past.
-/

namespace SaiyuanClock

open LabelledSteps

/-- The task that an action moves. -/
def Action.task : Action → Option Task
  | .main _ => some .main
  | .echo _ => some .echo
  | .alarm _ => some .alarm
  | .arrive _ | .tick _ => none

/-- An action moves a task. -/
def Action.moves (task : Task) (action : Action) : Bool := action.task = some task

/-- While a key is pressed at the polls of a task. -/
def pressing (task : Task) (key : ButtonKey) (_ : System) : Action → Prop
  | .main keyScan => task = .main → buttonKeyCheck keyScan = key
  | .alarm keyScan => task = .alarm → buttonKeyCheck keyScan = key
  | .echo _ | .arrive _ | .tick _ => True

/-- Whether a key is pressed is decidable. -/
instance (task : Task) (key : ButtonKey) (s : System) :
    ∀ action, Decidable (pressing task key s action)
  | .main keyScan => inferInstanceAs (Decidable (task = .main → buttonKeyCheck keyScan = key))
  | .alarm keyScan => inferInstanceAs (Decidable (task = .alarm → buttonKeyCheck keyScan = key))
  | .echo _ | .arrive _ | .tick _ => inferInstanceAs (Decidable True)

/-- A state that the firmware reaches. -/
def Reached (memory : Nat → Option UInt8) (s : System) : Prop :=
  ∃ clock data dataDest trace, Run memory anyOrder (boot clock data dataDest) trace s

section

variable {memory : Nat → Option UInt8} {s : System}

/-- A step leads to a state that the firmware reaches. -/
theorem Reached.after (h : Reached memory s) (action : Action) (hrunning : s.halted = false) :
    Reached memory (act memory s action).1 := by
  obtain ⟨clock, data, dataDest, trace, hrun⟩ := h
  exact ⟨clock, data, dataDest, _, hrun.trans (run_act memory action trivial hrunning)⟩

/-- What holds of the alarm store in a state that the firmware reaches. -/
theorem Reached.store (h : Reached memory s) :
    ∃ history, Booting s history ∨ Stocked s history := by
  obtain ⟨clock, data, dataDest, trace, hrun⟩ := h
  exact ⟨_, boot_run hrun⟩

/-- The alarm count stays within the capacity. -/
theorem Reached.count_le (h : Reached memory s) : s.vars.alarmCount ≤ 8 := by
  obtain ⟨history, hboot | hstocked⟩ := h.store
  · rw [hboot.count]
    decide
  · exact hstocked.table.count_le

/-- A task reads entries below the alarm count only. -/
theorem Reached.bound_le (h : Reached memory s) (task : Task) :
    readerBound s task ≤ s.vars.alarmCount := by
  obtain ⟨history, hboot | hstocked⟩ := h.store
  · exact hboot.table.bound task
  · exact hstocked.table.bound task

/-- The rank of a state in which the device runs; where it has halted, the rank is `stopped`. -/
def running (stopped : Nat) (rank : System → Nat) (s : System) : Nat :=
  if s.halted then stopped else rank s

/-- A rank of the program points bounds the rank of the state. -/
theorem running_le {stopped bound : Nat} {rank : System → Nat} (hbound : stopped ≤ bound)
    (h : rank s ≤ bound) : running stopped rank s ≤ bound := by
  unfold running
  split
  · exact hbound
  · exact h

/-- No state has rank zero if no program point has. -/
theorem running_pos {rank : System → Nat} (h : ∀ s, 0 < rank s) (s : System) :
    0 < running 1 rank s := by
  unfold running
  split
  · exact Nat.one_pos
  · exact h s

/-- A rank bounds the steps of a component of the firmware if its own steps reach the goal or lower
the rank, and the others reach the goal or do not raise it, while the device runs. -/
theorem ranked_of_acts {allowed : System → Action → Prop} {inv : System → Prop}
    {own : Action → Bool} {goal : Event → Prop} {rank : System → Nat}
    (hkeeps : ∀ s action, inv s → allowed s action → s.halted = false →
      (∃ event ∈ (act memory s action).2, goal event) ∨ inv (act memory s action).1)
    (hlowers : ∀ s action, inv s → allowed s action → s.halted = false → own action = true →
      (∃ event ∈ (act memory s action).2, goal event) ∨
        rank (act memory s action).1 ≤ rank s - 1)
    (hpasses : ∀ s action, inv s → allowed s action → s.halted = false → own action = false →
      (∃ event ∈ (act memory s action).2, goal event) ∨ rank (act memory s action).1 ≤ rank s) :
    Ranked (step memory) allowed inv own goal rank := by
  constructor
  case keeps =>
    intro s action next emitted hinv hallowed hstep
    obtain ⟨hrunning, heq⟩ := step_eq_some_iff.mp hstep
    simpa only [heq] using hkeeps s action hinv hallowed hrunning
  case lowers =>
    intro s action next emitted hinv hallowed hown hstep
    obtain ⟨hrunning, heq⟩ := step_eq_some_iff.mp hstep
    simpa only [heq] using hlowers s action hinv hallowed hrunning hown
  case passes =>
    intro s action next emitted hinv hallowed hown hstep
    obtain ⟨hrunning, heq⟩ := step_eq_some_iff.mp hstep
    simpa only [heq] using hpasses s action hinv hallowed hrunning hown

/-- A task settles or reaches its goal within a rank if its own steps reach the goal, stop the
device or lower the rank, and the other steps reach the goal or do not raise it. -/
theorem ranked_of_steps {allowed : System → Action → Prop} {task : Task} {inv : System → Prop}
    {goal : Event → Prop} {stopped : Nat} {rank : System → Nat} (hstopped : ∀ s, stopped ≤ rank s)
    (hkeeps : ∀ s action, inv s → allowed s action → s.halted = false →
      (∃ event ∈ (act memory s action).2, goal event) ∨ inv (act memory s action).1)
    (hlowers : ∀ s action, inv s → allowed s action → action.moves task = true →
      (∃ event ∈ (act memory s action).2, goal event) ∨
        (act memory s action).1.halted = true ∧ stopped ≤ rank s - 1 ∨
          rank (act memory s action).1 ≤ rank s - 1)
    (hpasses : ∀ s action, inv s → allowed s action → action.moves task = false →
      (∃ event ∈ (act memory s action).2, goal event) ∨ rank (act memory s action).1 ≤ rank s) :
    Ranked (step memory) allowed inv (Action.moves task) goal (running stopped rank) := by
  refine ranked_of_acts hkeeps ?_ ?_
  · intro s action hinv hallowed hrunning hmoves
    have hnext := hstopped (act memory s action).1
    simp only [running, hrunning, Bool.false_eq_true, if_false]
    rcases hlowers s action hinv hallowed hmoves with hgoal | ⟨hhalted, hrank⟩ | hrank
    · exact .inl hgoal
    · rw [if_pos hhalted]
      exact .inr hrank
    · refine .inr ?_
      split
      · exact hnext.trans hrank
      · exact hrank
  · intro s action hinv hallowed hrunning hmoves
    simp only [running, hrunning, Bool.false_eq_true, if_false]
    refine (hpasses s action hinv hallowed hmoves).imp_right fun hrank => ?_
    split
    · exact hstopped s
    · exact hrank

end

/-! ## The main task -/

/-- How many steps the ringing screen takes from the delay after its post to its return, when
`key` was polled before the post and CONFIRM is pressed from then on. -/
def ButtonKey.untilSilence : ButtonKey → Nat
  | .confirm => 1
  | .cancel => 4
  | _ => 7

/-- How many steps the main task takes from the return of the ringing screen to the key poll of the
clock. -/
def untilPollAfter : Option Nat → Nat
  | none => 17
  | some _ => 2

/-- How many steps the main task takes at most to the key poll of the clock, that step included,
while CONFIRM is pressed. -/
def MainPc.untilPoll : MainPc → Nat
  | .poll => 1
  | .seedAlarm => 4
  | .seedCapacity => 3
  | .seedCount | .clockDelay => 2
  | .checkAlarm i alarmCount => alarmCount - i + 8
  | .checkAlarms => 17
  | .postFlag => 18
  | .postIndex _ => 19
  | .ringDelay cause | .ringAgain cause => untilPollAfter cause + 6
  | .ringPoll cause => untilPollAfter cause + 5
  | .ringRaise cause key => untilPollAfter cause + key.untilSilence + 3
  | .ringIndex cause key => untilPollAfter cause + key.untilSilence + 2
  | .ringFlag cause key => untilPollAfter cause + key.untilSilence + 1
  | .ringWait cause key => untilPollAfter cause + key.untilSilence
  | .snoozeFind cause => untilPollAfter cause + 3
  | .snoozeWrite cause _ => untilPollAfter cause + 2
  | .snoozeDelay cause => untilPollAfter cause + 1
  | .commitCount => 20
  | .commitString _ => 21
  | .commitTimestamp _ _ => 22
  | .commitTime _ _ => 23
  | .editorConfirm _ _ => 24
  | .editorPoll _ _ => 25
  | .editorDraw _ => 26
  | .editorDelay _ | .editorOpen => 27

/-- The ringing screen takes at least a step to its return. -/
theorem until_silence_bounds (key : ButtonKey) : 1 ≤ key.untilSilence ∧ key.untilSilence ≤ 7 := by
  cases key <;> decide

/-- The main task takes at least two steps from the ringing screen to the key poll. -/
theorem until_poll_after_bounds (cause : Option Nat) :
    2 ≤ untilPollAfter cause ∧ untilPollAfter cause ≤ 17 := by
  cases cause with
  | none => decide
  | some _ => exact ⟨le_rfl, (by decide : 2 ≤ 17)⟩

/-- Where the ringing screen returns to. -/
theorem until_poll_after_ringing (cause : Option Nat) :
    (afterRinging cause).untilPoll = untilPollAfter cause := by
  cases cause <;> rfl

/-- Every program point is at least a step from the poll. -/
theorem until_poll_pos (pc : MainPc) : 0 < pc.untilPoll := by
  cases pc
  case ringWait cause key =>
    have hsilence := until_silence_bounds key
    simp only [MainPc.untilPoll]
    omega
  all_goals simp [MainPc.untilPoll]

/-- While CONFIRM is pressed a step of the main task before the poll stops the device or comes
closer to the poll. -/
theorem main_step_returns {keyScan : Nat} {s : System} (hkey : buttonKeyCheck keyScan = .confirm)
    (hcount : s.vars.alarmCount ≤ 8) (hpoll : s.main ≠ .poll) :
    (mainStep keyScan s).1.halted = true ∧ 1 < s.main.untilPoll ∨
      (mainStep keyScan s).1.main.untilPoll < s.main.untilPoll := by
  cases hpc : s.main <;> simp only [mainStep, hpc, hkey]
  case poll => exact absurd hpc hpoll
  case checkAlarms =>
    refine .inr ?_
    simp only [System.gotoMain, MainPc.untilPoll]
    omega
  case checkAlarm i alarmCount =>
    split
    · next hi =>
      split
      · refine .inl ⟨rfl, ?_⟩
        simp [MainPc.untilPoll]
      · refine .inr ?_
        split
        all_goals
          simp only [System.gotoMain, MainPc.untilPoll, untilPollAfter]
          omega
    · refine .inr ?_
      simp only [System.gotoMain, MainPc.untilPoll]
      omega
  case ringWait cause key =>
    refine .inr ?_
    split
    · next hconfirm =>
      subst hconfirm
      simp only [System.gotoMain]
      rw [until_poll_after_ringing]
      exact Nat.lt_succ_self _
    · next hother =>
      split
      · next hcancel =>
        subst hcancel
        simp only [System.gotoMain, MainPc.untilPoll, ButtonKey.untilSilence]
        omega
      · next hcancel =>
        have hsilence : key.untilSilence = 7 := by
          cases key
          case confirm => exact absurd rfl hother
          case cancel => exact absurd rfl hcancel
          all_goals rfl
        simp only [System.gotoMain, MainPc.untilPoll, hsilence]
        omega
  case snoozeFind cause =>
    split
    · refine .inl ⟨rfl, ?_⟩
      simp only [MainPc.untilPoll]
      omega
    · refine .inr ?_
      simp only [System.gotoMain, MainPc.untilPoll]
      omega
  case snoozeDelay cause =>
    refine .inr ?_
    simp only [System.gotoMain]
    rw [until_poll_after_ringing]
    exact Nat.lt_succ_self _
  case commitTime =>
    refine .inr ?_
    simp only [System.gotoMain]
    split <;> simp [MainPc.untilPoll]
  all_goals
    refine .inr ?_
    simp [System.gotoMain, System.setFlag, MainPc.untilPoll, ButtonKey.untilSilence]

/-- In a state that the firmware reaches the main task is at most 27 steps from the poll. -/
theorem until_poll_le {memory : Nat → Option UInt8} {s : System} (h : Reached memory s) :
    s.main.untilPoll ≤ 27 := by
  have hbound := h.bound_le .main
  have hcount := h.count_le
  cases hpc : s.main
  case checkAlarm i alarmCount =>
    simp only [readerBound, hpc, MainPc.bound] at hbound
    simp only [MainPc.untilPoll]
    omega
  case ringRaise cause key | ringIndex cause key | ringFlag cause key | ringWait cause key =>
    have hsilence := until_silence_bounds key
    have hafter := until_poll_after_bounds cause
    simp only [MainPc.untilPoll]
    omega
  case ringDelay cause | ringAgain cause | ringPoll cause | snoozeFind cause | snoozeDelay cause =>
    have hafter := until_poll_after_bounds cause
    simp only [MainPc.untilPoll]
    omega
  case snoozeWrite cause i =>
    have hafter := until_poll_after_bounds cause
    simp only [MainPc.untilPoll]
    omega
  all_goals simp [MainPc.untilPoll]

/-- A step outside the main task leaves it where it is. -/
theorem act_main_stays (memory : Nat → Option UInt8) (s : System) {action : Action}
    (h : action.moves .main = false) : (act memory s action).1.main = s.main := by
  rcases act_other memory s action with ⟨keyScan, rfl⟩ | hframe
  · simp [Action.moves, Action.task] at h
  · exact hframe.main

/-- How many steps `echo_task` takes at most to the next read of the UART, that step included. -/
def EchoPc.untilRead : EchoPc → Nat
  | .readBytes => 1
  | .delay => 2
  | .flush => 3
  | .replyCopy _ => 4
  | .replyIndex _ => 5
  | .replyFlag _ => 6
  | .transfer i alarmCount _ => alarmCount - i + 7
  | .handle _ => 16
  | .sendSection _ [] => 17
  | .dataSyncDelay _ => 18
  | .sendSection _ comparisons => comparisons.length + 18
  | .testFlag _ => 24

/-- How many steps `echo_task` takes at most to the next reset of `isCommand`, that step included,
while the flag is set. -/
def EchoPc.untilReset : EchoPc → Nat
  | .sendSection _ [] => 1
  | .dataSyncDelay _ => 2
  | .sendSection _ comparisons => comparisons.length + 2
  | .testFlag _ => 8
  | .readBytes => 9
  | .delay => 10
  | .flush => 11
  | .replyCopy _ => 12
  | .replyIndex _ => 13
  | .replyFlag _ => 14
  | .transfer i alarmCount _ => alarmCount - i + 15
  | .handle _ => 24

/-- The program points to which `echo_task` can go from another, with the flag and the alarm count
that it finds. -/
def EchoPc.Next (isCommand : Bool) (count : Nat) (next : EchoPc) : EchoPc → Prop
  | .readBytes => ∃ len, next = .testFlag len
  | .testFlag len => next = if isCommand then .sendSection len Command.all else .handle len
  | .sendSection len [] => next = .handle len
  | .sendSection len (_ :: comparisons) =>
      next = .dataSyncDelay len ∨ next = .sendSection len [] ∨ next = .sendSection len comparisons
  | .dataSyncDelay len => next = .sendSection len []
  | .handle _ => next = .flush ∨ next = .transfer 0 count []
  | .transfer i alarmCount buffer =>
      i < alarmCount ∧ (∃ longer, next = .transfer (i + 1) alarmCount longer) ∨
        next = .replyFlag buffer
  | .replyFlag buffer => next = .replyIndex buffer
  | .replyIndex buffer => next = .replyCopy buffer
  | .replyCopy _ => next = .flush
  | .flush => next = .delay
  | .delay => next = .readBytes

/-- A step of `echo_task` goes on to one of the next program points, or it stops the device while
it handles a line or transfers an alarm. -/
theorem echo_step_next (memory : Nat → Option UInt8) (available : Nat) (s : System) :
    ((echoStep memory available s).1 = s.halt ∧ ((∃ len, s.echo = .handle len) ∨
        ∃ i alarmCount buffer, s.echo = .transfer i alarmCount buffer)) ∨
      EchoPc.Next s.vars.isCommand s.vars.alarmCount (echoStep memory available s).1.echo
        s.echo := by
  cases hpc : s.echo <;> simp only [echoStep, hpc, EchoPc.Next]
  case readBytes => exact .inr ⟨_, rfl⟩
  case testFlag =>
    refine .inr ?_
    split <;> rfl
  case sendSection len comparisons =>
    refine .inr ?_
    cases comparisons with
    | nil => rfl
    | cons command comparisons =>
        simp only
        split
        · simp only [System.gotoEcho]
          split
          · exact .inl rfl
          · exact .inr (.inl rfl)
        · exact .inr (.inr rfl)
  case handle len =>
    split
    · exact .inr (.inl rfl)
    · split
      · exact .inl ⟨rfl, .inl ⟨len, rfl⟩⟩
      · refine .inr ?_
        simp only
        split
        · exact .inl rfl
        · split
          · exact .inr rfl
          · exact .inl rfl
  case transfer i alarmCount buffer =>
    split
    · next hi =>
      split
      · exact .inl ⟨rfl, .inr ⟨_, _, _, rfl⟩⟩
      · split
        · exact .inl ⟨rfl, .inr ⟨_, _, _, rfl⟩⟩
        · exact .inr (.inl ⟨hi, _, rfl⟩)
    · exact .inr (.inr rfl)
  all_goals exact .inr (by trivial)

/-- From one program point of `echo_task` to the next the read of the UART comes closer, but for
the read itself. -/
theorem until_read_lt {isCommand : Bool} {count : Nat} (hcount : count ≤ 8) {pc next : EchoPc}
    (h : EchoPc.Next isCommand count next pc) (hread : pc ≠ .readBytes) :
    next.untilRead < pc.untilRead := by
  cases pc
  case readBytes => exact absurd rfl hread
  case testFlag len =>
    obtain rfl := h
    split <;> simp [EchoPc.untilRead, Command.all]
  case sendSection len comparisons =>
    cases comparisons with
    | nil =>
        obtain rfl := h
        simp [EchoPc.untilRead]
    | cons command comparisons =>
        rcases h with rfl | rfl | rfl
        · simp [EchoPc.untilRead]
        · simp [EchoPc.untilRead]
        · cases comparisons <;> simp [EchoPc.untilRead]
  case handle len =>
    rcases h with rfl | rfl
    · simp [EchoPc.untilRead]
    · simp only [EchoPc.untilRead]
      omega
  case transfer i alarmCount buffer =>
    rcases h with ⟨hi, longer, rfl⟩ | rfl
    · simp only [EchoPc.untilRead]
      omega
    · simp only [EchoPc.untilRead]
      omega
  all_goals
    obtain rfl := h
    simp [EchoPc.untilRead]

/-- From one program point of `echo_task` to the next the reset of a raised flag comes closer, but
for the reset itself. -/
theorem until_reset_lt {count : Nat} (hcount : count ≤ 8) {pc next : EchoPc}
    (h : EchoPc.Next true count next pc) (hreset : ∀ len, pc ≠ .sendSection len []) :
    next.untilReset < pc.untilReset := by
  cases pc
  case sendSection len comparisons =>
    cases comparisons with
    | nil => exact absurd rfl (hreset len)
    | cons command comparisons =>
        rcases h with rfl | rfl | rfl
        · simp [EchoPc.untilReset]
        · simp [EchoPc.untilReset]
        · cases comparisons <;> simp [EchoPc.untilReset]
  case readBytes =>
    obtain ⟨len, rfl⟩ := h
    simp [EchoPc.untilReset]
  case handle len =>
    rcases h with rfl | rfl
    · simp [EchoPc.untilReset]
    · simp only [EchoPc.untilReset]
      omega
  case transfer i alarmCount buffer =>
    rcases h with ⟨hi, longer, rfl⟩ | rfl
    · simp only [EchoPc.untilReset]
      omega
    · simp only [EchoPc.untilReset]
      omega
  all_goals
    obtain rfl := h
    simp [EchoPc.untilReset, Command.all]

/-- Every program point of `echo_task` is at least a step from the read and from the reset. -/
theorem until_read_pos (pc : EchoPc) : 0 < pc.untilRead ∧ 0 < pc.untilReset := by
  cases pc
  case sendSection len comparisons =>
    cases comparisons <;> simp [EchoPc.untilRead, EchoPc.untilReset]
  all_goals simp [EchoPc.untilRead, EchoPc.untilReset]

/-- In a state that the firmware reaches `echo_task` has at most five comparisons to make. -/
theorem Reached.comparisons_le {memory : Nat → Option UInt8} {s : System} (h : Reached memory s)
    {len : Nat} {comparisons : List Command} (hpc : s.echo = .sendSection len comparisons) :
    comparisons.length ≤ 5 := by
  obtain ⟨clock, data, dataDest, trace, hrun⟩ := h
  refine hrun.invariant (fun state _ => ∀ len comparisons,
    state.echo = .sendSection len comparisons → comparisons.length ≤ 5) (by simp [boot]) ?_ len
    comparisons hpc
  intro events state emitted next _ hinv hstep len comparisons hnext
  obtain ⟨action, -, -, rfl, rfl⟩ := step_of_iff.mp hstep
  cases action with
  | main keyScan => exact hinv len comparisons ((main_step_frame keyScan state).echo ▸ hnext)
  | alarm keyScan => exact hinv len comparisons ((alarm_step_frame keyScan state).echo ▸ hnext)
  | arrive bytes | tick now => exact hinv len comparisons hnext
  | echo available =>
      rw [act] at hnext
      rcases echo_step_next memory available state with ⟨hstop, -⟩ | hgo
      · rw [hstop] at hnext
        exact hinv len comparisons hnext
      · rw [hnext] at hgo
        cases hpc : state.echo <;> rw [hpc] at hgo
        case testFlag =>
          simp only [EchoPc.Next] at hgo
          split at hgo
          · obtain ⟨-, rfl⟩ := EchoPc.sendSection.inj hgo
            decide
          · cases hgo
        case sendSection len' before =>
          have hbefore := hinv len' before hpc
          cases before with
          | nil => cases hgo
          | cons command before =>
              rw [List.length_cons] at hbefore
              rcases hgo with hgo | hgo | hgo
              · cases hgo
              · obtain ⟨-, rfl⟩ := EchoPc.sendSection.inj hgo
                exact Nat.zero_le _
              · obtain ⟨-, rfl⟩ := EchoPc.sendSection.inj hgo
                omega
        all_goals simp [EchoPc.Next] at hgo
        case dataSyncDelay =>
          obtain ⟨-, rfl⟩ := hgo
          exact Nat.zero_le _

/-- In a state that the firmware reaches `echo_task` is at most 24 steps from the read and from the
reset. -/
theorem until_read_le {memory : Nat → Option UInt8} {s : System} (h : Reached memory s) :
    s.echo.untilRead ≤ 24 ∧ s.echo.untilReset ≤ 24 := by
  have hbound := h.bound_le .echo
  have hcount := h.count_le
  cases hpc : s.echo
  case sendSection len comparisons =>
    have hlength := h.comparisons_le hpc
    cases comparisons with
    | nil => simp [EchoPc.untilRead, EchoPc.untilReset]
    | cons command comparisons =>
        simp only [EchoPc.untilRead, EchoPc.untilReset]
        omega
  case transfer i alarmCount buffer =>
    simp only [readerBound, hpc, EchoPc.bound] at hbound
    simp only [EchoPc.untilRead, EchoPc.untilReset]
    omega
  all_goals simp [EchoPc.untilRead, EchoPc.untilReset]

/-- A step outside `echo_task` leaves it where it is. -/
theorem act_echo_stays (memory : Nat → Option UInt8) (s : System) {action : Action}
    (h : action.moves .echo = false) : (act memory s action).1.echo = s.echo := by
  cases action with
  | main keyScan => exact (main_step_frame keyScan s).echo
  | alarm keyScan => exact (alarm_step_frame keyScan s).echo
  | echo available => simp [Action.moves, Action.task] at h
  | arrive bytes | tick now => rfl

/-- A raised flag stays raised until `echo_task` resets it. -/
theorem flag_until_reset (memory : Nat → Option UInt8) {s : System} (action : Action)
    (h : s.vars.isCommand = true) :
    .reset ∈ (act memory s action).2 ∨ (act memory s action).1.vars.isCommand = true := by
  cases action with
  | main keyScan =>
      refine .inr ?_
      rw [act, main_step_vars]
      cases s.main
      case postFlag | ringRaise | ringFlag => rfl
      case seedAlarm | snoozeWrite | commitTimestamp | commitString =>
        exact (StaticVars.modify_alarm_is_command _ _ _).trans h
      all_goals exact h
  | alarm keyScan =>
      refine .inr ?_
      rw [act, (alarm_step_frame keyScan s).vars]
      exact h
  | arrive bytes | tick now => exact .inr h
  | echo available =>
      have hflag := congrArg Prod.fst (echo_step_writes memory available s)
      rw [act]
      cases hpc : s.echo <;> rw [hpc] at hflag
      case sendSection len comparisons =>
        cases comparisons with
        | nil =>
            refine .inl ?_
            simp only [echoStep, hpc]
            exact List.mem_singleton_self _
        | cons command comparisons => exact .inr (hflag.trans h)
      case replyFlag => exact .inr hflag
      all_goals exact .inr (hflag.trans h)

/-- The program point of `echo_task` at which it is about to reset `isCommand`. -/
def EchoPc.resets : EchoPc → Bool
  | .sendSection _ [] => true
  | _ => false

/-- Only `echo_task` resets the flag, and only at the end of its send section. -/
theorem resets_of_reset {memory : Nat → Option UInt8} {s : System} {action : Action}
    (h : .reset ∈ (act memory s action).2) :
    (∃ available, action = .echo available) ∧ s.echo.resets = true := by
  cases action with
  | main keyScan =>
      have hfrom := main_step_from keyScan s _ h
      cases hfrom
  | alarm keyScan =>
      have hfrom := alarm_step_from keyScan s _ h
      cases hfrom
  | arrive | tick => simp [act] at h
  | echo available =>
      refine ⟨⟨available, rfl⟩, ?_⟩
      rw [act] at h
      cases hpc : s.echo <;> simp only [echoStep, hpc] at h
      case sendSection len comparisons =>
        cases comparisons with
        | nil => rfl
        | cons command comparisons =>
            simp only at h
            split at h <;> simp at h
      case testFlag => split at h <;> simp at h
      case handle =>
        split at h
        · simp at h
        · split at h <;> simp at h
      case transfer =>
        split at h
        · split at h
          · simp at h
          · split at h <;> simp at h
        · simp at h
      all_goals simp at h

/-- How many steps `alarm_task` takes at most until it reads entry `i`, that step included, while
CONFIRM is pressed in `alarm_ring`. -/
def AlarmPc.untilEntry (i : Nat) : AlarmPc → Nat
  | .testCount j => if j ≤ i then 3 * (i - j) + 2 else 3 * (8 - j) + 3 * i + 4
  | .checkAlarm j => if j ≤ i then 3 * (i - j) + 1 else 3 * (8 - j) + 3 * i + 3
  | .ringPoll j => if j < i then 3 * (i - j) else 3 * (7 - j) + 3 * i + 5
  | .ringDelay j => if j < i then 3 * (i - j) + 1 else 3 * (7 - j) + 3 * i + 6
  | .delay => 3 * i + 3

/-- An entry of the store is at least one and at most 27 steps away. -/
theorem until_entry_bounds {i : Nat} (hi : i < 8) (pc : AlarmPc) :
    0 < pc.untilEntry i ∧ pc.untilEntry i ≤ 27 := by
  cases pc <;> simp only [AlarmPc.untilEntry]
  case delay => omega
  all_goals split <;> omega

/-- While CONFIRM is pressed in `alarm_ring`, a step of `alarm_task` reads the entry, stops the
device or comes closer to the entry. -/
theorem alarm_step_reads {keyScan i : Nat} {s : System} (hkey : buttonKeyCheck keyScan = .confirm)
    (hi : i < s.vars.alarmCount) (hcount : s.vars.alarmCount ≤ 8) :
    (∃ event ∈ (alarmStep keyScan s).2, event = .readAlarm .alarm i) ∨
      (alarmStep keyScan s).1.halted = true ∧ 1 < s.alarm.untilEntry i ∨
        (alarmStep keyScan s).1.alarm.untilEntry i < s.alarm.untilEntry i := by
  cases hpc : s.alarm <;> simp only [alarmStep, hpc, hkey]
  case testCount j =>
    refine .inr (.inr ?_)
    simp only [System.gotoAlarm]
    split
    · simp only [AlarmPc.untilEntry]
      split <;> omega
    · simp only [AlarmPc.untilEntry]
      split <;> omega
  case checkAlarm j =>
    by_cases hentry : j = i
    · subst hentry
      refine .inl ⟨.readAlarm .alarm j, ?_, rfl⟩
      split
      · exact List.mem_cons_self
      · split <;> exact List.mem_cons_self
    · refine .inr ?_
      cases hget : s.vars.alarms[j]? with
      | none =>
          refine .inl ⟨rfl, ?_⟩
          simp only [AlarmPc.untilEntry]
          split <;> omega
      | some alarm =>
          obtain ⟨hj, -⟩ := Vector.getElem?_eq_some_iff.mp hget
          refine .inr ?_
          simp only
          split
          · simp only [System.gotoAlarm, AlarmPc.untilEntry]
            split <;> split <;> omega
          · simp only [System.gotoAlarm, AlarmPc.untilEntry]
            split <;> split <;> omega
  case ringPoll j =>
    refine .inr (.inr ?_)
    simp only [System.gotoAlarm, if_true, AlarmPc.untilEntry]
    split <;> split <;> omega
  case ringDelay j =>
    refine .inr (.inr ?_)
    simp only [System.gotoAlarm, AlarmPc.untilEntry]
    split <;> omega
  case delay =>
    refine .inr (.inr ?_)
    simp only [System.gotoAlarm, AlarmPc.untilEntry]
    split <;> omega

/-- No step takes an alarm out of the store. -/
theorem Reached.count_mono {memory : Nat → Option UInt8} {s : System} (h : Reached memory s)
    (action : Action) : s.vars.alarmCount ≤ (act memory s action).1.vars.alarmCount := by
  obtain ⟨history, hboot | hstocked⟩ := h.store
  · rcases act_other memory s action with ⟨keyScan, rfl⟩ | hframe
    · rw [act, main_step_vars, hboot.start]
      exact (StaticVars.modify_alarm_count _ _ _).ge
    · exact hframe.alarmCount.ge
  · exact (hstocked.act memory action).1.count_le

/-- A step outside `alarm_task` leaves it where it is. -/
theorem act_alarm_stays (memory : Nat → Option UInt8) (s : System) {action : Action}
    (h : action.moves .alarm = false) : (act memory s action).1.alarm = s.alarm := by
  cases action with
  | main keyScan => exact (main_step_frame keyScan s).alarm
  | echo available => exact (echo_step_frame memory available s).alarm
  | alarm keyScan => simp [Action.moves, Action.task] at h
  | arrive bytes | tick now => rfl

/-- CANCEL was polled in the ringing screen, and the snooze is still to come. -/
def MainPc.snoozes : MainPc → Bool
  | .ringRaise _ key | .ringIndex _ key | .ringFlag _ key | .ringWait _ key => key = .cancel
  | .snoozeFind _ => true
  | _ => false

/-- The main task is going to snooze, and no stored alarm lies in the past. -/
def Trapped (s : System) : Prop :=
  s.main.snoozes = true ∧ ∀ alarm ∈ s.vars.stored, s.clock ≤ alarm.alarmTimestamp

/-- In such a state `find_nearest_alarm` finds nothing. -/
theorem Trapped.nothing_found {s : System} (h : Trapped s) :
    findNearestAlarm s.vars s.clock = none := by
  by_contra hfound
  obtain ⟨alarm, hmem, hpast⟩ := find_nearest_alarm_is_some.mp hfound
  have hahead := h.2 alarm hmem
  omega

/-- A step of the main task does not lead out of such a state. -/
theorem Trapped.main {s : System} (h : Trapped s) (keyScan : Nat) :
    Trapped (mainStep keyScan s).1 := by
  have hnothing := h.nothing_found
  obtain ⟨hsnoozes, hahead⟩ := h
  cases hpc : s.main <;> rw [hpc] at hsnoozes <;> simp only [mainStep, hpc]
  case snoozeFind =>
    rw [hnothing]
    exact ⟨by simp [System.halt, hpc, MainPc.snoozes], hahead⟩
  case ringRaise | ringIndex | ringFlag => exact ⟨hsnoozes, hahead⟩
  case ringWait cause key =>
    obtain rfl : key = .cancel := of_decide_eq_true hsnoozes
    exact ⟨rfl, hahead⟩
  all_goals cases hsnoozes

/-- While CONFIRM is pressed a step of the main task does not lead into such a state. -/
theorem trapped_of_main_step {s : System} {keyScan : Nat}
    (hkey : buttonKeyCheck keyScan = .confirm) (h : Trapped (mainStep keyScan s).1) :
    Trapped s := by
  obtain ⟨hsnoozes, hahead⟩ := h
  cases hpc : s.main <;> simp only [mainStep, hpc, hkey] at hsnoozes hahead
  case ringRaise | ringIndex | ringFlag => exact ⟨by rw [hpc]; exact hsnoozes, hahead⟩
  case ringWait cause key =>
    split at hsnoozes
    · cases cause <;> cases hsnoozes
    · next hother =>
      split at hsnoozes
      · next hcancel =>
        rw [if_neg hother, if_pos hcancel] at hahead
        exact ⟨by rw [hpc]; exact decide_eq_true hcancel, hahead⟩
      · cases hsnoozes
  case snoozeFind cause =>
    split at hsnoozes
    · next hnothing =>
      rw [hnothing] at hahead
      exact ⟨by rw [hpc]; rfl, hahead⟩
    · cases hsnoozes
  case checkAlarm =>
    split at hsnoozes
    · split at hsnoozes
      · simp [System.halt, hpc, MainPc.snoozes] at hsnoozes
      · split at hsnoozes <;> cases hsnoozes
    · cases hsnoozes
  case snoozeDelay cause => cases cause <;> cases hsnoozes
  case commitTime =>
    simp only [System.gotoMain] at hsnoozes
    split at hsnoozes <;> cases hsnoozes
  all_goals cases hsnoozes

/-- The main task stops the device only where it faults. -/
theorem main_step_halts {keyScan : Nat} {s : System}
    (h : (mainStep keyScan s).1.halted = true) :
    s.halted = true ∨ .fault .main ∈ (mainStep keyScan s).2 := by
  cases hpc : s.main <;> simp only [mainStep, hpc] at h ⊢
  case checkAlarm =>
    split
    · next hi =>
      rw [if_pos hi] at h
      split
      · exact .inr (by simp)
      · next alarm hget =>
        refine .inl ?_
        rw [hget] at h
        simp only at h
        split at h <;> exact h
    · next hi =>
      rw [if_neg hi] at h
      exact .inl h
  case snoozeFind =>
    split
    · exact .inr (by simp)
    · next i hfound =>
      rw [hfound] at h
      exact .inl h
  case ringWait =>
    refine .inl ?_
    split at h
    · exact h
    · split at h <;> exact h
  all_goals exact .inl h

/-- From a state in which the main task is not trapped it comes back to the key poll alone. -/
theorem main_comes_back {memory : Nat → Option UInt8} {s : System} (hreached : Reached memory s)
    (hrunning : s.halted = false) (hfree : ¬ Trapped s) :
    ∃ trace next, Run memory (onlyTask .main) s trace next ∧ next.main = .poll ∧
      next.halted = false := by
  generalize hrank : s.main.untilPoll = rank
  induction rank using Nat.strong_induction_on generalizing s with
  | _ rank ih =>
      by_cases hpoll : s.main = .poll
      · exact ⟨[], s, .refl _, hpoll, hrunning⟩
      have hkey : buttonKeyCheck 11 = .confirm := by decide
      have hnofault : .fault .main ∉ (mainStep 11 s).2 := by
        obtain ⟨history, hstore⟩ := hreached.store
        rw [main_step_fault_iff 11 hstore, not_not]
        intro cause hpc
        by_contra hnothing
        refine hfree ⟨by rw [hpc]; rfl, fun alarm hmem => ?_⟩
        by_contra hpast
        exact hnothing ⟨alarm, hmem, by omega⟩
      have hgoes : (mainStep 11 s).1.halted = false := by
        by_contra hhalted
        rcases main_step_halts (Bool.eq_true_of_not_eq_false hhalted) with hwas | hfault
        · rw [hrunning] at hwas
          cases hwas
        · exact hnofault hfault
      have hcloser : (mainStep 11 s).1.main.untilPoll < rank := by
        rw [← hrank]
        refine (main_step_returns hkey hreached.count_le hpoll).resolve_left fun hstops => ?_
        rw [hgoes] at hstops
        cases hstops.1
      obtain ⟨trace, next, hrun, hback⟩ := ih _ hcloser (hreached.after (.main 11) hrunning) hgoes
        (fun htrapped => hfree (trapped_of_main_step hkey htrapped)) rfl
      exact ⟨_, next, (run_act memory (.main 11) rfl hrunning).trans hrun, hback⟩

/-- From a state that the firmware reaches the main task alone can come back to the key poll of the
clock, without a fault, unless CANCEL was polled in the ringing screen, the snooze is still to come
and no stored alarm lies in the past. -/
theorem main_comes_back_iff {memory : Nat → Option UInt8} {clock : Int} {data dataDest : Buffer}
    {past : List Event} {s : System} (hpast : Run memory anyOrder (boot clock data dataDest) past s)
    (hrunning : s.halted = false) :
    (∃ trace next, Run memory (onlyTask .main) s trace next ∧ next.main = .poll ∧
      next.halted = false) ↔ ¬ Trapped s := by
  refine ⟨?_, main_comes_back ⟨clock, data, dataDest, past, hpast⟩ hrunning⟩
  rintro ⟨trace, next, hrun, hpoll, -⟩ htrapped
  have hstill : Trapped next := by
    refine hrun.invariant (fun state _ => Trapped state) htrapped ?_
    intro events state emitted after _ hinv hstep
    obtain ⟨action, htask, -, rfl, rfl⟩ := step_of_iff.mp hstep
    cases action with
    | main keyScan => exact hinv.main keyScan
    | echo | alarm => cases htask
    | arrive | tick => exact htask.elim
  have hsnoozes := hstill.1
  rw [hpoll] at hsnoozes
  cases hsnoozes

/-- After CANCEL in the ringing screen with a clock that was never set. -/
theorem main_comes_back_iff_unset :
    ∃ s, s.main = .ringRaise none .cancel ∧
      ((∃ trace next, Run (fun _ => none) (onlyTask .main) s trace next ∧ next.main = .poll ∧
        next.halted = false) ↔ ¬ Trapped s) := by
  obtain ⟨trace, s, hrun, hstate⟩ := execute_observe
    (fun result : System × List Event =>
      decide (result.1.main = .ringRaise none .cancel ∧ result.1.halted = false))
    (show (execute (step fun _ => none) anyOrder
      [.main 0, .main 0, .main 0, .main 2, .main 0, .main 14] (boot 0 .zero .zero)).map
        (fun result => decide (result.1.main = .ringRaise none .cancel ∧
          result.1.halted = false)) = some true by decide +kernel)
  obtain ⟨hpc, hrunning⟩ := of_decide_eq_true hstate
  exact ⟨s, hpc, main_comes_back_iff hrun hrunning⟩

end SaiyuanClock
