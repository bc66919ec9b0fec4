import SaiyuanClock.CommandSlot
import SaiyuanClock.Frames

/-!
# The alarm command

Only `activity_alarm_ringing` posts the alarm command: it does so in every round of its loop,
before it looks at the key that it has read. `one_alarm_after_ringing` says what `echo_task` still
transmits when the screen has returned.
-/

namespace SaiyuanClock

open LabelledSteps Mailbox

/-- The main task is outside `activity_alarm_ringing` and not about to post the alarm command. -/
def MainPc.quiet : MainPc → Bool
  | .postIndex command => command ≠ .alarm
  | .ringDelay _ | .ringPoll _ | .ringRaise _ _ | .ringIndex _ _ | .ringFlag _ _ | .ringWait _ _
  | .snoozeFind _ | .snoozeWrite _ _ | .snoozeDelay _ | .ringAgain _ => false
  | _ => true

/-- Outside the ringing screen the main task posts no alarm command. -/
theorem main_step_quiet_posts {keyScan : Nat} {s : System} (h : s.main.quiet = true) :
    .posted .alarm ∉ (mainStep keyScan s).2 := by
  intro hmem
  have hemits := main_step_emits keyScan s _ hmem
  unfold MainPc.emits at hemits
  split at hemits <;> simp_all [MainPc.quiet]

/-- From outside the ringing screen the main task enters it at its first delay, if at all. -/
theorem quiet_next {pc next : MainPc} (h : pc.quiet = true) (hnext : MainPc.Next next pc) :
    next.quiet = true ∨ ∃ cause, next = .ringDelay cause := by
  cases pc <;> simp only [MainPc.Next] at hnext <;> grind [MainPc.quiet]

/-- The main task enters the ringing screen with an event. -/
theorem ringing_of_ring_delay {keyScan : Nat} {s : System} {cause : Option Nat}
    (h : (mainStep keyScan s).1.main = .ringDelay cause) :
    .ringing .main cause ∈ (mainStep keyScan s).2 := by
  have hnext := main_step_next keyScan s
  rw [h] at hnext
  cases hpc : s.main <;> rw [hpc] at hnext <;> simp [MainPc.Next] at hnext
  case poll =>
    -- the alarm key
    subst hnext
    simp only [mainStep, hpc] at h ⊢
    cases hkey : buttonKeyCheck keyScan <;> simp_all [System.gotoMain, dispatch]
  case checkAlarm i alarmCount =>
    -- an alarm that is due
    subst hnext
    simp only [mainStep, hpc] at h ⊢
    split at h
    · split at h
      · simp [System.halt, hpc] at h
      · split at h
        · simp_all
        · simp [System.gotoMain] at h
    · simp [System.gotoMain] at h

/-- A step that does not enter the ringing screen keeps the main task outside it. -/
theorem main_step_quiet {keyScan : Nat} {s : System} (h : s.main.quiet = true)
    (hsilent : ∀ cause, .ringing .main cause ∉ (mainStep keyScan s).2) :
    (mainStep keyScan s).1.main.quiet = true := by
  rcases quiet_next h (main_step_next keyScan s) with hquiet | ⟨cause, hdelay⟩
  · exact hquiet
  · exact absurd (ringing_of_ring_delay hdelay) (hsilent cause)

/-- A step that does not enter the ringing screen keeps the main task outside it, and posts no alarm
command. -/
theorem act_quiet {memory : Nat → Option UInt8} {s : System} {action : Action}
    (h : s.main.quiet = true) (hsilent : ∀ cause, .ringing .main cause ∉ (act memory s action).2) :
    (act memory s action).1.main.quiet = true ∧ .posted .alarm ∉ (act memory s action).2 := by
  by_cases hmain : ∃ keyScan, action = .main keyScan
  · obtain ⟨keyScan, rfl⟩ := hmain
    exact ⟨main_step_quiet h hsilent, main_step_quiet_posts h⟩
  · have hframe := (act_other memory s action).resolve_left hmain
    exact ⟨(congrArg MainPc.quiet hframe.main).trans h, fun hmem => hmain (main_of_mem rfl hmem)⟩

/-- The main loop does not post the alarm command. -/
theorem next_not_post_alarm {pc next : MainPc} (hnext : MainPc.Next next pc) :
    next ≠ .postIndex .alarm := by
  cases pc <;> simp only [MainPc.Next] at hnext <;> grind

/-- A run does not bring the main task to a post of the alarm command by the main loop. -/
theorem run_not_post_alarm {memory : Nat → Option UInt8} {allowed : System → Action → Prop}
    {start s : System} {trace : List Event} (h : start.main ≠ .postIndex .alarm)
    (hrun : Run memory allowed start trace s) : s.main ≠ .postIndex .alarm := by
  refine hrun.invariant (fun state _ => state.main ≠ .postIndex .alarm) h ?_
  intro _ state emitted following _ hinv hstep
  obtain ⟨action, -, -, rfl, -⟩ := step_of_iff.mp hstep
  rcases act_other memory state action with ⟨keyScan, rfl⟩ | hframe
  · exact next_not_post_alarm (main_step_next keyScan state)
  · rw [hframe.main]
    exact hinv

/-! ## After the ringing screen -/

/-- The alarm command is posted in the slot only when the firmware posts it. -/
theorem posted_alarm_of_slot {trace : List Event}
    (h : .post Command.alarm.code ∈ slotEvents trace) : .posted .alarm ∈ trace := by
  obtain ⟨event, hmem, hevent⟩ := List.mem_filterMap.mp h
  cases event with
  | posted command =>
      cases command
      case alarm => exact hmem
      all_goals simp [slotEvent, Command.code] at hevent
  | sent message => cases message <;> simp [slotEvent, Message.command] at hevent
  | _ => simp [slotEvent] at hevent

/-- The alarm messages of a trace are the sends of the alarm command in the slot. -/
theorem count_sent_alarm (trace : List Event) :
    (slotEvents trace).count (.send Command.alarm.code) = trace.count (.sent .alarm) := by
  induction trace with
  | nil => rfl
  | cons event trace ih =>
      have hsplit : slotEvents (event :: trace) = slotEvents [event] ++ slotEvents trace :=
        List.filterMap_append (l := [event])
      rw [hsplit, List.count_append, ih, List.count_cons, Nat.add_comm]
      congr 1
      cases event with
      | sent message => cases message <;> rfl
      | _ => rfl

/-- A step outside the ringing screen that does not enter it is a quiet step of the mailbox, or does
not concern it. -/
theorem act_quiet_slot {memory : Nat → Option UInt8} {s : System} {action : Action}
    (h : s.main.quiet = true) (hsilent : ∀ cause, .ringing .main cause ∉ (act memory s action).2) :
    QuietStep codes sleeps Command.alarm.code (slotView s) (slotEvents (act memory s action).2)
        (slotView (act memory s action).1) ∨
      slotView (act memory s action).1 = slotView s ∧
        slotEvents (act memory s action).2 = [] := by
  obtain ⟨hquiet, hposts⟩ := act_quiet h hsilent
  have hpost : .post Command.alarm.code ∉ slotEvents (act memory s action).2 := fun hmem =>
    hposts (posted_alarm_of_slot hmem)
  have hraised : (slotView (act memory s action).1).producer ≠ .raised := by
    show (act memory s action).1.main.producer ≠ .raised
    cases hpc : (act memory s action).1.main <;> rw [hpc] at hquiet <;>
      simp_all [MainPc.quiet, MainPc.producer]
  cases action with
  | main keyScan =>
      exact (main_step_slot keyScan s).imp_left fun hstep => ⟨.inl hstep.2, hpost, hraised⟩
  | echo available =>
      exact (echo_step_slot memory available s).imp_left fun hstep =>
        ⟨.inr hstep, hpost, hraised⟩
  | alarm keyScan => exact .inr (alarm_step_slot keyScan s)
  | arrive bytes | tick now => exact .inr ⟨rfl, rfl⟩

/-- A run from outside the ringing screen that does not enter it is a quiet run of the mailbox. -/
theorem quiet_run {memory : Nat → Option UInt8} {start s : System} {trace : List Event}
    (h : start.main.quiet = true) (hrun : Run memory anyOrder start trace s)
    (hsilent : ∀ cause, .ringing .main cause ∉ trace) :
    s.main.quiet = true ∧
      Steps (QuietStep codes sleeps Command.alarm.code) (slotView start) (slotEvents trace)
        (slotView s) := by
  have hinv := hrun.invariant (fun state events => (∀ cause, .ringing .main cause ∉ events) →
    state.main.quiet = true ∧
      Steps (QuietStep codes sleeps Command.alarm.code) (slotView start) (slotEvents events)
        (slotView state)) (fun _ => ⟨h, .refl _⟩) ?_
  · exact hinv hsilent
  · intro events state emitted following _ hinv hstep hsilent
    obtain ⟨hquiet, hsteps⟩ := hinv fun cause hmem => hsilent cause (List.mem_append_left _ hmem)
    obtain ⟨action, -, -, rfl, rfl⟩ := step_of_iff.mp hstep
    have hemitted : ∀ cause, .ringing .main cause ∉ (act memory state action).2 :=
      fun cause hmem => hsilent cause (List.mem_append_right _ hmem)
    refine ⟨(act_quiet hquiet hemitted).1, ?_⟩
    rw [slotEvents, List.filterMap_append]
    rcases act_quiet_slot hquiet hemitted with hquietStep | ⟨hsame, hnone⟩
    · exact hsteps.snoc hquietStep
    · rw [hsame, show (act memory state action).2.filterMap slotEvent = [] from hnone,
        List.append_nil]
      exact hsteps

/-- The return from the ringing screen is the last event of its step, and leads outside the
screen. -/
theorem main_step_silenced (keyScan : Nat) {s : System} {cause : Option Nat}
    {front back : List Event}
    (h : (mainStep keyScan s).2 = front ++ .silenced .main cause :: back) :
    back = [] ∧ (mainStep keyScan s).1.main = afterRinging cause := by
  have hlast : ∀ first : List Event, .silenced .main cause ∉ first →
      first ++ [.silenced .main cause] = front ++ .silenced .main cause :: back → back = [] := by
    intro first hnot heq
    rcases append_cons_cases heq.symm with ⟨middle, rfl, -⟩ | ⟨middle, -, hmiddle⟩
    · simp at hnot
    · cases middle with
      | nil => simpa using hmiddle.symm
      | cons event middle => simp at hmiddle
  have hemits := main_step_emits keyScan s (.silenced .main cause) (by simp [h])
  cases hpc : s.main <;> rw [hpc] at hemits <;> simp [MainPc.emits] at hemits
  case ringWait ended key =>
    subst hemits
    simp only [mainStep, hpc] at h ⊢
    split at h
    · next hconfirm =>
      rw [if_pos hconfirm]
      exact ⟨hlast _ (by simp) h, rfl⟩
    · split at h <;> simp at h
  case snoozeDelay ended =>
    subst hemits
    simp only [mainStep, hpc] at h ⊢
    exact ⟨hlast [] (by simp) h, rfl⟩

/-- A return from the ringing screen in a run: the state in which the main task has returned. -/
theorem returned_from_ringing {memory : Nat → Option UInt8} {start s : System}
    {before after : List Event} {cause : Option Nat}
    (hrun : Run memory anyOrder start (before ++ .silenced .main cause :: after) s) :
    ∃ ended, Run memory anyOrder start (before ++ [.silenced .main cause]) ended ∧
      ended.main = afterRinging cause ∧ Run memory anyOrder ended after s := by
  obtain ⟨past, state, front, back, ended, future, hpast, hreturn, hfuture, rfl, rfl⟩ := hrun.split
  have hstep := hreturn
  obtain ⟨action, -, -, hended, hemitted⟩ := step_of_iff.mp hstep
  have hmem : .silenced .main cause ∈ (act memory state action).2 := by simp [hemitted]
  obtain ⟨keyScan, rfl⟩ := main_of_mem rfl hmem
  obtain ⟨rfl, hmain⟩ := main_step_silenced keyScan hemitted
  refine ⟨ended, ?_, hended ▸ hmain, hfuture⟩
  rw [List.append_assoc]
  exact hpast.snoc hreturn

/-- After `activity_alarm_ringing` has returned and until it is entered again, `echo_task` transmits
at most one "alarm" message, in every order of the single accesses, and none unless the alarm
command was still to be sent at the return. -/
theorem one_alarm_after_ringing {memory : Nat → Option UInt8} {start s : System}
    {before after : List Event} {cause : Option Nat}
    (hrun : Run memory anyOrder start (before ++ .silenced .main cause :: after) s)
    (hsilent : ∀ other, .ringing .main other ∉ after) :
    ∃ ended, Run memory anyOrder start (before ++ [.silenced .main cause]) ended ∧
      Run memory anyOrder ended after s ∧
      after.count (.sent .alarm) ≤
        if (slotView ended).Outstanding Command.alarm.code then 1 else 0 := by
  obtain ⟨ended, hended, hmain, hafter⟩ := returned_from_ringing hrun
  refine ⟨ended, hended, hafter, ?_⟩
  have hquiet : ended.main.quiet = true := by
    rw [hmain]
    cases cause <;> rfl
  have hidle : (slotView ended).producer = .idle := by
    show ended.main.producer = .idle
    rw [hmain, after_ringing_producer]
  obtain ⟨-, hsteps⟩ := quiet_run hquiet hafter hsilent
  rw [← count_sent_alarm]
  exact sends_le_outstanding hidle hsteps

/-- The user opens the ringing screen with the alarm key and presses CONFIRM at its first poll.
Only then does `echo_task` come to its send section, and it transmits the alarm command. -/
theorem confirm_before_send_section :
    ∃ s, Run (fun _ => none) anyOrder (boot 1000 .zero .zero)
      ([.committed 0 0, .entered, .polled .clock .alarmActivity, .ringing .main none,
        .polled .ringing .confirm, .posted .alarm] ++ .silenced .main none ::
          [.readBytes [], .sent .alarm]) s :=
  execute_trace
    (show (execute (step fun _ => none) anyOrder
      (List.replicate 3 (.main 0) ++ [.main 2, .main 0, .main 11] ++ List.replicate 4 (.main 0) ++
        List.replicate 4 (.echo 0)) (boot 1000 .zero .zero)).map Prod.snd =
      some ([.committed 0 0, .entered, .polled .clock .alarmActivity, .ringing .main none,
        .polled .ringing .confirm, .posted .alarm] ++ .silenced .main none ::
          [.readBytes [], .sent .alarm]) by decide)

/-- An alarm message is transmitted after the user has dismissed the alarm. -/
theorem alarm_sent_after_confirm :
    ∃ before after s, Run (fun _ => none) anyOrder (boot 1000 .zero .zero)
        (before ++ .silenced .main none :: after) s ∧
      (∀ other, .ringing .main other ∉ after) ∧ .sent .alarm ∈ after := by
  obtain ⟨s, hrun⟩ := confirm_before_send_section
  exact ⟨_, _, s, hrun, by simp, by simp⟩

/-- It is the one alarm message that was still to be sent. -/
theorem one_alarm_after_ringing_confirm :
    ∃ before after s ended, Run (fun _ => none) anyOrder (boot 1000 .zero .zero)
        (before ++ .silenced .main none :: after) s ∧
      Run (fun _ => none) anyOrder (boot 1000 .zero .zero) (before ++ [.silenced .main none])
        ended ∧
      after.count (.sent .alarm) = 1 ∧ after.count (.sent .alarm) ≤
        if (slotView ended).Outstanding Command.alarm.code then 1 else 0 := by
  obtain ⟨s, hrun⟩ := confirm_before_send_section
  obtain ⟨ended, hended, -, hbound⟩ := one_alarm_after_ringing hrun (by simp)
  exact ⟨_, _, s, ended, hrun, hended, by simp, hbound⟩

end SaiyuanClock
