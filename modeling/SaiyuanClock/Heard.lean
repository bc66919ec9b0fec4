import SaiyuanClock.Returning

/-!
# Ringing is heard

The command slot loses commands, and one alarm command may well be lost between the two writes of
its post and the reset of `isCommand`. But the ringing screen posts the command in every round of
its loop. While no key ends the screen and no data-sync frame is posted, at least one alarm message
is on the UART when the main task and `echo_task` have each made a few steps four times, whatever
the order of the steps is.
-/

namespace SaiyuanClock

open LabelledSteps

/-- The key does not end the ringing screen. -/
def ButtonKey.keepsRinging (key : ButtonKey) : Bool := key ≠ .confirm && key ≠ .cancel

/-- The main task is in the loop of the ringing screen and goes on with it. -/
def MainPc.rings : MainPc → Bool
  | .ringDelay _ | .ringPoll _ | .ringAgain _ => true
  | .ringRaise _ key | .ringIndex _ key | .ringFlag _ key | .ringWait _ key => key.keepsRinging
  | _ => false

/-- `echo_task` is about to post a data-sync frame. -/
def EchoPc.posts : EchoPc → Bool
  | .replyIndex _ => true
  | _ => false

/-- No key ends the ringing, and no data-sync frame is posted. -/
def undisturbed (s : System) : Action → Prop
  | .main keyScan => (buttonKeyCheck keyScan).keepsRinging = true
  | .echo _ => s.echo.posts = false
  | .alarm _ | .arrive _ | .tick _ => True

/-- Whether the ringing is undisturbed is decidable. -/
instance (s : System) : ∀ action, Decidable (undisturbed s action)
  | .main keyScan => inferInstanceAs (Decidable ((buttonKeyCheck keyScan).keepsRinging = true))
  | .echo _ => inferInstanceAs (Decidable (s.echo.posts = false))
  | .alarm _ | .arrive _ | .tick _ => inferInstanceAs (Decidable True)

/-- `echo_task` compares `command_last_index` with the alarm command before it resets the flag. -/
def EchoPc.fresh : EchoPc → Bool
  | .sendSection _ comparisons => .alarm ∈ comparisons
  | .dataSyncDelay _ => false
  | _ => true

section

variable {memory : Nat → Option UInt8} {s : System} {action : Action}

/-! ## What an undisturbed step keeps -/

/-- The main task stays in the loop of the ringing screen. -/
theorem rings_act (h : s.main.rings = true) (hallowed : undisturbed s action) :
    (act memory s action).1.main.rings = true := by
  cases action with
  | main keyScan =>
      cases hpc : s.main <;> rw [hpc] at h <;> simp only [act, mainStep, hpc]
      case ringPoll => exact hallowed
      case ringRaise | ringIndex | ringFlag => exact h
      case ringWait cause key =>
        simp only [MainPc.rings, ButtonKey.keepsRinging, Bool.and_eq_true, decide_eq_true_eq] at h
        rw [if_neg h.1, if_neg h.2]
        rfl
      case ringDelay | ringAgain => rfl
      all_goals cases h
  | echo | alarm | arrive | tick =>
      rw [act_main_stays memory s rfl]
      exact h

/-- The alarm command stays in the slot. -/
theorem index_act (hrings : s.main.rings = true) (hallowed : undisturbed s action)
    (h : s.vars.commandLastIndex = Command.alarm.code) :
    (act memory s action).1.vars.commandLastIndex = Command.alarm.code := by
  cases action with
  | main keyScan =>
      rw [act, main_step_vars]
      cases hpc : s.main <;> rw [hpc] at hrings
      case ringIndex => rfl
      case ringRaise | ringFlag | ringPoll | ringWait | ringDelay | ringAgain => exact h
      all_goals cases hrings
  | echo available =>
      have hindex := congrArg Prod.snd (echo_step_writes memory available s)
      rw [act]
      cases hpc : s.echo <;> rw [hpc] at hindex
      case sendSection len comparisons => cases comparisons <;> exact hindex.trans h
      case replyIndex =>
        rw [undisturbed, hpc] at hallowed
        cases hallowed
      all_goals exact hindex.trans h
  | alarm keyScan =>
      rw [act, (alarm_step_frame keyScan s).vars]
      exact h
  | arrive | tick => exact h

/-- A comparison with the alarm command in the slot transmits it or goes on to the next. -/
theorem echo_step_compares (available : Nat) {len : Nat} {command : Command}
    {comparisons : List Command} (hpc : s.echo = .sendSection len (command :: comparisons))
    (hindex : s.vars.commandLastIndex = Command.alarm.code) :
    command = .alarm ∧ .sent .alarm ∈ (echoStep memory available s).2 ∨
      command ≠ .alarm ∧ (echoStep memory available s).1.echo = .sendSection len comparisons := by
  simp only [echoStep, hpc, hindex]
  by_cases halarm : command = .alarm
  · subst halarm
    exact .inl ⟨rfl, by simp [Command.message]⟩
  · have hother : Command.alarm.code ≠ command.code := by
      cases command
      case alarm => exact absurd rfl halarm
      all_goals decide
    rw [if_neg hother]
    exact .inr ⟨halarm, rfl⟩

/-- With the alarm command in the slot `echo_task` transmits it before it is past the comparison. -/
theorem fresh_act (hindex : s.vars.commandLastIndex = Command.alarm.code)
    (h : s.echo.fresh = true) :
    .sent .alarm ∈ (act memory s action).2 ∨ (act memory s action).1.echo.fresh = true := by
  cases action with
  | echo available =>
      rcases echo_step_next memory available s with ⟨hstop, -⟩ | hgo
      · refine .inr ?_
        rw [act, hstop]
        exact h
      rw [act]
      cases hpc : s.echo <;> rw [hpc] at hgo h
      case sendSection len comparisons =>
        cases comparisons with
        | nil => cases h
        | cons command comparisons =>
            rcases echo_step_compares available hpc hindex with ⟨-, hsent⟩ | ⟨hother, hnext⟩
            · exact .inl hsent
            · refine .inr ?_
              rw [hnext]
              have hmem := List.mem_cons.mp (of_decide_eq_true h)
              exact decide_eq_true (hmem.resolve_left (Ne.symm hother))
      case dataSyncDelay => cases h
      case testFlag =>
        refine .inr ?_
        rw [hgo]
        split <;> rfl
      case readBytes =>
        obtain ⟨len, hnext⟩ := hgo
        rw [hnext]
        exact .inr rfl
      case handle =>
        rcases hgo with hnext | hnext
        · rw [hnext]
          exact .inr rfl
        · rw [hnext]
          exact .inr rfl
      case transfer =>
        rcases hgo with ⟨-, longer, hnext⟩ | hnext
        · rw [hnext]
          exact .inr rfl
        · rw [hnext]
          exact .inr rfl
      all_goals
        rw [hgo]
        exact .inr rfl
  | main | alarm | arrive | tick =>
      rw [act_echo_stays memory s rfl]
      exact .inr h

/-- `echo_task` resets the flag only when it is past the comparison. -/
theorem flag_act (h : s.echo.fresh = true) (hflag : s.vars.isCommand = true) :
    (act memory s action).1.vars.isCommand = true := by
  refine (flag_until_reset memory action hflag).resolve_left fun hreset => ?_
  obtain ⟨-, hresets⟩ := resets_of_reset hreset
  cases hpc : s.echo <;> rw [hpc] at h hresets
  case sendSection len comparisons =>
    cases comparisons with
    | nil => cases h
    | cons command comparisons => cases hresets
  all_goals cases hresets

/-! ## The four rounds -/

/-- An action can only be executed while the device runs. -/
theorem running_of_execute {allowed : System → Action → Prop}
    [∀ state action, Decidable (allowed state action)] {actions : List Action} {final : System}
    {trace : List Event} (hne : actions ≠ [])
    (hrun : execute (step memory) allowed actions s = some (final, trace)) : s.halted = false := by
  cases actions with
  | nil => exact absurd rfl hne
  | cons action actions =>
      obtain ⟨-, next, emitted, rest, hnext, -⟩ := execute_cons hrun
      exact (step_eq_some_iff.mp hnext).1

/-- A part of a run with as many actions of the task as the rank, followed by another part, sends
the alarm message or leads to a state of rank zero. -/
theorem settled_of_execute {task : Task} {inv : System → Prop} {rank : System → Nat}
    (h : Ranked (step memory) undisturbed inv (Action.moves task) (· = .sent .alarm)
      (running 0 rank)) (hinv : inv s) {actions more : List Action} {next final : System}
    {trace after : List Event}
    (hrun : execute (step memory) undisturbed actions s = some (next, trace))
    (hlong : rank s ≤ actions.countP (Action.moves task)) (hne : more ≠ [])
    (hmore : execute (step memory) undisturbed more next = some (final, after)) :
    .sent .alarm ∈ trace ∨ inv next ∧ rank next = 0 := by
  rcases h.settles hinv hrun with ⟨event, hmem, rfl⟩ | ⟨hnext, hrank⟩
  · exact .inl hmem
  have hstart : running 0 rank s ≤ rank s := running_le (Nat.zero_le _) le_rfl
  rw [running, running_of_execute hne hmore] at hrank
  simp only [Bool.false_eq_true, if_false] at hrank
  exact .inr ⟨hnext, by omega⟩

/-- How many steps the ringing screen takes until the alarm command is in the slot. -/
def MainPc.untilIndex : MainPc → Nat
  | .ringIndex _ _ => 1
  | .ringRaise _ _ => 2
  | .ringPoll _ => 3
  | .ringDelay _ | .ringAgain _ => 4
  | .ringWait _ _ => 5
  | .ringFlag _ _ => 6
  | _ => 0

/-- How many steps the ringing screen takes until it raises the flag. -/
def MainPc.untilFlag : MainPc → Nat
  | .ringRaise _ _ | .ringFlag _ _ => 1
  | .ringIndex _ _ | .ringPoll _ => 2
  | .ringDelay _ | .ringAgain _ => 3
  | .ringWait _ _ => 4
  | _ => 0

/-- How many steps `echo_task` takes until it is before the comparison with the alarm command. -/
def EchoPc.untilFresh : EchoPc → Nat
  | .sendSection _ comparisons => if .alarm ∈ comparisons then 0 else comparisons.length + 1
  | .dataSyncDelay _ => 2
  | _ => 0

/-- How many steps `echo_task` takes until it is past the comparison with the alarm command, while
the flag is raised. -/
def EchoPc.untilCompared : EchoPc → Nat
  | .sendSection _ comparisons => comparisons.length + 1
  | .dataSyncDelay _ => 1
  | .testFlag _ => 7
  | .readBytes => 8
  | .delay => 9
  | .flush => 10
  | .replyCopy _ => 11
  | .replyIndex _ => 12
  | .replyFlag _ => 13
  | .transfer i alarmCount _ => alarmCount - i + 14
  | .handle _ => 23

/-- A step of the ringing screen puts the alarm command into the slot or comes closer to that. -/
theorem main_step_index {keyScan : Nat} (hrings : s.main.rings = true) :
    (mainStep keyScan s).1.vars.commandLastIndex = Command.alarm.code ∨
      (mainStep keyScan s).1.main.untilIndex ≤ s.main.untilIndex - 1 := by
  cases hpc : s.main <;> rw [hpc] at hrings <;> simp only [mainStep, hpc]
  case ringIndex => exact .inl rfl
  case ringDelay | ringAgain | ringPoll | ringRaise | ringFlag => exact .inr le_rfl
  case ringWait cause key =>
    simp only [MainPc.rings, ButtonKey.keepsRinging, Bool.and_eq_true, decide_eq_true_eq] at hrings
    rw [if_neg hrings.1, if_neg hrings.2]
    exact .inr le_rfl
  all_goals cases hrings

/-- A step of the ringing screen raises the flag or comes closer to that. -/
theorem main_step_flag {keyScan : Nat} (hrings : s.main.rings = true) :
    (mainStep keyScan s).1.vars.isCommand = true ∨
      (mainStep keyScan s).1.main.untilFlag ≤ s.main.untilFlag - 1 := by
  cases hpc : s.main <;> rw [hpc] at hrings <;> simp only [mainStep, hpc]
  case ringRaise | ringFlag => exact .inl rfl
  case ringDelay | ringAgain | ringPoll | ringIndex => exact .inr le_rfl
  case ringWait cause key =>
    simp only [MainPc.rings, ButtonKey.keepsRinging, Bool.and_eq_true, decide_eq_true_eq] at hrings
    rw [if_neg hrings.1, if_neg hrings.2]
    exact .inr le_rfl
  all_goals cases hrings

/-- With the alarm command in the slot a step of `echo_task` transmits it, stops the device or comes
closer to a place before the comparison. -/
theorem echo_step_fresh (available : Nat)
    (hindex : s.vars.commandLastIndex = Command.alarm.code) :
    .sent .alarm ∈ (echoStep memory available s).2 ∨
      (echoStep memory available s).1.echo.untilFresh ≤ s.echo.untilFresh - 1 := by
  have hfresh : ∀ pc : EchoPc, pc.fresh = true → pc.untilFresh = 0 := by
    intro pc hpc
    cases pc
    case sendSection len comparisons => exact if_pos (of_decide_eq_true hpc)
    case dataSyncDelay => cases hpc
    all_goals rfl
  by_cases hnow : s.echo.fresh = true
  · have hkept : .sent .alarm ∈ (act memory s (.echo available)).2 ∨
        (act memory s (.echo available)).1.echo.fresh = true := fresh_act hindex hnow
    exact hkept.imp_right fun hnext => (hfresh _ hnext).le.trans (Nat.zero_le _)
  cases hpc : s.echo <;> rw [hpc] at hnow
  case dataSyncDelay len =>
    refine .inr ?_
    simp [echoStep, hpc, System.gotoEcho, EchoPc.untilFresh]
  case sendSection len comparisons =>
    cases comparisons with
    | nil =>
        refine .inr ?_
        simp [echoStep, hpc, System.gotoEcho, EchoPc.untilFresh]
    | cons command comparisons =>
        refine (echo_step_compares available hpc hindex).imp (fun hsent => hsent.2) ?_
        rintro ⟨hother, hnext⟩
        have hlater : .alarm ∉ comparisons := fun hmem =>
          hnow (decide_eq_true (List.mem_cons_of_mem _ hmem))
        have hnever : .alarm ∉ command :: comparisons := fun hmem => hnow (decide_eq_true hmem)
        simp only [hnext, EchoPc.untilFresh, if_neg hlater, if_neg hnever, List.length_cons]
        omega
  all_goals exact absurd rfl hnow

/-- With the alarm command in the slot and the flag raised, a step of `echo_task` before the
comparison transmits it, stops the device or comes closer to the comparison. -/
theorem echo_step_compared (available : Nat) (hcount : s.vars.alarmCount ≤ 8)
    (hindex : s.vars.commandLastIndex = Command.alarm.code) (hfresh : s.echo.fresh = true)
    (hflag : s.vars.isCommand = true) :
    .sent .alarm ∈ (echoStep memory available s).2 ∨
      (echoStep memory available s).1.halted = true ∧ 1 ≤ s.echo.untilCompared - 1 ∨
        (echoStep memory available s).1.echo.untilCompared ≤ s.echo.untilCompared - 1 := by
  rcases echo_step_next memory available s with ⟨hstop, hpc⟩ | hgo
  · refine .inr (.inl ⟨by rw [hstop]; rfl, ?_⟩)
    rcases hpc with ⟨len, hpc⟩ | ⟨i, alarmCount, buffer, hpc⟩
    · simp [hpc, EchoPc.untilCompared]
    · simp [hpc, EchoPc.untilCompared]
  cases hpc : s.echo <;> rw [hpc] at hgo hfresh
  case sendSection len comparisons =>
    cases comparisons with
    | nil => cases hfresh
    | cons command comparisons =>
        refine (echo_step_compares available hpc hindex).imp (fun hsent => hsent.2) fun hnext => ?_
        rw [hnext.2]
        exact .inr le_rfl
  case dataSyncDelay => cases hfresh
  case testFlag =>
    rw [hgo, hflag]
    exact .inr (.inr le_rfl)
  case readBytes =>
    obtain ⟨len, hnext⟩ := hgo
    rw [hnext]
    exact .inr (.inr le_rfl)
  case handle =>
    refine .inr (.inr ?_)
    rcases hgo with hnext | hnext
    · simp [hnext, EchoPc.untilCompared]
    · rw [hnext]
      simp only [EchoPc.untilCompared]
      omega
  case transfer i alarmCount buffer =>
    refine .inr (.inr ?_)
    rcases hgo with ⟨hi, longer, hnext⟩ | hnext
    · rw [hnext]
      simp only [EchoPc.untilCompared]
      omega
    · rw [hnext]
      simp only [EchoPc.untilCompared]
      omega
  all_goals
    rw [hgo]
    exact .inr (.inr le_rfl)

/-- While the ringing is undisturbed the main task puts the alarm command into the slot. -/
theorem ranked_index : Ranked (step memory) undisturbed
    (fun s => Reached memory s ∧ s.main.rings = true) (Action.moves .main) (· = .sent .alarm)
    (running 0 fun s =>
      if s.vars.commandLastIndex = Command.alarm.code then 0 else s.main.untilIndex) := by
  refine ranked_of_steps (fun s => Nat.zero_le _) ?_ ?_ ?_
  · intro s action hinv hallowed hrunning
    exact .inr ⟨hinv.1.after action hrunning, rings_act hinv.2 hallowed⟩
  all_goals
    intro s action hinv hallowed hmoves
    by_cases hindex : s.vars.commandLastIndex = Command.alarm.code
  · rw [if_pos (index_act hinv.2 hallowed hindex)]
    exact .inr (.inr (Nat.zero_le _))
  · refine .inr (.inr ?_)
    rw [if_neg hindex]
    cases action with
    | main keyScan =>
        split
        · exact Nat.zero_le _
        · next hnext => exact (main_step_index hinv.2).resolve_left hnext
    | echo | alarm | arrive | tick => simp [Action.moves, Action.task] at hmoves
  · rw [if_pos (index_act hinv.2 hallowed hindex)]
    exact .inr (Nat.zero_le _)
  · refine .inr ?_
    rw [if_neg hindex, act_main_stays memory s hmoves]
    split
    · exact Nat.zero_le _
    · exact le_rfl

/-- The ringing screen is open and the alarm command is in the slot. -/
def Posted (memory : Nat → Option UInt8) (s : System) : Prop :=
  (Reached memory s ∧ s.main.rings = true) ∧ s.vars.commandLastIndex = Command.alarm.code

/-- Besides, `echo_task` is before the comparison with the alarm command. -/
def Awaited (memory : Nat → Option UInt8) (s : System) : Prop :=
  Posted memory s ∧ s.echo.fresh = true

/-- Besides, the flag is raised. -/
def Raised (memory : Nat → Option UInt8) (s : System) : Prop :=
  Awaited memory s ∧ s.vars.isCommand = true

/-- While the ringing is undisturbed the alarm command stays in the slot. -/
theorem Posted.after (h : Posted memory s) (hallowed : undisturbed s action)
    (hrunning : s.halted = false) : Posted memory (act memory s action).1 :=
  ⟨⟨h.1.1.after action hrunning, rings_act h.1.2 hallowed⟩, index_act h.1.2 hallowed h.2⟩

/-- While the ringing is undisturbed `echo_task` stays before the comparison or transmits the
command. -/
theorem Awaited.after (h : Awaited memory s) (hallowed : undisturbed s action)
    (hrunning : s.halted = false) :
    .sent .alarm ∈ (act memory s action).2 ∨ Awaited memory (act memory s action).1 :=
  (fresh_act h.1.2 h.2).imp_right fun hfresh => ⟨h.1.after hallowed hrunning, hfresh⟩

/-- While the ringing is undisturbed `echo_task` comes before the comparison. -/
theorem ranked_fresh : Ranked (step memory) undisturbed (Posted memory) (Action.moves .echo)
    (· = .sent .alarm) (running 0 fun s => s.echo.untilFresh) := by
  refine ranked_of_steps (fun s => Nat.zero_le _) ?_ ?_ ?_
  · exact fun s action hinv hallowed hrunning => .inr (hinv.after hallowed hrunning)
  · intro s action hinv hallowed hmoves
    cases action with
    | echo available =>
        exact (echo_step_fresh available hinv.2).imp (fun hsent => ⟨_, hsent, rfl⟩) .inr
    | main | alarm | arrive | tick => simp [Action.moves, Action.task] at hmoves
  · intro s action _ _ hmoves
    rw [act_echo_stays memory s hmoves]
    exact .inr le_rfl

/-- While the ringing is undisturbed and `echo_task` before the comparison, the main task raises the
flag. -/
theorem ranked_flag : Ranked (step memory) undisturbed (Awaited memory) (Action.moves .main)
    (· = .sent .alarm) (running 0 fun s => if s.vars.isCommand then 0 else s.main.untilFlag) := by
  refine ranked_of_steps (fun s => Nat.zero_le _) ?_ ?_ ?_
  · exact fun s action hinv hallowed hrunning =>
      (hinv.after hallowed hrunning).imp_left fun hsent => ⟨_, hsent, rfl⟩
  all_goals
    intro s action hinv hallowed hmoves
    by_cases hflag : s.vars.isCommand = true
  · rw [if_pos (flag_act hinv.2 hflag)]
    exact .inr (.inr (Nat.zero_le _))
  · refine .inr (.inr ?_)
    rw [if_neg hflag]
    cases action with
    | main keyScan =>
        split
        · exact Nat.zero_le _
        · next hnext => exact (main_step_flag hinv.1.1.2).resolve_left hnext
    | echo | alarm | arrive | tick => simp [Action.moves, Action.task] at hmoves
  · rw [if_pos (flag_act hinv.2 hflag)]
    exact .inr (Nat.zero_le _)
  · refine .inr ?_
    rw [if_neg hflag, act_main_stays memory s hmoves]
    split
    · exact Nat.zero_le _
    · exact le_rfl

/-- While the ringing is undisturbed and the flag raised, `echo_task` transmits the command. -/
theorem ranked_compared : Ranked (step memory) undisturbed (Raised memory) (Action.moves .echo)
    (· = .sent .alarm) (running 1 fun s => s.echo.untilCompared) := by
  have hpositive : ∀ s : System, 1 ≤ s.echo.untilCompared := by
    intro s
    cases s.echo <;> simp [EchoPc.untilCompared]
  refine ranked_of_steps hpositive ?_ ?_ ?_
  · intro s action hinv hallowed hrunning
    refine (hinv.1.after hallowed hrunning).imp (fun hsent => ⟨_, hsent, rfl⟩) fun hnext => ?_
    exact ⟨hnext, flag_act hinv.1.2 hinv.2⟩
  · intro s action hinv hallowed hmoves
    cases action with
    | echo available =>
        obtain ⟨⟨⟨⟨hreached, -⟩, hindex⟩, hfresh⟩, hflag⟩ := hinv
        exact (echo_step_compared available hreached.count_le hindex hfresh hflag).imp_left
          fun hsent => ⟨_, hsent, rfl⟩
    | main | alarm | arrive | tick => simp [Action.moves, Action.task] at hmoves
  · intro s action _ _ hmoves
    rw [act_echo_stays memory s hmoves]
    exact .inr le_rfl

/-- In the ringing screen the command is at most six steps from the slot, and the flag at most six
from being raised. -/
theorem until_index_bounds (h : s.main.rings = true) :
    (0 < s.main.untilIndex ∧ s.main.untilIndex ≤ 6) ∧
      0 < s.main.untilFlag ∧ s.main.untilFlag ≤ 6 := by
  cases hpc : s.main <;> rw [hpc] at h
  case ringDelay | ringAgain | ringPoll | ringRaise | ringIndex | ringFlag | ringWait =>
    simp [MainPc.untilIndex, MainPc.untilFlag]
  all_goals cases h

/-- In a state that the firmware reaches `echo_task` is at most 24 steps from the place before the
comparison and from the comparison. -/
theorem until_fresh_le (h : Reached memory s) :
    s.echo.untilFresh ≤ 24 ∧ s.echo.untilCompared ≤ 24 := by
  have hbound := h.bound_le .echo
  have hcount := h.count_le
  cases hpc : s.echo
  case sendSection len comparisons =>
    have hlength := h.comparisons_le hpc
    simp only [EchoPc.untilFresh, EchoPc.untilCompared]
    split <;> omega
  case transfer i alarmCount buffer =>
    simp only [readerBound, hpc, EchoPc.bound] at hbound
    simp only [EchoPc.untilFresh, EchoPc.untilCompared]
    omega
  all_goals simp [EchoPc.untilFresh, EchoPc.untilCompared]

/-- Where no step is needed to come before the comparison, `echo_task` is there. -/
theorem fresh_of_until {pc : EchoPc} (h : pc.untilFresh = 0) : pc.fresh = true := by
  cases pc
  case sendSection len comparisons =>
    refine decide_eq_true ?_
    by_contra hnever
    simp [EchoPc.untilFresh, if_neg hnever] at h
  case dataSyncDelay => cases h
  all_goals rfl

end

end SaiyuanClock
