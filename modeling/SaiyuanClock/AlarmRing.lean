import SaiyuanClock.Heard
import SaiyuanClock.Ringing

/-!
# Alarms that sound

`alarm_ring`, which `alarm_task` calls for an alarm that is due, waits for CONFIRM and posts
nothing: only `activity_alarm_ringing` puts the alarm command into the slot. `alarm_sounded_iff` says from
which states at the detection, and with which keys, clock readings and steps of the tasks, the slot
holds the command before `alarm_ring` returns.
-/

namespace SaiyuanClock

open LabelledSteps

/-! ## A call of `alarm_ring` -/

/-- `alarm_task` stays in `alarm_ring` for entry `i`. -/
def insideAlarmRing (i : Nat) (s : System) : Action → Prop
  | .alarm keyScan =>
      s.alarm = .ringDelay i ∨ s.alarm = .ringPoll i ∧ buttonKeyCheck keyScan ≠ .confirm
  | _ => True

/-- Whether a step stays in `alarm_ring` is decidable. -/
instance (i : Nat) (s : System) : ∀ action, Decidable (insideAlarmRing i s action)
  | .alarm _ => inferInstanceAs (Decidable (_ ∨ _))
  | .main _ | .echo _ | .arrive _ | .tick _ => inferInstanceAs (Decidable True)

/-- The program points of the ringing screen from which the main task comes to a write of
`command_last_index` before the screen ends. -/
def MainPc.comesToPost : MainPc → Bool
  | .ringDelay _ | .ringPoll _ | .ringRaise _ _ | .ringIndex _ _ | .ringAgain _ => true
  | .ringFlag _ key | .ringWait _ key => key.keepsRinging
  | _ => false

/-- The main task opens the ringing screen by its next step: it reads the alarm key at the poll of
the clock screen, or the entry that it checks is due. -/
def opensRinging (keyScan : Nat) (s : System) : Prop :=
  match s.main with
  | .poll => buttonKeyCheck keyScan = .alarmActivity
  | .checkAlarm j alarmCount =>
      j < alarmCount ∧ ∃ alarm, s.vars.alarms[j]? = some alarm ∧
        checkAlarm alarm.alarmTimestamp s.clock = true
  | _ => False

/-- A step of the main task, or the one by which `echo_task` sets `isCommand` for its reply. -/
def mayRaise (s : System) : Action → Prop
  | .main _ => True
  | .echo _ => ∃ buffer, s.echo = .replyFlag buffer
  | .alarm _ | .arrive _ | .tick _ => False

section

variable (memory : Nat → Option UInt8)

/-- A call of `alarm_ring` for entry `i`: `alarm_task` finds the alarm due by its step from `start`
to `detected`, `actions` lead on to `returning` while it stays in the call, and it returns by its
step from there. -/
structure AlarmRing (i : Nat) (start detected : System) (actions : List Action)
    (between : List Event) (returning : System) : Prop where
  detects : ∃ keyScan detection,
    step memory (.alarm keyScan) start = some (detected, detection) ∧
      .ringing .alarm (some i) ∈ detection
  waits : execute (step memory) (insideAlarmRing i) actions detected = some (returning, between)
  returns : ∃ keyScan returned leaving,
    step memory (.alarm keyScan) returning = some (returned, leaving) ∧
      .silenced .alarm (some i) ∈ leaving

/-- An alarm command is posted while `actions` are done from the detection on: the main task writes
its index, and in that state or a later one `command_last_index` is 2 with `isCommand` set. -/
def Sounded (i : Nat) (detected : System) (actions : List Action) : Prop :=
  ∃ done rest s trace, actions = done ++ rest ∧
    execute (step memory) (insideAlarmRing i) done detected = some (s, trace) ∧
    .posted .alarm ∈ trace ∧ s.vars.commandLastIndex = 2 ∧ s.vars.isCommand = true

/-- Among `actions` there are enough steps of the main task for the alarm command: as many as it
takes from where it is at the detection to its next write of `command_last_index` in the ringing
screen, or four after a step by which it opens that screen. -/
def RingsInTime (i : Nat) (detected : System) (actions : List Action) : Prop :=
  (detected.main.comesToPost = true ∧
    detected.main.untilIndex ≤ actions.countP (Action.moves .main)) ∨
  ∃ done keyScan rest s trace, actions = done ++ .main keyScan :: rest ∧
    execute (step memory) (insideAlarmRing i) done detected = some (s, trace) ∧
    opensRinging keyScan s ∧ 4 ≤ rest.countP (Action.moves .main)

/-- Among `actions` there are enough steps of the main task for the alarm command, and the flag goes
with it: after those steps the main task makes another one or `echo_task` sets the flag for its
reply, or the flag is set before the last of them. -/
def SoundsInTime (i : Nat) (detected : System) (actions : List Action) : Prop :=
  ∃ done action rest s trace, actions = done ++ action :: rest ∧
    execute (step memory) (insideAlarmRing i) done detected = some (s, trace) ∧
    (RingsInTime memory i detected done ∧ mayRaise s action ∨
      RingsInTime memory i detected (done ++ [action]) ∧ action.moves .main = true ∧
        s.vars.isCommand = true)

/-- An alarm command is posted if it is in the slot after some of the actions. -/
theorem sounded_iff_take (i : Nat) (detected : System) (actions : List Action) :
    Sounded memory i detected actions ↔
      ∃ k ∈ List.range (actions.length + 1),
        ∃ s ∈ execute (step memory) (insideAlarmRing i) (actions.take k) detected,
          .posted .alarm ∈ s.2 ∧ s.1.vars.commandLastIndex = 2 ∧ s.1.vars.isCommand = true := by
  constructor
  · rintro ⟨done, rest, s, trace, rfl, hrun, hslot⟩
    refine ⟨done.length, ?_, (s, trace), ?_, hslot⟩
    · rw [List.mem_range, List.length_append]
      omega
    · rw [List.take_left]
      exact hrun
  · rintro ⟨k, -, ⟨s, trace⟩, hrun, hslot⟩
    exact ⟨_, _, s, trace, (List.take_append_drop k actions).symm, hrun, hslot⟩

/-- Whether an alarm command is posted can be computed. -/
instance (i : Nat) (detected : System) (actions : List Action) :
    Decidable (Sounded memory i detected actions) :=
  decidable_of_iff _ (sounded_iff_take memory i detected actions).symm

end

/-! ## The way to the post -/

section

variable {memory : Nat → Option UInt8} {s : System}

/-- The main task posts the alarm command at the write of the ringing screen, or comes closer to
that. -/
theorem main_step_comes_to_post (keyScan : Nat) (h : s.main.comesToPost = true) :
    .posted .alarm ∈ (mainStep keyScan s).2 ∨
      (mainStep keyScan s).1.main.comesToPost = true ∧
        (mainStep keyScan s).1.main.untilIndex = s.main.untilIndex - 1 := by
  cases hpc : s.main <;> rw [hpc] at h <;> simp only [mainStep, hpc]
  case ringIndex => exact .inl (List.mem_singleton_self _)
  case ringDelay | ringPoll | ringRaise | ringAgain => exact .inr ⟨rfl, rfl⟩
  case ringFlag cause key => exact .inr ⟨h, rfl⟩
  case ringWait cause key =>
    -- the key ends the screen neither with CONFIRM nor with CANCEL
    simp only [MainPc.comesToPost, ButtonKey.keepsRinging, Bool.and_eq_true,
      decide_eq_true_eq] at h
    rw [if_neg h.1, if_neg h.2]
    exact .inr ⟨rfl, rfl⟩
  all_goals cases h

/-- No step of the main task takes it closer to its next post by more than one step. -/
theorem until_index_le_succ (keyScan : Nat) (h : s.main.comesToPost = true) :
    s.main.untilIndex ≤ (mainStep keyScan s).1.main.untilIndex + 1 := by
  rcases main_step_comes_to_post keyScan h with hposted | ⟨-, hcloser⟩
  · have hemits := main_step_emits keyScan s _ hposted
    cases hpc : s.main <;> rw [hpc] at h hemits <;>
      simp_all [MainPc.emits, MainPc.comesToPost, MainPc.untilIndex]
  · omega

/-- Where the main task opens the ringing screen, its step leads to the first delay of it. -/
theorem ring_delay_of_opens {keyScan : Nat} (h : opensRinging keyScan s) :
    ∃ cause, (mainStep keyScan s).1.main = .ringDelay cause := by
  cases hpc : s.main <;> simp only [opensRinging, hpc] at h
  case poll => exact ⟨none, by simp [mainStep, hpc, h, System.gotoMain, dispatch]⟩
  case checkAlarm j alarmCount =>
    obtain ⟨hj, alarm, hget, hdue⟩ := h
    exact ⟨some j, by simp [mainStep, hpc, hj, hget, hdue, System.gotoMain]⟩

/-- The main task comes on the way to a post only by opening the ringing screen. -/
theorem opens_of_comes_to_post {keyScan : Nat} (h : s.main.comesToPost = false)
    (hnext : (mainStep keyScan s).1.main.comesToPost = true) : opensRinging keyScan s := by
  have hgo := main_step_next keyScan s
  cases hpc : s.main <;> rw [hpc] at h hgo <;> simp only [opensRinging, hpc]
  case poll =>
    cases hkey : buttonKeyCheck keyScan <;>
      simp [mainStep, hpc, hkey, System.gotoMain, dispatch, MainPc.comesToPost] at hnext
    rfl
  case checkAlarm j alarmCount =>
    simp only [mainStep, hpc] at hnext
    split at hnext
    · next hj =>
      refine ⟨hj, ?_⟩
      cases hget : s.vars.alarms[j]? with
      | none => simp [hget, System.halt, hpc, MainPc.comesToPost] at hnext
      | some alarm =>
          refine ⟨alarm, rfl, ?_⟩
          by_contra hnot
          simp [hget, hnot, System.gotoMain, MainPc.comesToPost] at hnext
    · simp [System.gotoMain, MainPc.comesToPost] at hnext
  case ringWait cause key =>
    -- the key ends the screen
    simp only [mainStep, hpc] at hnext
    split at hnext
    · cases cause <;> simp [System.gotoMain, afterRinging, MainPc.comesToPost] at hnext
    · split at hnext
      · simp [System.gotoMain, MainPc.comesToPost] at hnext
      · simp_all [MainPc.comesToPost, ButtonKey.keepsRinging]
  all_goals
    generalize (mainStep keyScan s).1.main = next at hgo hnext
    simp only [MainPc.Next] at hgo
    grind [MainPc.comesToPost]

/-- On the way to a post the main task posts the alarm command within the steps that this takes,
whatever the other tasks do. -/
theorem ranked_post {allowed : System → Action → Prop} :
    Ranked (step memory) allowed (fun s => s.main.comesToPost = true) (Action.moves .main)
      (· = .posted .alarm) (fun s => s.main.untilIndex) := by
  have hmain : ∀ (s : System) (keyScan : Nat), s.main.comesToPost = true →
      (∃ event ∈ (mainStep keyScan s).2, event = .posted .alarm) ∨
        (mainStep keyScan s).1.main.comesToPost = true ∧
          (mainStep keyScan s).1.main.untilIndex = s.main.untilIndex - 1 :=
    fun s keyScan hcomes =>
      (main_step_comes_to_post keyScan hcomes).imp_left fun hposted => ⟨_, hposted, rfl⟩
  refine ranked_of_acts ?_ ?_ ?_
  · intro s action hcomes _ _
    cases hmoves : action.moves .main with
    | true =>
        cases action with
        | main keyScan => exact (hmain s keyScan hcomes).imp_right And.left
        | echo | alarm | arrive | tick => cases hmoves
    | false =>
        rw [act_main_stays memory s hmoves]
        exact .inr hcomes
  · intro s action hcomes _ _ hmoves
    cases action with
    | main keyScan => exact (hmain s keyScan hcomes).imp_right fun hcloser => hcloser.2.le
    | echo | alarm | arrive | tick => cases hmoves
  · intro s action _ _ _ hmoves
    rw [act_main_stays memory s hmoves]
    exact .inr le_rfl

/-- From the way to a post, as many steps of the main task as it takes post the alarm command. -/
theorem posted_of_steps {allowed : System → Action → Prop}
    [∀ s action, Decidable (allowed s action)] {actions : List Action} {final : System}
    {trace : List Event} (h : s.main.comesToPost = true)
    (hlong : s.main.untilIndex ≤ actions.countP (Action.moves .main))
    (hrun : execute (step memory) allowed actions s = some (final, trace)) :
    .posted .alarm ∈ trace := by
  rcases ranked_post.settles h hrun with ⟨event, hmem, rfl⟩ | ⟨hcomes, hrank⟩
  · exact hmem
  · have hpos : 0 < final.main.untilIndex := by
      cases hpc : final.main <;> rw [hpc] at hcomes <;>
        simp_all [MainPc.comesToPost, MainPc.untilIndex]
    omega

/-- The step that posts the alarm command is the one by which the main task writes the index in the
ringing screen. -/
theorem step_posts_alarm {next : System} {action : Action} {emitted : List Event}
    (h : s.main ≠ .postIndex .alarm) (hnext : step memory action s = some (next, emitted))
    (hposted : .posted .alarm ∈ emitted) :
    ∃ keyScan cause key, action = .main keyScan ∧ s.main = .ringIndex cause key ∧
      next.main = .ringFlag cause key ∧ next.vars = { s.vars with commandLastIndex := 2 } := by
  obtain ⟨-, heq⟩ := step_eq_some_iff.mp hnext
  obtain ⟨keyScan, rfl⟩ := main_of_mem rfl
    (show .posted .alarm ∈ (act memory s action).2 by rw [heq]; exact hposted)
  have hmain : mainStep keyScan s = (next, emitted) := heq
  have hemits := main_step_emits keyScan s (.posted .alarm) (by rw [hmain]; exact hposted)
  have hgo := main_step_next keyScan s
  have hwrite := main_step_vars keyScan s
  rw [hmain] at hgo hwrite
  cases hpc : s.main <;> rw [hpc] at h hemits hgo hwrite
  case ringIndex cause key => exact ⟨keyScan, cause, key, rfl, rfl, hgo, hwrite⟩
  case postIndex command => simp_all [MainPc.emits]
  all_goals simp [MainPc.emits] at hemits

end

section

variable {memory : Nat → Option UInt8} {i : Nat} {detected final : System}
  {actions : List Action} {between : List Event}

/-- Enough steps of the main task post the alarm command. -/
theorem posted_of_rings_in_time
    (hrun : execute (step memory) (insideAlarmRing i) actions detected = some (final, between))
    (h : RingsInTime memory i detected actions) : .posted .alarm ∈ between := by
  rcases h with ⟨hcomes, hlong⟩ | ⟨done, keyScan, rest, s, trace, rfl, hdone, hopens, hlong⟩
  · exact posted_of_steps hcomes hlong hrun
  · obtain ⟨middle, before, after, hbefore, hafter, rfl⟩ := execute_append hrun
    obtain ⟨rfl, rfl⟩ := Prod.mk.inj (Option.some.inj (hdone.symm.trans hbefore))
    obtain ⟨-, next, emitted, following, hnext, hrest, rfl⟩ := execute_cons hafter
    obtain ⟨-, heq⟩ := step_eq_some_iff.mp hnext
    obtain ⟨cause, hdelay⟩ := ring_delay_of_opens hopens
    rw [show mainStep keyScan s = (next, emitted) from heq] at hdelay
    have hposted : .posted .alarm ∈ following :=
      posted_of_steps (by rw [hdelay]; rfl) (by rw [hdelay]; exact hlong) hrest
    simp [hposted]

/-- Where the main task is on the way to a post, the rest of that way leads from the detection, or
from an opening of the ringing screen, to the post. -/
theorem rings_in_time_of_comes {s : System} {trace : List Event} {done more : List Action}
    (hrun : execute (step memory) (insideAlarmRing i) done detected = some (s, trace))
    (hcomes : s.main.comesToPost = true)
    (hmore : s.main.untilIndex ≤ more.countP (Action.moves .main)) :
    RingsInTime memory i detected (done ++ more) := by
  refine execute_invariant (fun done s _ => s.main.comesToPost = true → ∀ more : List Action,
    s.main.untilIndex ≤ more.countP (Action.moves .main) →
      RingsInTime memory i detected (done ++ more)) ?_ ?_ hrun hcomes more hmore
  · intro hcomes more hmore
    exact .inl ⟨hcomes, hmore⟩
  · intro done action s next trace emitted hdone hinv _ hnext hcomes more hmore
    rw [List.append_assoc]
    obtain ⟨-, heq⟩ := step_eq_some_iff.mp hnext
    cases hmoves : action.moves .main with
    | false =>
        have hstays := act_main_stays memory s hmoves
        rw [heq] at hstays
        rw [hstays] at hcomes hmore
        exact hinv hcomes _ (hmore.trans (by simp [List.countP_cons]))
    | true =>
        cases action with
        | main keyScan =>
            have hmain : (mainStep keyScan s).1 = next := congrArg Prod.fst heq
            rw [← hmain] at hcomes hmore
            cases hbefore : s.main.comesToPost with
            | true =>
                -- the way goes on, or to the next round when the post has just been made
                have hcloser := until_index_le_succ keyScan hbefore
                refine hinv hbefore _ ?_
                rw [List.singleton_append, List.countP_cons_of_pos rfl]
                omega
            | false =>
                -- the screen has just been opened, four steps before its post
                have hopens := opens_of_comes_to_post hbefore hcomes
                obtain ⟨cause, hdelay⟩ := ring_delay_of_opens hopens
                rw [hdelay] at hmore
                exact .inr ⟨done, keyScan, more, s, trace, rfl, hdone, hopens, hmore⟩
        | echo | alarm | arrive | tick => cases hmoves

/-- An alarm command is posted only if there are enough steps of the main task for it. -/
theorem rings_in_time_of_posted (hloop : detected.main ≠ .postIndex .alarm)
    (hrun : execute (step memory) (insideAlarmRing i) actions detected = some (final, between))
    (hposted : .posted .alarm ∈ between) : RingsInTime memory i detected actions := by
  obtain ⟨done, action, rest, s, next, trace, emitted, rfl, hdone, -, hnext, hmem⟩ :=
    execute_emitted hrun hposted
  obtain ⟨keyScan, cause, key, rfl, hpc, -⟩ :=
    step_posts_alarm (run_not_post_alarm hloop (execute_steps hdone)) hnext hmem
  refine rings_in_time_of_comes hdone (by rw [hpc]; rfl) ?_
  rw [hpc, List.countP_cons_of_pos rfl]
  exact Nat.le_add_left 1 _

/-! ## The slot -/

/-- The index is written, but the flag is not set. -/
def Unraised (s : System) : Prop :=
  (∃ cause key, s.main = .ringFlag cause key) ∧ s.vars.commandLastIndex = 2 ∧
    s.vars.isCommand = false

/-- The reply of `echo_task` sets the flag before it writes the index. -/
def ReplyRaised (s : System) : Prop := s.echo.posts = true → s.vars.isCommand = true

/-- A step keeps the order of the reply. -/
theorem ReplyRaised.act {s : System} {action : Action} (h : ReplyRaised s) :
    ReplyRaised (act memory s action).1 := by
  intro hposts
  cases action with
  | echo available =>
      have hflag := congrArg Prod.fst (echo_step_writes memory available s)
      rw [SaiyuanClock.act] at hposts ⊢
      rcases echo_step_next memory available s with ⟨hhalt, hpc⟩ | hnext
      · rw [hhalt] at hposts
        rcases hpc with ⟨len, hpc⟩ | ⟨j, alarmCount, buffer, hpc⟩ <;>
          simp [System.halt, hpc, EchoPc.posts] at hposts
      · -- `echo_task` comes there from the point at which it sets the flag
        generalize (echoStep memory available s).1.echo = next at hposts hnext
        cases next <;> cases hposts
        cases hpc : s.echo <;> rw [hpc] at hnext hflag
        case replyFlag => exact hflag
        case testFlag =>
          simp only [EchoPc.Next] at hnext
          split at hnext <;> cases hnext
        case sendSection len comparisons =>
          cases comparisons <;> simp [EchoPc.Next] at hnext
        all_goals simp [EchoPc.Next] at hnext
  | main | alarm | arrive | tick =>
      rw [act_echo_stays memory s rfl] at hposts
      refine (flag_until_reset memory _ (h hposts)).resolve_left fun hreset => ?_
      obtain ⟨⟨available, haction⟩, -⟩ := resets_of_reset hreset
      cases haction

/-- A run keeps the order of the reply. -/
theorem ReplyRaised.run {allowed : System → Action → Prop} {s next : System}
    {trace : List Event} (h : ReplyRaised s) (hrun : Run memory allowed s trace next) :
    ReplyRaised next := by
  refine hrun.invariant (fun state _ => ReplyRaised state) h ?_
  intro _ state emitted following _ hinv hstep
  obtain ⟨action, -, -, rfl, -⟩ := step_of_iff.mp hstep
  exact hinv.act

/-- Only a step of the main task, or the reply of `echo_task`, sets the flag. -/
theorem may_raise_of_flag (memory : Nat → Option UInt8) {s : System} {action : Action}
    (h : s.vars.isCommand = false) (hflag : (act memory s action).1.vars.isCommand = true) :
    mayRaise s action := by
  cases action with
  | main keyScan => trivial
  | echo available =>
      have hwrites := congrArg Prod.fst (echo_step_writes memory available s)
      rw [act] at hflag
      cases hpc : s.echo <;> rw [hpc] at hwrites
      case replyFlag buffer => exact ⟨buffer, hpc⟩
      case sendSection len comparisons =>
        cases comparisons <;> simp_all [EchoPc.slot]
      all_goals simp_all [EchoPc.slot]
  | alarm keyScan =>
      rw [act, (alarm_step_frame keyScan s).vars, h] at hflag
      cases hflag
  | arrive | tick =>
      rw [show (act memory s _).1.vars = s.vars from rfl, h] at hflag
      cases hflag

/-- Where the index is written and the flag is not set, a step sets the flag or leaves it so; a step
that may set it does. -/
theorem Unraised.act (memory : Nat → Option UInt8) {s : System} (action : Action) (h : Unraised s)
    (hreply : ReplyRaised s) :
    (act memory s action).1.vars.commandLastIndex = 2 ∧
      ((act memory s action).1.vars.isCommand = true ∨
        Unraised (act memory s action).1 ∧ ¬ mayRaise s action) := by
  obtain ⟨⟨cause, key, hpc⟩, hindex, hflag⟩ := h
  cases action with
  | main keyScan =>
      have hwrite := main_step_vars keyScan s
      rw [hpc] at hwrite
      rw [SaiyuanClock.act, hwrite]
      exact ⟨hindex, .inl rfl⟩
  | echo available =>
      have hframe := echo_step_frame memory available s
      have hwrites := echo_step_writes memory available s
      have hposts : s.echo.posts = false := by
        cases hposts : s.echo.posts with
        | false => rfl
        | true => exact absurd (hreply hposts) (by simp [hflag])
      rw [SaiyuanClock.act]
      have hkept : (echoStep memory available s).1.vars.commandLastIndex = 2 := by
        have hsame := congrArg Prod.snd hwrites
        cases hecho : s.echo <;> rw [hecho] at hsame hposts
        case replyIndex => cases hposts
        case sendSection len comparisons => cases comparisons <;> exact hsame.trans hindex
        all_goals exact hsame.trans hindex
      refine ⟨hkept, ?_⟩
      cases hraised : (echoStep memory available s).1.vars.isCommand with
      | true => exact .inl rfl
      | false =>
          refine .inr ⟨⟨⟨cause, key, hframe.main.trans hpc⟩, hkept, hraised⟩, ?_⟩
          rintro ⟨buffer, hecho⟩
          have hset := congrArg Prod.fst hwrites
          rw [hecho, hraised] at hset
          cases hset
  | alarm keyScan =>
      have hframe := alarm_step_frame keyScan s
      rw [SaiyuanClock.act, hframe.vars]
      refine ⟨hindex, .inr ⟨⟨⟨cause, key, hframe.main.trans hpc⟩, ?_, ?_⟩, not_false⟩⟩ <;>
        rw [hframe.vars] <;> assumption
  | arrive | tick => exact ⟨hindex, .inr ⟨⟨⟨cause, key, hpc⟩, hindex, hflag⟩, not_false⟩⟩

/-- What is posted stays posted when more is done. -/
theorem Sounded.append (h : Sounded memory i detected actions) (more : List Action) :
    Sounded memory i detected (actions ++ more) := by
  obtain ⟨done, rest, s, trace, rfl, hslot⟩ := h
  exact ⟨done, rest ++ more, s, trace, List.append_assoc _ _ _, hslot⟩

/-- What is in time stays in time when more is done. -/
theorem SoundsInTime.append (h : SoundsInTime memory i detected actions) (more : List Action) :
    SoundsInTime memory i detected (actions ++ more) := by
  obtain ⟨done, action, rest, s, trace, rfl, htime⟩ := h
  exact ⟨done, action, rest ++ more, s, trace, by simp, htime⟩

/-- When the index has been written the alarm command is posted, or the flag is still to be set. -/
theorem sounded_or_unraised {s : System} {trace : List Event} (hreply : ReplyRaised detected)
    (hloop : detected.main ≠ .postIndex .alarm)
    (hrun : execute (step memory) (insideAlarmRing i) actions detected = some (s, trace))
    (hposted : .posted .alarm ∈ trace) : Sounded memory i detected actions ∨ Unraised s := by
  refine execute_invariant (fun actions s trace => .posted .alarm ∈ trace →
    Sounded memory i detected actions ∨ Unraised s) (by simp) ?_ hrun hposted
  intro done action s next trace emitted hdone hinv hallowed hnext hmem
  obtain ⟨-, heq⟩ := step_eq_some_iff.mp hnext
  have hafter := execute_snoc hdone hallowed hnext
  have hsounded : next.vars.commandLastIndex = 2 → next.vars.isCommand = true →
      Sounded memory i detected (done ++ [action]) := fun hindex hflag =>
    ⟨_, [], next, _, (List.append_nil _).symm, hafter, hmem, hindex, hflag⟩
  by_cases hearlier : .posted .alarm ∈ trace
  · rcases hinv hearlier with hdoneSounded | hwaits
    · exact .inl (hdoneSounded.append [action])
    · have hstep := hwaits.act memory action (hreply.run (execute_steps hdone))
      rw [heq] at hstep
      exact hstep.2.imp (hsounded hstep.1) And.left
  · -- this step writes the index
    have hnow := (List.mem_append.mp hmem).resolve_left hearlier
    obtain ⟨keyScan, cause, key, rfl, -, hgo, hwrite⟩ :=
      step_posts_alarm (run_not_post_alarm hloop (execute_steps hdone)) hnext hnow
    have hindex : next.vars.commandLastIndex = 2 := by rw [hwrite]
    cases hflag : next.vars.isCommand with
    | true => exact .inl (hsounded hindex hflag)
    | false => exact .inr ⟨⟨cause, key, hgo⟩, hindex, hflag⟩

/-- Where the flag is set after the index has been written, this was in time. -/
theorem in_time_or_unset {s : System} {trace : List Event}
    (hloop : detected.main ≠ .postIndex .alarm)
    (hrun : execute (step memory) (insideAlarmRing i) actions detected = some (s, trace))
    (hposted : .posted .alarm ∈ trace) :
    SoundsInTime memory i detected actions ∨ s.vars.isCommand = false := by
  refine execute_invariant (fun actions s trace => .posted .alarm ∈ trace →
    SoundsInTime memory i detected actions ∨ s.vars.isCommand = false) (by simp) ?_ hrun hposted
  intro done action s next trace emitted hdone hinv hallowed hnext hmem
  obtain ⟨-, heq⟩ := step_eq_some_iff.mp hnext
  have hafter := execute_snoc hdone hallowed hnext
  cases hflag : next.vars.isCommand with
  | false => exact .inr rfl
  | true =>
      refine .inl ?_
      by_cases hearlier : .posted .alarm ∈ trace
      · rcases hinv hearlier with htime | hunset
        · exact htime.append [action]
        · have hraises : mayRaise s action :=
            may_raise_of_flag memory hunset (by rw [heq]; exact hflag)
          exact ⟨done, action, [], s, trace, rfl, hdone,
            .inl ⟨rings_in_time_of_posted hloop hdone hearlier, hraises⟩⟩
      · -- this step writes the index, and leaves the flag as it is
        have hnow := (List.mem_append.mp hmem).resolve_left hearlier
        obtain ⟨keyScan, cause, key, rfl, -, -, hwrite⟩ :=
          step_posts_alarm (run_not_post_alarm hloop (execute_steps hdone)) hnext hnow
        rw [hwrite] at hflag
        exact ⟨done, .main keyScan, [], s, trace, rfl, hdone,
          .inr ⟨rings_in_time_of_posted hloop hafter hmem, rfl, hflag⟩⟩

/-- Enough steps of the main task, and the flag with them, post the alarm command. -/
theorem sounded_of_in_time (hreply : ReplyRaised detected)
    (hloop : detected.main ≠ .postIndex .alarm)
    (hrun : execute (step memory) (insideAlarmRing i) actions detected = some (final, between))
    (h : SoundsInTime memory i detected actions) : Sounded memory i detected actions := by
  obtain ⟨done, action, rest, s, trace, rfl, hdone, htime⟩ := h
  obtain ⟨middle, before, after, hbefore, hlater, rfl⟩ := execute_append hrun
  obtain ⟨rfl, rfl⟩ := Prod.mk.inj (Option.some.inj (hdone.symm.trans hbefore))
  obtain ⟨hallowed, next, emitted, following, hnext, -, rfl⟩ := execute_cons hlater
  obtain ⟨-, heq⟩ := step_eq_some_iff.mp hnext
  have hsnoc := execute_snoc hdone hallowed hnext
  rw [List.append_cons]
  refine Sounded.append ?_ rest
  rcases htime with ⟨henough, hraises⟩ | ⟨henough, hmoves, hflag⟩
  · -- the step sets the flag if it is not set yet
    rcases sounded_or_unraised hreply hloop hdone (posted_of_rings_in_time hdone henough) with
      hsounded | hwaits
    · exact hsounded.append [action]
    · have hstep := hwaits.act memory action (hreply.run (execute_steps hdone))
      rw [heq] at hstep
      have hset := hstep.2.resolve_right fun hleft => hleft.2 hraises
      exact ⟨_, [], next, _, (List.append_nil _).symm, hsnoc,
        List.mem_append_left _ (posted_of_rings_in_time hdone henough), hstep.1, hset⟩
  · -- a step of the main task leaves a flag that is set
    refine (sounded_or_unraised hreply hloop hsnoc
      (posted_of_rings_in_time hsnoc henough)).resolve_right fun hwaits => ?_
    cases action with
    | main keyScan =>
        have hkept := flag_until_reset memory (.main keyScan) hflag
        rw [heq] at hkept
        rcases hkept with hreset | hset
        · obtain ⟨⟨available, haction⟩, -⟩ := resets_of_reset
            (show .reset ∈ (act memory s (.main keyScan)).2 by rw [heq]; exact hreset)
          cases haction
        · rw [hwaits.2.2] at hset
          cases hset
    | echo | alarm | arrive | tick => cases hmoves

end

/-- An alarm that `alarm_task` finds due is sounded before `alarm_ring` returns exactly when the
main task comes to the write of the ringing screen in that time, from where it is in the screen at
the detection or from opening it later, and the flag goes with the write: it is still set, or it is
set again. `alarm_ring` itself posts nothing. -/
theorem alarm_sounded_iff {memory : Nat → Option UInt8} {clock : Int} {data dataDest : Buffer}
    {past between : List Event} {i : Nat} {start detected returning : System}
    {actions : List Action} (hpast : Run memory anyOrder (boot clock data dataDest) past start)
    (hring : AlarmRing memory i start detected actions between returning) :
    Sounded memory i detected actions ↔ SoundsInTime memory i detected actions := by
  obtain ⟨keyScan, detection, hdetects, -⟩ := hring.detects
  obtain ⟨hrunning, heq⟩ := step_eq_some_iff.mp hdetects
  have hreached : Run memory anyOrder (boot clock data dataDest) (past ++ detection) detected := by
    have hdetection : Run memory anyOrder start _ _ :=
      run_act memory (.alarm keyScan) trivial hrunning
    rw [heq] at hdetection
    exact hpast.trans hdetection
  have hloop : detected.main ≠ .postIndex .alarm := run_not_post_alarm (by simp [boot]) hreached
  have hreply : ReplyRaised detected := ReplyRaised.run (fun hposts => by cases hposts) hreached
  constructor
  · intro hsounded
    obtain ⟨done, rest, s, trace, rfl, hdone, hposted, -, hflag⟩ := hsounded
    refine SoundsInTime.append ?_ rest
    exact (in_time_or_unset hloop hdone hposted).resolve_right (by simp [hflag])
  · exact sounded_of_in_time hreply hloop hring.waits

/-- A call of `alarm_ring` from an execution: the actions up to the detection, and those up to the
return, of whose states `observe` reads off a part. -/
theorem execute_alarm_ring {Part : Type} (observe : System → Part) {part : Part} {clock : Int}
    {i : Nat} {before actions : List Action} {between detection leaving : List Event}
    (h : ((execute (step fun _ => none) anyOrder before (boot clock .zero .zero)).bind fun start =>
      (step (fun _ => none) (.alarm 0) start.1).bind fun detected =>
        (execute (step fun _ => none) (insideAlarmRing i) actions detected.1).bind
          fun returning => (step (fun _ => none) (.alarm 11) returning.1).map fun returned =>
            (observe detected.1, detected.2, returning.2, returned.2)) =
      some (part, detection, between, leaving))
    (hdetection : .ringing .alarm (some i) ∈ detection)
    (hleaving : .silenced .alarm (some i) ∈ leaving) :
    ∃ past start detected returning,
      Run (fun _ => none) anyOrder (boot clock .zero .zero) past start ∧
      AlarmRing (fun _ => none) i start detected actions between returning ∧
      observe detected = part := by
  obtain ⟨⟨start, past⟩, hpast, h⟩ := Option.bind_eq_some_iff.mp h
  obtain ⟨⟨detected, found⟩, hdetects, h⟩ := Option.bind_eq_some_iff.mp h
  obtain ⟨⟨returning, waited⟩, hwaits, h⟩ := Option.bind_eq_some_iff.mp h
  obtain ⟨⟨returned, left⟩, hreturns, heq⟩ := Option.map_eq_some_iff.mp h
  simp only [Prod.mk.injEq] at heq
  obtain ⟨hpart, rfl, rfl, rfl⟩ := heq
  exact ⟨past, start, detected, returning, execute_steps hpast,
    ⟨⟨0, found, hdetects, hdetection⟩, hwaits, ⟨11, returned, left, hreturns, hleaving⟩⟩, hpart⟩

/-- The placeholder is due in the first minute of a clock that was never set. The main task has
opened the ringing screen for it, and four steps later it has written the index, one more and the
flag is set for certain. -/
theorem alarm_sounded_iff_ringing :
    ∃ past between actions start detected returning,
      Run (fun _ => none) anyOrder (boot 0 .zero .zero) past start ∧
      AlarmRing (fun _ => none) 0 start detected actions between returning ∧
      Sounded (fun _ => none) 0 detected actions := by
  obtain ⟨past, start, detected, returning, hpast, hring, hmain⟩ :=
    execute_alarm_ring (fun detected => detected.main)
      (show ((execute (step fun _ => none) anyOrder (List.replicate 6 (.main 0) ++ [.alarm 0])
          (boot 0 .zero .zero)).bind fun start =>
        (step (fun _ => none) (.alarm 0) start.1).bind fun detected =>
          (execute (step fun _ => none) (insideAlarmRing 0)
            (List.replicate 4 (.main 0) ++ [.main 0]) detected.1).bind fun returning =>
              (step (fun _ => none) (.alarm 11) returning.1).map fun returned =>
                (detected.1.main, detected.2, returning.2, returned.2)) =
        some (.ringDelay (some 0),
          [.readAlarm .alarm 0, .checked .alarm 0 0 0, .ringing .alarm (some 0)],
          [.polled .ringing .blank, .posted .alarm],
          [.polled .alarmRing .confirm, .dismissed 0, .silenced .alarm (some 0)]) by decide)
      (by simp) (by simp)
  obtain ⟨s, trace, -, hfour, -, -⟩ := execute_append hring.waits
  refine ⟨past, _, _, start, detected, returning, hpast, hring,
    (alarm_sounded_iff hpast hring).mpr
      ⟨_, .main 0, [], s, trace, rfl, hfour, .inl ⟨.inl ?_, trivial⟩⟩⟩
  rw [hmain]
  decide

/-- An alarm is set one hour ahead and the editor is opened again. When the alarm is due, the main
task stays in the editor, and no alarm command is posted until the user confirms. -/
theorem silent_in_editor :
    ∃ past between actions start detected returning,
      Run (fun _ => none) anyOrder (boot 1000 .zero .zero) past start ∧
      AlarmRing (fun _ => none) 1 start detected actions between returning ∧
      ¬ Sounded (fun _ => none) 1 detected actions := by
  obtain ⟨past, start, detected, returning, hpast, hring, hsilent⟩ :=
    execute_alarm_ring (fun detected => decide (Sounded (fun _ => none) 1 detected
        [.main 0, .main 0, .main 0, .alarm 0, .main 0, .main 0, .alarm 0]))
      (show ((execute (step fun _ => none) anyOrder
          (List.replicate 3 (.main 0) ++ [.main 5, .main 0, .main 0, .main 6, .main 0, .main 11,
            .main 11] ++ List.replicate 11 (.main 0) ++ [.main 5, .tick 4600] ++
              List.replicate 3 (.alarm 0)) (boot 1000 .zero .zero)).bind fun start =>
        (step (fun _ => none) (.alarm 0) start.1).bind fun detected =>
          (execute (step fun _ => none) (insideAlarmRing 1)
            [.main 0, .main 0, .main 0, .alarm 0, .main 0, .main 0, .alarm 0] detected.1).bind
              fun returning => (step (fun _ => none) (.alarm 11) returning.1).map fun returned =>
                (decide (Sounded (fun _ => none) 1 detected.1
                  [.main 0, .main 0, .main 0, .alarm 0, .main 0, .main 0, .alarm 0]),
                  detected.2, returning.2, returned.2)) =
        some (false, [.readAlarm .alarm 1, .checked .alarm 1 4600 4600, .ringing .alarm (some 1)],
          [.polled .editor .blank, .polled .alarmRing .blank],
          [.polled .alarmRing .confirm, .dismissed 1, .silenced .alarm (some 1)]) by
        decide +kernel)
      (by simp) (by simp)
  exact ⟨past, _, _, start, detected, returning, hpast, hring, of_decide_eq_false hsilent⟩

/-- `echo_task` resets the flag that the ringing screen has raised, and `alarm_ring` returns when
the index is written and before the flag is set again: the main task has made its steps, but the
slot never holds the alarm command. -/
theorem reset_keeps_silent :
    ∃ past between actions start detected returning,
      Run (fun _ => none) anyOrder (boot 0 .zero .zero) past start ∧
      AlarmRing (fun _ => none) 0 start detected actions between returning ∧
      RingsInTime (fun _ => none) 0 detected actions ∧
      ¬ Sounded (fun _ => none) 0 detected actions := by
  obtain ⟨past, start, detected, returning, hpast, hring, hobserved⟩ :=
    execute_alarm_ring (fun detected => (detected.main, decide (Sounded (fun _ => none) 0
        detected (List.replicate 3 (.main 0) ++ List.replicate 8 (.echo 0) ++ [.main 0]))))
      (show ((execute (step fun _ => none) anyOrder (List.replicate 6 (.main 0) ++ [.alarm 0])
          (boot 0 .zero .zero)).bind fun start =>
        (step (fun _ => none) (.alarm 0) start.1).bind fun detected =>
          (execute (step fun _ => none) (insideAlarmRing 0)
            (List.replicate 3 (.main 0) ++ List.replicate 8 (.echo 0) ++ [.main 0])
              detected.1).bind fun returning =>
                (step (fun _ => none) (.alarm 11) returning.1).map fun returned =>
                  ((detected.1.main, decide (Sounded (fun _ => none) 0 detected.1
                    (List.replicate 3 (.main 0) ++ List.replicate 8 (.echo 0) ++ [.main 0]))),
                    detected.2, returning.2, returned.2)) =
        some ((.ringDelay (some 0), false),
          [.readAlarm .alarm 0, .checked .alarm 0 0 0, .ringing .alarm (some 0)],
          [.polled .ringing .blank, .readBytes [], .reset, .posted .alarm],
          [.polled .alarmRing .confirm, .dismissed 0, .silenced .alarm (some 0)]) by
        decide +kernel)
      (by simp) (by simp)
  obtain ⟨hmain, hsilent⟩ := Prod.mk.inj hobserved
  refine ⟨past, _, _, start, detected, returning, hpast, hring, .inl ?_,
    of_decide_eq_false hsilent⟩
  rw [hmain]
  decide

end SaiyuanClock
