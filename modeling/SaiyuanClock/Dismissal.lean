import SaiyuanClock.Frames

/-!
# Dismissed alarms

`check_alarm` compares an alarm with the clock and nothing else, and ending a ringing with CONFIRM
records nothing. Whether an alarm that was dismissed rings again is therefore a matter of the
clock alone: `stays_dismissed_iff` says which later clock readings leave it silent.
-/

namespace SaiyuanClock

open LabelledSteps

/-- An event that changes the timestamp of an entry. -/
def Event.changes (i : Nat) : Event → Bool
  | .committed j _ | .snoozed j => j == i
  | _ => false

/-- A check of an entry at which the clock reads more than a minute before the alarm. -/
def Event.pastStart (i : Nat) : Event → Bool
  | .checked _ j alarmTimestamp now => j == i && decide (alarmTimestamp - 60 < now)
  | _ => false

/-- The clock never goes back. -/
def forward (s : System) : Action → Prop
  | .tick now => s.clock ≤ now
  | _ => True

/-- Whether a step keeps the clock from going back is decidable. -/
instance (s : System) : ∀ action, Decidable (forward s action)
  | .tick now => inferInstanceAs (Decidable (s.clock ≤ now))
  | .main _ | .echo _ | .alarm _ | .arrive _ => inferInstanceAs (Decidable True)

/-- A check of the main task compares the timestamp and the clock of its state, and changes
nothing that is shared. -/
theorem checked_of_main_step {keyScan : Nat} {s : System} {task : Task} {i : Nat}
    {alarmTimestamp now : Int}
    (h : .checked task i alarmTimestamp now ∈ (mainStep keyScan s).2) :
    alarmTimestamp = s.vars.timestamp i ∧ now = s.clock ∧
      (mainStep keyScan s).1.vars = s.vars := by
  have hemits := main_step_emits keyScan s _ h
  rw [main_step_vars]
  cases hpc : s.main
  case checkAlarm j alarmCount =>
    simp only [mainStep, hpc] at h
    split at h
    · cases hget : s.vars.alarms[j]? with
      | none => simp [hget] at h
      | some alarm =>
          obtain ⟨rfl, rfl, rfl, rfl⟩ : task = .main ∧ i = j ∧
              alarmTimestamp = alarm.alarmTimestamp ∧ now = s.clock := by
            simp only [hget] at h
            split at h <;> simpa using h
          exact ⟨(StaticVars.timestamp_of_get hget).symm, rfl, rfl⟩
    · simp at h
  all_goals
    rw [hpc] at hemits
    simp [MainPc.emits] at hemits

/-- A check of `alarm_task` compares the timestamp and the clock of its state. -/
theorem checked_of_alarm_step {keyScan : Nat} {s : System} {task : Task} {i : Nat}
    {alarmTimestamp now : Int}
    (h : .checked task i alarmTimestamp now ∈ (alarmStep keyScan s).2) :
    alarmTimestamp = s.vars.timestamp i ∧ now = s.clock := by
  cases hpc : s.alarm <;> simp only [alarmStep, hpc] at h
  case checkAlarm j =>
    cases hget : s.vars.alarms[j]? with
    | none => simp [hget] at h
    | some alarm =>
        obtain ⟨rfl, rfl, rfl, rfl⟩ : task = .alarm ∧ i = j ∧
            alarmTimestamp = alarm.alarmTimestamp ∧ now = s.clock := by
          simp only [hget] at h
          split at h <;> simpa using h
        exact ⟨(StaticVars.timestamp_of_get hget).symm, rfl⟩
  case ringPoll => split at h <;> simp at h
  all_goals simp at h

/-- What a check says about the state in which it happens. -/
theorem checked_of_act {memory : Nat → Option UInt8} {s : System} {action : Action} {task : Task}
    {i : Nat} {alarmTimestamp now : Int}
    (h : .checked task i alarmTimestamp now ∈ (act memory s action).2) :
    alarmTimestamp = s.vars.timestamp i ∧ now = s.clock ∧
      (act memory s action).1.vars = s.vars := by
  cases action with
  | main keyScan => exact checked_of_main_step h
  | echo available => simpa [Event.fromEcho] using echo_step_from memory available s _ h
  | alarm keyScan =>
      obtain ⟨htimestamp, hnow⟩ := checked_of_alarm_step h
      have hframe := alarm_step_frame keyScan s
      exact ⟨htimestamp, hnow, hframe.vars⟩
  | arrive bytes | tick now => simp [act] at h

/-- A step of the main task that does not change an entry leaves its timestamp as it is. -/
theorem main_step_timestamp {keyScan : Nat} {s : System} {i : Nat}
    (h : ∀ event ∈ (mainStep keyScan s).2, event.changes i = false) :
    (mainStep keyScan s).1.vars.timestamp i = s.vars.timestamp i := by
  rw [main_step_vars]
  cases hpc : s.main
  case seedAlarm | snoozeWrite | commitTimestamp =>
    simp only [mainStep, hpc] at h
    have hne := h _ (List.mem_singleton_self _)
    simp only [Event.changes, beq_eq_false_iff_ne] at hne
    exact StaticVars.timestamp_modify_alarm_ne _ hne _
  case commitString timeStr =>
    have hkeep := StaticVars.timestamp_modify_alarm_text s.vars s.vars.alarmCount
      (fun alarm => { alarm with alarmTimeString := some timeStr }) fun _ => rfl
    exact congrFun hkeep i
  all_goals rfl

/-- A step that does not change an entry leaves its timestamp as it is. -/
theorem act_timestamp {memory : Nat → Option UInt8} {s : System} {action : Action} {i : Nat}
    (h : ∀ event ∈ (act memory s action).2, event.changes i = false) :
    (act memory s action).1.vars.timestamp i = s.vars.timestamp i := by
  cases action with
  | main keyScan => exact main_step_timestamp h
  | echo available =>
      have hframe := echo_step_frame memory available s
      simp only [act, StaticVars.timestamp, hframe.alarms]
  | alarm keyScan =>
      have hframe := alarm_step_frame keyScan s
      simp only [act, hframe.vars]
  | arrive bytes | tick now => rfl

/-- A step whose clock does not go back does not set it back. -/
theorem act_clock {memory : Nat → Option UInt8} {s : System} {action : Action}
    (h : forward s action) : s.clock ≤ (act memory s action).1.clock := by
  cases action with
  | main keyScan => exact Int.le_of_eq (main_step_frame keyScan s).clock.symm
  | echo available => exact Int.le_of_eq (echo_step_frame memory available s).clock.symm
  | alarm keyScan => exact Int.le_of_eq (alarm_step_frame keyScan s).clock.symm
  | arrive bytes => exact Int.le_refl _
  | tick now => exact h

/-- A run that does not change an entry leaves its timestamp as it is. -/
theorem run_timestamp {memory : Nat → Option UInt8} {allowed : System → Action → Prop} {i : Nat}
    {s next : System} {trace : List Event} (hrun : Run memory allowed s trace next)
    (h : ∀ event ∈ trace, event.changes i = false) :
    next.vars.timestamp i = s.vars.timestamp i := by
  induction hrun with
  | refl => rfl
  | snoc _ hstep ih =>
      obtain ⟨action, -, -, rfl, rfl⟩ := step_of_iff.mp hstep
      have hlast := act_timestamp fun event hmem => h event (List.mem_append_right _ hmem)
      exact hlast.trans (ih fun event hmem => h event (List.mem_append_left _ hmem))

/-- Two checks of an entry that does not change between them compare the same timestamp, the
later one with a clock reading that is not earlier. -/
theorem checks_ordered {memory : Nat → Option UInt8} {start s : System}
    {before between after : List Event} {i : Nat} {first later : Task}
    {firstTimestamp firstNow laterTimestamp laterNow : Int}
    (hrun : Run memory forward start (before ++ .checked first i firstTimestamp firstNow ::
      (between ++ .checked later i laterTimestamp laterNow :: after)) s)
    (hbetween : ∀ event ∈ between, event.changes i = false) :
    firstTimestamp = laterTimestamp ∧ firstNow ≤ laterNow := by
  obtain ⟨_, atFirst, front, back, next, future, -, hfirst, hfuture, -, hsplit⟩ := hrun.split
  obtain ⟨action, hforward, -, rfl, hemitted⟩ := step_of_iff.mp hfirst
  have hmem : .checked first i firstTimestamp firstNow ∈ (act memory atFirst action).2 := by
    rw [hemitted]
    simp
  obtain ⟨hfirstTimestamp, hfirstNow, hvars⟩ := checked_of_act hmem
  rcases append_cons_cases hsplit with ⟨rest, hback, -⟩ | ⟨rest, rfl, rfl⟩
  · -- one step makes both checks
    have hlater : .checked later i laterTimestamp laterNow ∈ (act memory atFirst action).2 := by
      rw [hemitted, hback]
      simp
    obtain ⟨hlaterTimestamp, hlaterNow, -⟩ := checked_of_act hlater
    omega
  · obtain ⟨past, atLater, front, back, next, _, hpast, hlater, -, rfl, -⟩ := hfuture.split
    obtain ⟨action, -, -, rfl, hemitted⟩ := step_of_iff.mp hlater
    have hmem : .checked later i laterTimestamp laterNow ∈ (act memory atLater action).2 := by
      rw [hemitted]
      simp
    obtain ⟨hlaterTimestamp, hlaterNow, -⟩ := checked_of_act hmem
    have hsame : atLater.vars.timestamp i = atFirst.vars.timestamp i := by
      rw [run_timestamp hpast fun event hevent => hbetween event (by simp [hevent]), hvars]
    have hclock : atFirst.clock ≤ atLater.clock := by
      refine le_trans (act_clock hforward) (hpast.monotone System.clock ?_)
      intro state emitted following hstep
      obtain ⟨action, hforward, -, rfl, -⟩ := step_of_iff.mp hstep
      exact act_clock hforward
    omega

/-- The trace has a check of an alarm after the user dismissed it. The events `between` the two
do not change the alarm's timestamp. -/
def ChecksDismissed (trace between : List Event) (i : Nat) (alarmTimestamp now : Int) : Prop :=
  (∃ before after task, trace =
    before ++ .dismissed i :: (between ++ .checked task i alarmTimestamp now :: after)) ∧
  ∀ event ∈ between, event.changes i = false

/-- No check reports an alarm that was dismissed and has not changed since. -/
def StaysDismissed (trace : List Event) : Prop :=
  ∀ between i alarmTimestamp now, ChecksDismissed trace between i alarmTimestamp now →
    checkAlarm alarmTimestamp now = false

/-- How the clock goes on after an alarm was dismissed, as long as the alarm has not changed: at
the first check for which it is later than a minute before the alarm, it is no longer less than a
minute after it; and it shows no time whose difference to the alarm is narrowed to less than a
minute. -/
structure ClockMovesOn (trace : List Event) : Prop where
  passes : ∀ between i alarmTimestamp now, ChecksDismissed trace between i alarmTimestamp now →
    (∀ event ∈ between, event.pastStart i = false) → alarmTimestamp - 60 < now →
      alarmTimestamp + 60 ≤ now
  fits : ∀ between i alarmTimestamp now, ChecksDismissed trace between i alarmTimestamp now →
    ¬ Narrowed (now - alarmTimestamp)

/-- In a run in which the clock moves on after a dismissal, no later check of the alarm falls into
the minute before or after its time. -/
theorem check_passes {memory : Nat → Option UInt8} {start s : System} {trace between : List Event}
    {i : Nat} {alarmTimestamp now : Int} (hrun : Run memory forward start trace s)
    (hclock : ClockMovesOn trace) (hcheck : ChecksDismissed trace between i alarmTimestamp now)
    (hstart : alarmTimestamp - 60 < now) : alarmTimestamp + 60 ≤ now := by
  obtain ⟨⟨before, after, task, htrace⟩, hbetween⟩ := hcheck
  cases hfind : between.find? (Event.pastStart i) with
  | none =>
      refine hclock.passes between i alarmTimestamp now ⟨⟨before, after, task, htrace⟩, hbetween⟩
        (fun event hmem => ?_) hstart
      simpa using List.find?_eq_none.mp hfind event hmem
  | some event =>
      -- the first check after the dismissal that comes late enough
      obtain ⟨hlate, early, rest, rfl, hearly⟩ := List.find?_eq_some_iff_append.mp hfind
      cases event with
      | checked first j firstTimestamp firstNow =>
          simp only [Event.pastStart, Bool.and_eq_true, beq_iff_eq, decide_eq_true_eq] at hlate
          obtain ⟨rfl, hfirstStart⟩ := hlate
          have hfirst : ChecksDismissed trace early j firstTimestamp firstNow :=
            ⟨⟨before, rest ++ .checked task j alarmTimestamp now :: after, first, by
              simp [htrace]⟩, fun event hmem => hbetween event (by simp [hmem])⟩
          have hpasses := hclock.passes early j firstTimestamp firstNow hfirst
            (fun event hmem => by simpa using hearly event hmem) hfirstStart
          have hsplit : trace = (before ++ .dismissed j :: early) ++
              .checked first j firstTimestamp firstNow ::
                (rest ++ .checked task j alarmTimestamp now :: after) := by
            simp [htrace]
          rw [hsplit] at hrun
          obtain ⟨hsame, hlater⟩ :=
            checks_ordered hrun fun event hmem => hbetween event (by simp [hmem])
          omega
      | _ => simp [Event.pastStart] at hlate

/-- Dismissed alarms stay silent exactly when the clock moves on: ending a ringing with CONFIRM
leaves no trace in the state, so that only the clock keeps an alarm from ringing again. -/
theorem stays_dismissed_iff {memory : Nat → Option UInt8} {start s : System} {trace : List Event}
    (hrun : Run memory forward start trace s) : StaysDismissed trace ↔ ClockMovesOn trace := by
  constructor
  · intro hstays
    refine ⟨?_, ?_⟩
    · intro between i alarmTimestamp now hcheck _ hstart
      have hquiet := hstays between i alarmTimestamp now hcheck
      by_contra hnear
      rw [(check_alarm_cases alarmTimestamp now).mpr (.inl ⟨hstart, by omega⟩)] at hquiet
      simp at hquiet
    · intro between i alarmTimestamp now hcheck hnarrowed
      have hquiet := hstays between i alarmTimestamp now hcheck
      rw [(check_alarm_cases alarmTimestamp now).mpr (.inr hnarrowed)] at hquiet
      simp at hquiet
  · intro hclock between i alarmTimestamp now hcheck
    rw [← Bool.not_eq_true, check_alarm_cases]
    rintro (⟨hstart, hend⟩ | hnarrowed)
    · have hpasses := check_passes hrun hclock hcheck hstart
      omega
    · exact hclock.fits between i alarmTimestamp now hcheck hnarrowed

/-- `alarm_task` rings for the sample alarm, the user dismisses it, and the next check comes when
its minute is over. -/
theorem stays_dismissed_iff_passed :
    ∃ trace s, Run (fun _ => none) forward (boot 1000 .zero .zero) trace s ∧
      ChecksDismissed trace [.silenced .alarm (some 0), .readAlarm .alarm 0] 0 1120 1180 ∧
      (StaysDismissed trace ↔ ClockMovesOn trace) := by
  obtain ⟨s, hrun⟩ := execute_trace
    (show (execute (step fun _ => none) forward
      ([.tick 1100, .alarm 0, .alarm 0, .alarm 11, .tick 1180] ++ List.replicate 4 (.alarm 0))
        (boot 1000 .zero .zero)).map Prod.snd =
      some ([.readAlarm .alarm 0, .checked .alarm 0 1120 1100, .ringing .alarm (some 0),
        .polled .alarmRing .confirm] ++ .dismissed 0 ::
        ([.silenced .alarm (some 0), .readAlarm .alarm 0] ++ .checked .alarm 0 1120 1180 :: []))
      by decide)
  exact ⟨_, s, hrun, ⟨⟨_, _, .alarm, rfl⟩, by decide⟩, stays_dismissed_iff hrun⟩

/-- An alarm set in the editor rings, the user dismisses it, and the next check of the main loop
opens the ringing screen for it again. -/
theorem dismissed_rings_again :
    ∃ trace s, Run (fun _ => none) forward (boot 1000 .zero .zero) trace s ∧
      ¬ StaysDismissed trace := by
  obtain ⟨s, hrun⟩ := execute_trace
    (show (execute (step fun _ => none) forward
      (List.replicate 3 (.main 0) ++ [.main 5, .main 0, .main 0, .main 11, .main 11] ++
        List.replicate 10 (.main 0) ++ [.main 11] ++ List.replicate 9 (.main 0))
        (boot 1000 .zero .zero)).map Prod.snd =
      some ([.committed 0 0, .entered, .polled .clock .alarmSettingActivity,
        .polled .editor .confirm, .polled .confirm .confirm, .committed 1 1000, .named 1,
        .counted, .posted .lightOn, .readAlarm .main 0, .checked .main 0 0 1000,
        .readAlarm .main 1, .checked .main 1 1000 1000, .ringing .main (some 1),
        .polled .ringing .confirm, .posted .alarm] ++ .dismissed 1 ::
        ([.silenced .main (some 1), .polled .clock .blank, .readAlarm .main 0,
          .checked .main 0 0 1000, .readAlarm .main 1] ++ .checked .main 1 1000 1000 ::
        [.ringing .main (some 1)])) by decide)
  refine ⟨_, s, hrun, fun hstays => ?_⟩
  have hquiet := hstays _ 1 1000 1000 ⟨⟨_, _, .main, rfl⟩, by decide⟩
  exact absurd hquiet (by decide)

end SaiyuanClock
