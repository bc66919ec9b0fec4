import SaiyuanClock.Frames

/-!
# The loop of the clock screen

An iteration of `activity_clock_main` polls the keypad, dispatches the key, and checks the alarms.
The case of the main-activity key is the only one that goes back to the head of the loop: it
`continue`s, so that an alarm that is due is not noticed in that iteration. The alarm check takes
one step per entry; `main_checks_alarms` shows that these steps compute `checkAlarms`.
-/

namespace SaiyuanClock

open LabelledSteps

/-- The alarm check of the main task alone, from entry `i` on: it opens the ringing screen if one
of the remaining alarms is due. -/
theorem main_checks_from {memory : Nat → Option UInt8} {s : System} {i : Nat}
    {alarms : List Alarm} (hrunning : s.halted = false)
    (hmain : s.main = .checkAlarm i s.vars.alarmCount)
    (hcount : s.vars.alarmCount ≤ 8) (halarms : s.vars.stored.drop i = alarms) :
    ∃ trace j, Run memory (onlyTask .main) s trace
      (s.gotoMain (if alarms.any fun alarm => checkAlarm alarm.alarmTimestamp s.clock
        then .ringDelay (some j) else .clockDelay)) := by
  have hstep : Run memory (onlyTask .main) s _ _ := run_act memory (.main 0) rfl hrunning
  induction alarms generalizing s i with
  | nil =>
      have hpast : ¬ i < s.vars.alarmCount := by
        have hlength := List.drop_eq_nil_iff.mp halarms
        rw [StaticVars.stored_length hcount] at hlength
        omega
      have hend : (act memory s (.main 0)).1 = s.gotoMain .clockDelay := by
        simp [act, mainStep, hmain, hpast]
      rw [hend] at hstep
      exact ⟨_, 0, hstep⟩
  | cons alarm alarms ih =>
      obtain ⟨hi, hget⟩ := StaticVars.get_of_stored_drop halarms
      by_cases hdue : checkAlarm alarm.alarmTimestamp s.clock = true
      · have hring : (act memory s (.main 0)).1 = s.gotoMain (.ringDelay (some i)) := by
          simp [act, mainStep, hmain, hi, hget, hdue]
        rw [hring] at hstep
        exact ⟨_, i, by simpa [hdue] using hstep⟩
      · have hnext : (act memory s (.main 0)).1 =
            s.gotoMain (.checkAlarm (i + 1) s.vars.alarmCount) := by
          simp [act, mainStep, hmain, hi, hget, hdue]
        rw [hnext] at hstep
        have hdrop : s.vars.stored.drop (i + 1) = alarms := by
          rw [← List.tail_drop, halarms, List.tail_cons]
        obtain ⟨trace, j, hrun⟩ := ih
          (s := s.gotoMain (.checkAlarm (i + 1) s.vars.alarmCount)) hrunning rfl hcount hdrop
          (run_act memory (.main 0) rfl hrunning)
        rw [List.any_cons, Bool.eq_false_iff.mpr hdue, Bool.false_or]
        exact ⟨_, j, hstep.trans hrun⟩

/-- The steps of the alarm check of the main task alone compute `checkAlarms`. -/
theorem main_checks_alarms {memory : Nat → Option UInt8} {s : System}
    (hrunning : s.halted = false) (hmain : s.main = .checkAlarms)
    (hcount : s.vars.alarmCount ≤ 8) :
    ∃ trace i, Run memory (onlyTask .main) s trace
      (s.gotoMain (if checkAlarms s.vars s.clock then .ringDelay (some i) else .clockDelay)) := by
  have hstep : Run memory (onlyTask .main) s _ _ := run_act memory (.main 0) rfl hrunning
  have hbegin : (act memory s (.main 0)).1 =
      s.gotoMain (.checkAlarm 0 s.vars.alarmCount) := by
    simp [act, mainStep, hmain]
  rw [hbegin] at hstep
  obtain ⟨trace, i, hrun⟩ :=
    main_checks_from (s := s.gotoMain (.checkAlarm 0 s.vars.alarmCount)) hrunning rfl hcount rfl
  exact ⟨_, i, hstep.trans hrun⟩

/-- A stored alarm less than a minute from the clock. -/
def DueAt (k : Nat) (s : System) : Prop :=
  k < s.vars.alarmCount ∧ (s.clock - s.vars.timestamp k).natAbs < 60

/-- Whether an alarm is due is decidable. -/
instance (k : Nat) (s : System) : Decidable (DueAt k s) :=
  inferInstanceAs (Decidable (_ ∧ _))

/-- Inside an iteration: the main task is not at the head of its loop, and the alarm is due. -/
def insideIteration (k : Nat) (s : System) (_ : Action) : Prop := s.main ≠ .poll ∧ DueAt k s

/-- Whether a step belongs to the iteration is decidable. -/
instance (k : Nat) (s : System) (action : Action) : Decidable (insideIteration k s action) :=
  inferInstanceAs (Decidable (_ ∧ _))

/-- An iteration of the clock screen in which the key number `keyScan` is read and the alarm `k` is
due throughout: the poll, and any steps of any task up to the next time at the head of the loop. -/
structure Iteration (memory : Nat → Option UInt8) (k keyScan : Nat) (start : System)
    (trace : List Event) (finish : System) : Prop where
  atPoll : start.main = .poll
  due : DueAt k start
  running : start.halted = false
  steps : ∃ rest, trace = (mainStep keyScan start).2 ++ rest ∧
    Run memory (insideIteration k) (mainStep keyScan start).1 rest finish
  backAtPoll : finish.main = .poll

/-- The ringing screen was entered and an alarm command was posted. -/
def Rings (trace : List Event) : Prop :=
  (∃ cause, .ringing .main cause ∈ trace) ∧ .posted .alarm ∈ trace

/-- How far the main task is on the way to the ringing screen, with the events of the iteration so
far, when the alarm `k` is due: before the alarm check, in the check at an entry up to `k`, in the
ringing screen, or done. -/
def Progress (k : Nat) (trace : List Event) : MainPc → Prop
  | .seedAlarm | .seedCapacity | .seedCount => False
  | .checkAlarm i alarmCount => Rings trace ∨ i ≤ k ∧ k < alarmCount
  | .ringDelay _ | .ringPoll _ | .ringRaise _ _ | .ringIndex _ _ =>
      ∃ cause, .ringing .main cause ∈ trace
  | .ringFlag _ _ | .ringWait _ _ | .snoozeFind _ | .snoozeWrite _ _ | .snoozeDelay _
  | .ringAgain _ | .clockDelay | .poll => Rings trace
  | _ => True

/-- Later events do not undo the ringing. -/
theorem Rings.append {trace : List Event} (h : Rings trace) (events : List Event) :
    Rings (trace ++ events) := by
  obtain ⟨⟨cause, hentered⟩, hposted⟩ := h
  exact ⟨⟨cause, List.mem_append_left _ hentered⟩, List.mem_append_left _ hposted⟩

/-- Later events do not undo the progress. -/
theorem Progress.append {k : Nat} {trace : List Event} {pc : MainPc} (h : Progress k trace pc)
    (events : List Event) : Progress k (trace ++ events) pc := by
  cases pc
  case seedAlarm | seedCapacity | seedCount => exact h
  case checkAlarm => exact h.imp_left fun hrings => hrings.append events
  case ringDelay | ringPoll | ringRaise | ringIndex =>
    obtain ⟨cause, hentered⟩ := h
    exact ⟨cause, List.mem_append_left _ hentered⟩
  case ringFlag | ringWait | snoozeFind | snoozeWrite | snoozeDelay | ringAgain | clockDelay |
      poll =>
    exact Rings.append h events
  all_goals trivial

/-- Once it has rung, the main task returns from the ringing screen with its progress. -/
theorem Rings.after_ringing {k : Nat} {trace : List Event} (h : Rings trace)
    (cause : Option Nat) : Progress k trace (afterRinging cause) := by
  cases cause with
  | none => trivial
  | some i => exact h

/-- A key other than the main-activity key leads to the alarm check or to the ringing screen. -/
theorem dispatch_progress {k : Nat} {key : ButtonKey} (h : key ≠ .mainActivity) :
    Progress k (.polled .clock key ::
      if key = .alarmActivity then [.ringing .main none] else []) (dispatch key) := by
  cases key
  case mainActivity => exact absurd rfl h
  case alarmActivity => exact ⟨none, by simp⟩
  all_goals trivial

/-- Inside an iteration in which the alarm `k` is due, a step of the main task keeps the progress:
the alarm check does not pass the entry `k`. -/
theorem main_step_progress {k : Nat} (keyScan : Nat) {s : System} {trace : List Event}
    (hinside : s.main ≠ .poll) (hdue : DueAt k s) (h : Progress k trace s.main) :
    Progress k (trace ++ (mainStep keyScan s).2) (mainStep keyScan s).1.main := by
  cases hpc : s.main <;> rw [hpc] at h <;> simp only [mainStep, hpc]
  case poll => exact absurd hpc hinside
  case seedAlarm | seedCapacity | seedCount => exact absurd h id
  case checkAlarms => exact .inr ⟨Nat.zero_le k, hdue.1⟩
  case checkAlarm i alarmCount =>
    split
    · next hi =>
      cases hget : s.vars.alarms[i]? with
      | none =>
          rw [← hpc] at h
          exact h.append _
      | some alarm =>
          simp only
          split
          · exact ⟨some i, by simp⟩
          · next hquiet =>
            rcases h with hrings | ⟨hle, hlt⟩
            · exact .inl (hrings.append _)
            · -- the check does not pass the alarm that is due
              have hne : i ≠ k := by
                intro heq
                subst heq
                have hnear := hdue.2
                rw [StaticVars.timestamp_of_get hget] at hnear
                exact hquiet (check_alarm_of_near (by omega) (by omega))
              exact .inr ⟨by omega, hlt⟩
    · next hi =>
      rcases h with hrings | ⟨hle, hlt⟩
      · exact hrings.append _
      · omega
  case ringDelay | ringPoll | ringRaise => exact Progress.append h _
  case ringIndex =>
    obtain ⟨cause, hentered⟩ := h
    exact ⟨⟨cause, List.mem_append_left _ hentered⟩, by simp⟩
  case ringFlag | snoozeWrite | clockDelay => exact Rings.append h _
  case ringAgain =>
    obtain ⟨⟨cause, hentered⟩, -⟩ := h
    exact ⟨cause, List.mem_append_left _ hentered⟩
  case ringWait cause key =>
    split
    · exact (Rings.append h _).after_ringing cause
    · split <;> exact Rings.append h _
  case snoozeFind =>
    split
    · rw [← hpc] at h
      exact h.append _
    · exact Rings.append h _
  case snoozeDelay cause => exact (Rings.append h _).after_ringing cause
  case editorPoll =>
    cases buttonKeyCheck keyScan <;> trivial
  case editorConfirm | commitTime =>
    simp only [System.gotoMain]
    split <;> trivial
  all_goals trivial

/-- Inside an iteration in which the alarm `k` is due, every step keeps the progress. -/
theorem act_progress {memory : Nat → Option UInt8} {k : Nat} {s : System} {trace : List Event}
    (action : Action) (hinside : insideIteration k s action) (h : Progress k trace s.main) :
    Progress k (trace ++ (act memory s action).2) (act memory s action).1.main := by
  cases action with
  | main keyScan => exact main_step_progress keyScan hinside.1 hinside.2 h
  | echo available =>
      have hmain := (echo_step_frame memory available s).main
      rw [act, hmain]
      exact h.append _
  | alarm keyScan =>
      have hmain := (alarm_step_frame keyScan s).main
      rw [act, hmain]
      exact h.append _
  | arrive bytes | tick now => exact h.append _

/-- In an iteration in which an alarm is due throughout, the ringing screen is entered and an
alarm command is posted exactly when the key read is not the main-activity key. -/
theorem iteration_rings_iff {memory : Nat → Option UInt8} {k keyScan : Nat}
    {start finish : System} {trace : List Event}
    (h : Iteration memory k keyScan start trace finish) :
    Rings trace ↔ getKey keyScan ∉ ['1', '*', '#', 'D'] := by
  obtain ⟨hpoll, hdue, -, ⟨rest, rfl, hrun⟩, hback⟩ := h
  rw [← button_key_check_main_iff]
  constructor
  · rintro ⟨⟨cause, hentered⟩, -⟩ hkey
    have hstay : (mainStep keyScan start).1.main = .poll := by
      simp [mainStep, hpoll, hkey, dispatch, System.gotoMain]
    obtain ⟨rfl, -⟩ := hrun.eq_nil_of_stuck fun emitted next hstep => by
      obtain ⟨action, hinside, -⟩ := step_of_iff.mp hstep
      exact hinside.1 hstay
    simp [mainStep, hpoll, hkey] at hentered
  · intro hkey
    have hfirst : Progress k (mainStep keyScan start).2 (mainStep keyScan start).1.main := by
      simp only [mainStep, hpoll]
      exact dispatch_progress hkey
    have hlast := hrun.invariant
      (fun state events => Progress k ((mainStep keyScan start).2 ++ events) state.main)
      (by simpa using hfirst) (by
        intro events state emitted next _ hinv hstep
        obtain ⟨action, hinside, -, rfl, rfl⟩ := step_of_iff.mp hstep
        rw [← List.append_assoc]
        exact act_progress action hinside hinv)
    rw [hback] at hlast
    exact hlast

/-- The sample alarm of `app_main` becomes due while no key is pressed: the ringing screen is
entered and posts its command. -/
theorem iteration_rings_iff_sample :
    ∃ trace finish, Iteration (fun _ => none) 0 0
        { boot 1000 .zero .zero with main := .poll, clock := 1120 } trace finish ∧
      (Rings trace ↔ getKey 0 ∉ ['1', '*', '#', 'D']) := by
  obtain ⟨rest, finish, hrun, hback⟩ := execute_observe
    (fun result : System × List Event => result.1.main)
    (show (execute (step fun _ => none) (insideIteration 0)
      (List.replicate 3 (.main 0) ++ [.main 11] ++ List.replicate 5 (.main 0))
        (mainStep 0 { boot 1000 .zero .zero with main := .poll, clock := 1120 }).1).map
          (fun result => result.1.main) = some .poll by decide)
  have hiteration : Iteration (fun _ => none) 0 0
      { boot 1000 .zero .zero with main := .poll, clock := 1120 } _ finish :=
    ⟨rfl, by decide, rfl, ⟨rest, rfl, hrun⟩, hback⟩
  exact ⟨_, finish, hiteration, iteration_rings_iff hiteration⟩

/-- An alarm set in the editor for an hour ahead becomes due, and the key `#` is read in that
iteration: its default function is the main activity, and the alarm is not noticed. -/
theorem hash_key_skips_alarm :
    ∃ past start trace finish, Run (fun _ => none) anyOrder (boot 1000 .zero .zero) past start ∧
      getKey 15 = '#' ∧ Iteration (fun _ => none) 1 15 start trace finish ∧ ¬ Rings trace := by
  obtain ⟨past, start, hrun, hobserved⟩ := execute_observe
    (fun result : System × List Event => (result.1.main, result.1.halted, result.1.clock,
      result.1.vars.alarmCount, result.1.vars.timestamp 1))
    (show (execute (step fun _ => none) anyOrder
      (List.replicate 3 (.main 0) ++ [.main 5, .main 0, .main 0, .main 6, .main 0, .main 11,
        .main 11] ++ List.replicate 11 (.main 0) ++ [.tick 4600]) (boot 1000 .zero .zero)).map
        (fun result => (result.1.main, result.1.halted, result.1.clock,
          result.1.vars.alarmCount, result.1.vars.timestamp 1)) =
      some (.poll, false, 4600, 2, 4600) by decide)
  obtain ⟨hpoll, hrunning, hclock, hcount, htimestamp⟩ : start.main = .poll ∧
      start.halted = false ∧ start.clock = 4600 ∧ start.vars.alarmCount = 2 ∧
      start.vars.timestamp 1 = 4600 := by simpa using hobserved
  refine ⟨past, start, _, _, hrun, rfl, ⟨hpoll, ?_, hrunning, ⟨[], rfl, .refl _⟩, ?_⟩, ?_⟩
  · simp [DueAt, hclock, hcount, htimestamp]
  · simp [mainStep, hpoll, System.gotoMain, buttonKeyCheck, getKey, buttonKeyTransform, dispatch]
  · simp [Rings, mainStep, hpoll, buttonKeyCheck, getKey, buttonKeyTransform]

end SaiyuanClock
