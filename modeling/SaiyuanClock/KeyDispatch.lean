import SaiyuanClock.Frames

/-!
# What the main task posts

The key dispatch of `activity_clock_main` posts a command for the ringtone and the light keys, and
every round of the ringing screen posts the alarm. The case of the alarm-setting key lacks its
`break`, so the light-on command is posted as well when the editor returns. The main theorem,
`posts_as_asked_iff`, says in which runs nothing but what the user asked for is posted.
-/

namespace SaiyuanClock

open LabelledSteps

/-- The index that the main task posts by an event. The data-sync command is posted by
`echo_task`. -/
def Event.mainPost : Event → List Nat
  | .posted .dataSync => []
  | .posted command => [command.code]
  | _ => []

/-- The indices that an event asks for: a key at the clock, or a round of the ringing screen. -/
def Event.asked : Event → List Nat
  | .polled .clock .alarmRingtoneActivity => [Command.beep.code]
  | .polled .clock .lightOn => [Command.lightOn.code]
  | .polled .clock .lightOff => [Command.lightOff.code]
  | .polled .ringing _ => [Command.alarm.code]
  | _ => []

/-- The user leaves the alarm editor. -/
def Event.leavesEditor : Event → Bool
  | .polled .editor key => key = .cancel
  | .polled .confirm key => key = .confirm
  | _ => false

/-- The indices that are posted because of an event. -/
def Event.causes (event : Event) : List Nat :=
  event.asked ++ if event.leavesEditor then [Command.lightOn.code] else []

/-- The index that the main task is about to post. -/
def MainPc.pendingPost : MainPc → List Nat
  | .postIndex command => Event.mainPost (.posted command)
  | .ringRaise _ _ | .ringIndex _ _ => [Command.alarm.code]
  | .commitTime _ _ | .commitTimestamp _ _ | .commitString _ | .commitCount =>
      [Command.lightOn.code]
  | _ => []

/-- Events by which the main task posts nothing and which ask for nothing. -/
def PostNothing (events : List Event) : Prop :=
  events.flatMap Event.mainPost = [] ∧ events.flatMap Event.causes = []

/-- Events of which each posts nothing and asks for nothing. -/
theorem post_nothing {events : List Event}
    (h : ∀ event ∈ events, event.mainPost = [] ∧ event.causes = []) : PostNothing events :=
  ⟨List.flatMap_eq_nil_iff.mpr fun event hmem => (h event hmem).1,
    List.flatMap_eq_nil_iff.mpr fun event hmem => (h event hmem).2⟩

/-- The other tasks and the surroundings post nothing in the sense of the main task. -/
theorem other_posts_nothing {memory : Nat → Option UInt8} {s : System} {action : Action}
    (h : ¬ ∃ keyScan, action = .main keyScan) : PostNothing (act memory s action).2 := by
  cases action with
  | main keyScan => exact absurd ⟨keyScan, rfl⟩ h
  | echo available =>
      refine post_nothing ?_
      intro event hmem
      have hfrom := echo_step_from memory available s event hmem
      cases event <;> simp_all [Event.fromEcho, Event.mainPost, Event.causes, Event.asked,
        Event.leavesEditor]
  | alarm keyScan =>
      refine post_nothing ?_
      intro event hmem
      have hfrom := alarm_step_from keyScan s event hmem
      cases event <;> simp_all [Event.fromAlarm, Event.mainPost, Event.causes, Event.asked,
        Event.leavesEditor]
  | arrive bytes | tick now => exact ⟨rfl, rfl⟩

/-- A step of the main task posts what was pending, and what its events cause is posted or
pending afterwards. -/
theorem main_step_posts (keyScan : Nat) (s : System) :
    (mainStep keyScan s).2.flatMap Event.mainPost ++ (mainStep keyScan s).1.main.pendingPost =
      s.main.pendingPost ++ (mainStep keyScan s).2.flatMap Event.causes := by
  cases hpc : s.main <;> simp only [mainStep, hpc]
  case poll => cases buttonKeyCheck keyScan <;> rfl
  case postIndex command => cases command <;> rfl
  case checkAlarm =>
    split
    · split
      · show _ ++ s.main.pendingPost = _
        rw [hpc]
        rfl
      · split <;> rfl
    · rfl
  case ringWait cause key =>
    split
    · cases cause <;> rfl
    · split <;> rfl
  case snoozeFind cause =>
    have hreads : PostNothing ((List.range s.vars.alarmCount).map (Event.readAlarm .main)) :=
      post_nothing (by simp [Event.mainPost, Event.causes, Event.asked, Event.leavesEditor])
    split
    · show List.flatMap _ _ ++ s.main.pendingPost = _
      rw [hpc, List.flatMap_append, List.flatMap_append, hreads.1, hreads.2]
      rfl
    · rw [hreads.1, hreads.2]
      rfl
  case snoozeDelay cause => cases cause <;> rfl
  case editorPoll time timeStr =>
    cases buttonKeyCheck keyScan <;> rfl
  case editorConfirm time timeStr =>
    cases buttonKeyCheck keyScan <;> rfl
  case commitTime time timeStr =>
    simp only [System.gotoMain]
    split <;> rfl
  all_goals rfl

/-- A step posts what was pending in the main task, and what its events cause is posted or pending
afterwards. -/
theorem act_posts (memory : Nat → Option UInt8) (s : System) (action : Action) :
    (act memory s action).2.flatMap Event.mainPost ++
        (act memory s action).1.main.pendingPost =
      s.main.pendingPost ++ (act memory s action).2.flatMap Event.causes := by
  by_cases hmain : ∃ keyScan, action = .main keyScan
  · obtain ⟨keyScan, rfl⟩ := hmain
    exact main_step_posts keyScan s
  · have hother := (act_other memory s action).resolve_left hmain
    obtain ⟨hposts, hcauses⟩ : PostNothing (act memory s action).2 := other_posts_nothing hmain
    rw [hposts, hcauses, hother.main]
    simp

/-- What the main task has posted and is about to post is what the events so far cause, in their
order. -/
theorem run_posts {memory : Nat → Option UInt8} {allowed : System → Action → Prop} {clock : Int}
    {data dataDest : Buffer} {trace : List Event} {s : System}
    (hrun : Run memory allowed (boot clock data dataDest) trace s) :
    trace.flatMap Event.mainPost ++ s.main.pendingPost = trace.flatMap Event.causes := by
  refine hrun.invariant
    (fun s trace => trace.flatMap Event.mainPost ++ s.main.pendingPost =
      trace.flatMap Event.causes) rfl ?_
  intro trace s emitted next _ hposts hstep
  obtain ⟨action, -, -, rfl, rfl⟩ := step_of_iff.mp hstep
  rw [List.flatMap_append, List.flatMap_append, List.append_assoc, act_posts, ← List.append_assoc,
    hposts]

/-- The posts that leaving the editor causes come on top of those that are asked for. -/
theorem length_causes (trace : List Event) :
    (trace.flatMap Event.causes).length =
      (trace.flatMap Event.asked).length + trace.countP Event.leavesEditor := by
  induction trace with
  | nil => rfl
  | cons event trace ih =>
      simp only [List.flatMap_cons, List.length_append, ih, Event.causes, List.countP_cons]
      split
      · simp
        omega
      · simp
        omega

/-- What the events of a trace cause is what the user asks for exactly when the user has not left an
alarm editor. -/
theorem causes_eq_asked_iff (trace : List Event) :
    trace.flatMap Event.causes = trace.flatMap Event.asked ↔
      ∀ event ∈ trace, event.leavesEditor = false := by
  constructor
  · intro hasked event hmem
    have hlength := congrArg List.length hasked
    rw [length_causes] at hlength
    have hnone : trace.countP Event.leavesEditor = 0 := by omega
    simpa using List.countP_eq_zero.mp hnone event hmem
  · intro hstays
    refine List.flatMap_congr ?_
    intro event hmem
    simp [Event.causes, hstays event hmem]

/-- Where the main task is not about to post anything, it has posted exactly what the user asked
for, in this order, unless the user has left an alarm editor. -/
theorem posted_eq_asked_iff {memory : Nat → Option UInt8} {allowed : System → Action → Prop}
    {clock : Int} {data dataDest : Buffer} {trace : List Event} {s : System}
    (hrun : Run memory allowed (boot clock data dataDest) trace s)
    (hidle : s.main.pendingPost = []) :
    trace.flatMap Event.mainPost = trace.flatMap Event.asked ↔
      ∀ event ∈ trace, event.leavesEditor = false := by
  rw [← causes_eq_asked_iff, ← run_posts hrun, hidle, List.append_nil]

/-- In every run, whatever the order of the steps, the main task posts exactly what the user asks
for, in this order, as long as the user has not left an alarm editor, and no longer. -/
theorem posts_as_asked_iff {memory : Nat → Option UInt8} {allowed : System → Action → Prop}
    {clock : Int} {data dataDest : Buffer} {trace : List Event} {s : System}
    (hrun : Run memory allowed (boot clock data dataDest) trace s) :
    trace.flatMap Event.mainPost ++ s.main.pendingPost = trace.flatMap Event.asked ↔
      ∀ event ∈ trace, event.leavesEditor = false := by
  rw [run_posts hrun]
  exact causes_eq_asked_iff trace

/-- The light-on key posts the light-on command, a round of the ringing screen the alarm. -/
theorem posts_as_asked_iff_light_on :
    ∃ trace s, Run (fun _ => none) anyOrder (boot 1000 .zero .zero) trace s ∧
      trace.flatMap Event.asked = [Command.lightOn.code, Command.alarm.code] ∧
      trace.flatMap Event.mainPost = [Command.lightOn.code, Command.alarm.code] ∧
      s.main.pendingPost = [] ∧
      trace.flatMap Event.mainPost ++ s.main.pendingPost = trace.flatMap Event.asked := by
  obtain ⟨trace, s, hrun, hobserved⟩ := execute_observe
    (fun result : System × List Event =>
      (result.2.flatMap Event.asked, result.2.flatMap Event.mainPost, result.1.main.pendingPost,
        result.2.all fun event => !event.leavesEditor))
    (show (execute (step fun _ => none) anyOrder
      (List.replicate 3 (.main 0) ++ [.main 8] ++ List.replicate 6 (.main 0) ++ [.main 2] ++
        List.replicate 4 (.main 0)) (boot 1000 .zero .zero)).map (fun result =>
          (result.2.flatMap Event.asked, result.2.flatMap Event.mainPost,
            result.1.main.pendingPost, result.2.all fun event => !event.leavesEditor)) =
      some ([Command.lightOn.code, Command.alarm.code], [Command.lightOn.code, Command.alarm.code],
        [], true) by decide)
  simp only [Prod.mk.injEq] at hobserved
  obtain ⟨hasked, hposted, hidle, hstays⟩ := hobserved
  refine ⟨trace, s, hrun, hasked, hposted, hidle, (posts_as_asked_iff hrun).mpr ?_⟩
  simpa using hstays

/-- Opening the alarm editor and leaving it with CANCEL posts the light-on command. -/
theorem leaving_editor_posts_light_on :
    ∃ trace s, Run (fun _ => none) anyOrder (boot 1000 .zero .zero) trace s ∧
      trace.flatMap Event.asked = [] ∧
      trace.flatMap Event.mainPost = [Command.lightOn.code] ∧
      trace.flatMap Event.mainPost ++ s.main.pendingPost ≠ trace.flatMap Event.asked := by
  obtain ⟨trace, s, hrun, hobserved⟩ := execute_observe
    (fun result : System × List Event =>
      (result.2.flatMap Event.asked, result.2.flatMap Event.mainPost))
    (show (execute (step fun _ => none) anyOrder
      (List.replicate 3 (.main 0) ++ [.main 5, .main 0, .main 0, .main 14, .main 0])
        (boot 1000 .zero .zero)).map (fun result =>
          (result.2.flatMap Event.asked, result.2.flatMap Event.mainPost)) =
      some ([], [Command.lightOn.code]) by decide)
  obtain ⟨hasked, hposted⟩ := Prod.mk.inj hobserved
  refine ⟨trace, s, hrun, hasked, hposted, ?_⟩
  intro hsame
  rw [hasked, hposted] at hsame
  cases hsame

end SaiyuanClock
