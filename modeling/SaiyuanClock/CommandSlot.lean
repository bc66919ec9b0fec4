import SaiyuanClock.Frames
import SaiyuanClock.Library.Mailbox

/-!
# The command slot

`command_last_index` and `isCommand` form the mailbox of `Library/Mailbox.lean`: the main task
is its producer, `echo_task` its consumer, which posts the data-sync reply itself. `slotView` maps
a state of the firmware to a state of the mailbox, and every step is a step of the mailbox or does
not concern it (`main_step_slot`, `echo_step_slot`, `alarm_step_slot`). The results about the slot
follow from those about the mailbox.
-/

namespace SaiyuanClock

open LabelledSteps Mailbox

/-- How far the main task is in a post. -/
def MainPc.producer : MainPc → Producer
  | .postFlag | .ringFlag _ _ => .written
  | .ringIndex _ _ => .raised
  | _ => .idle

/-- The program points at which the main task is about to write to the slot. -/
def MainPc.writesSlot : MainPc → Bool
  | .postIndex _ | .postFlag | .ringRaise _ _ | .ringIndex _ _ | .ringFlag _ _ => true
  | _ => false

/-- Where `echo_task` is with respect to the slot. -/
def EchoPc.consumer : EchoPc → Consumer Nat
  | .sendSection _ comparisons => .testing (comparisons.map Command.code)
  | .dataSyncDelay _ => .asleep
  | .replyIndex _ => .posting
  | _ => .outside

/-- The command slot of a state. -/
def slotView (s : System) : State Nat where
  value := s.vars.commandLastIndex
  flag := s.vars.isCommand
  producer := s.main.producer
  consumer := s.echo.consumer

/-- What an event does to the command slot. -/
def slotEvent : Event → Option (SlotEvent Nat)
  | .posted command => some (.post command.code)
  | .sent message => message.command.map fun command => .send command.code
  | .reset => some .reset
  | _ => none

/-- The events of a trace that concern the command slot. -/
def slotEvents (trace : List Event) : List (SlotEvent Nat) := trace.filterMap slotEvent

/-- The commands posted in a trace, by their index. -/
def postedIndices (trace : List Event) : List Nat := posts (slotEvents trace)

/-- The commands transmitted in a trace, by their index. -/
def transmittedIndices (trace : List Event) : List Nat := sends (slotEvents trace)

/-- The values of `command_last_index` in the order of the comparisons. -/
def codes : List Nat := Command.all.map Command.code

/-- After transmitting a data-sync frame `echo_task` sleeps. -/
def sleeps (code : Nat) : Bool := code == Command.dataSync.code

/-- Every command is one that `echo_task` compares with. -/
theorem code_mem_codes (command : Command) : command.code ∈ codes := by
  cases command <;> decide

/-- After the ringing screen no post is in progress. -/
theorem after_ringing_producer (cause : Option Nat) :
    (afterRinging cause).producer = .idle := by
  cases cause <;> rfl

/-- Outside a round `echo_task` moves on without touching the slot. -/
theorem slot_view_goto_echo {s : System} {pc : EchoPc} (hout : s.echo.consumer = .outside)
    (hpc : pc.consumer = .outside) : slotView (s.gotoEcho pc) = slotView s := by
  simp [slotView, System.gotoEcho, hpc, hout]

/-- Only the writes of a post change the slot. -/
theorem write_slot {pc : MainPc} (vars : StaticVars) (h : pc.writesSlot = false) :
    (pc.write vars).commandLastIndex = vars.commandLastIndex ∧
      (pc.write vars).isCommand = vars.isCommand := by
  cases pc <;> simp_all [MainPc.writesSlot, MainPc.write]

/-- A post goes on only with a write. -/
theorem producer_next {pc next : MainPc} (h : pc.writesSlot = false)
    (hnext : MainPc.Next next pc) : pc.producer = .idle ∧ next.producer = .idle := by
  cases pc <;> simp only [MainPc.Next] at hnext <;> grind [MainPc.writesSlot, MainPc.producer]

/-- Only the writes of a post concern the slot. -/
theorem slot_event_main {pc : MainPc} {event : Event} (h : pc.writesSlot = false)
    (hemits : pc.emits event = true) : slotEvent event = none := by
  cases event
  case posted | sent | reset => cases pc <;> simp_all [MainPc.writesSlot, MainPc.emits]
  all_goals rfl

/-- A step of the main task is a step of the producer or does not concern the slot. -/
theorem main_step_slot (keyScan : Nat) (s : System) :
    s.main.writesSlot = true ∧ ProducerStep codes (slotView s)
        (slotEvents (mainStep keyScan s).2) (slotView (mainStep keyScan s).1) ∨
      slotView (mainStep keyScan s).1 = slotView s ∧ slotEvents (mainStep keyScan s).2 = [] := by
  cases hwrites : s.main.writesSlot with
  | true =>
      refine .inl ⟨rfl, ?_⟩
      have hproducer : (slotView s).producer = s.main.producer := rfl
      cases hpc : s.main <;> rw [hpc] at hwrites hproducer <;> simp only [mainStep, hpc]
      case postIndex command => exact .write _ _ (code_mem_codes command) hproducer
      case postFlag => exact .raise _ hproducer
      case ringRaise => exact .raiseFirst _ hproducer
      case ringIndex => exact .writeRaised _ _ (code_mem_codes .alarm) hproducer
      case ringFlag => exact .raise _ hproducer
      all_goals simp [MainPc.writesSlot] at hwrites
  | false =>
      have hecho := (main_step_frame keyScan s).echo
      obtain ⟨hindex, hflag⟩ := write_slot s.vars hwrites
      rw [← main_step_vars keyScan s] at hindex hflag
      obtain ⟨hidle, hnext⟩ := producer_next hwrites (main_step_next keyScan s)
      refine .inr ⟨?_, List.filterMap_eq_nil_iff.mpr fun event hmem =>
        slot_event_main hwrites (main_step_emits keyScan s event hmem)⟩
      rw [slotView, slotView, hindex, hflag, hnext, hecho, hidle]

/-- A step of `echo_task` is a step of the consumer or does not concern the slot. -/
theorem echo_step_slot (memory : Nat → Option UInt8) (available : Nat) (s : System) :
    ConsumerStep codes sleeps (slotView s) (slotEvents (echoStep memory available s).2)
        (slotView (echoStep memory available s).1) ∨
      slotView (echoStep memory available s).1 = slotView s ∧
        slotEvents (echoStep memory available s).2 = [] := by
  have hconsumer : (slotView s).consumer = s.echo.consumer := rfl
  cases hpc : s.echo <;> rw [hpc] at hconsumer <;> simp only [echoStep, hpc]
  case testFlag len =>
    split
    · next hflag => exact .inl (.begin _ hconsumer hflag)
    · exact .inr ⟨slot_view_goto_echo hconsumer rfl, rfl⟩
  case sendSection len comparisons =>
    cases comparisons with
    | nil => exact .inl (.clear _ hconsumer)
    | cons command comparisons =>
        simp only
        split
        · next heq =>
          cases command <;> exact .inl (.hit _ _ _ hconsumer heq)
        · next hne => exact .inl (.miss _ _ _ hconsumer hne)
  case dataSyncDelay => exact .inl (.wake _ hconsumer)
  case replyFlag => exact .inl (.beginPost _ hconsumer)
  case replyIndex => exact .inl (.endPost _ _ (code_mem_codes .dataSync) hconsumer)
  -- the receive section
  all_goals
    right
    have hout : s.echo.consumer = .outside := hconsumer
  case readBytes | replyCopy | flush =>
    exact ⟨by simp only [slotView, hout]; rfl, rfl⟩
  case delay => exact ⟨slot_view_goto_echo hout rfl, rfl⟩
  case handle len =>
    split
    · exact ⟨slot_view_goto_echo hout rfl, rfl⟩
    · split
      · exact ⟨rfl, rfl⟩
      · refine ⟨?_, rfl⟩
        simp only [slotView, hout]
        split
        · rfl
        · split <;> rfl
  case transfer =>
    split
    · split
      · exact ⟨rfl, rfl⟩
      · split
        · exact ⟨rfl, rfl⟩
        · exact ⟨slot_view_goto_echo hout rfl, rfl⟩
    · exact ⟨slot_view_goto_echo hout rfl, rfl⟩

/-- `alarm_task` does not touch the slot. -/
theorem alarm_step_slot (keyScan : Nat) (s : System) :
    slotView (alarmStep keyScan s).1 = slotView s ∧ slotEvents (alarmStep keyScan s).2 = [] := by
  have hframe := alarm_step_frame keyScan s
  refine ⟨?_, List.filterMap_eq_nil_iff.mpr fun event hmem => ?_⟩
  · rw [slotView, slotView, hframe.vars, hframe.main, hframe.echo]
  · have hfrom := alarm_step_from keyScan s event hmem
    cases event
    case posted | sent | reset => simp [Event.fromAlarm] at hfrom
    all_goals rfl

/-- The slot of a state in which the tasks have just been created. -/
theorem slot_view_boot (clock : Int) (data dataDest : Buffer) :
    slotView (boot clock data dataDest) = State.initial 0 := rfl

/-- A run of the firmware is a run of the mailbox, for any restriction on its steps that the
restriction on the firmware's steps implies. -/
theorem slot_run {memory : Nat → Option UInt8} {allowed : System → Action → Prop}
    {abstractStep : State Nat → List (SlotEvent Nat) → State Nat → Prop}
    (hmain : ∀ s keyScan events next, allowed s (.main keyScan) → s.main.writesSlot = true →
      ProducerStep codes (slotView s) events next → abstractStep (slotView s) events next)
    (hecho : ∀ s available events next, allowed s (.echo available) →
      ConsumerStep codes sleeps (slotView s) events next → abstractStep (slotView s) events next)
    {clock : Int} {data dataDest : Buffer} {trace : List Event} {s : System}
    (h : Run memory allowed (boot clock data dataDest) trace s) :
    Steps abstractStep (.initial 0) (slotEvents trace) (slotView s) := by
  rw [← slot_view_boot clock data dataDest]
  refine h.view slotView slotEvent ?_
  intro s emitted next hstep
  obtain ⟨action, hallowed, -, rfl, rfl⟩ := step_of_iff.mp hstep
  cases action with
  | main keyScan =>
      refine (main_step_slot keyScan s).imp_left fun ⟨hwrites, hprod⟩ => ?_
      exact hmain _ _ _ _ hallowed hwrites hprod
  | echo available =>
      exact (echo_step_slot memory available s).imp_left (hecho _ _ _ _ hallowed)
  | alarm keyScan =>
      exact .inr (alarm_step_slot keyScan s)
  | arrive bytes | tick now => exact .inr ⟨rfl, rfl⟩

/-! ## Steps between blocking calls -/

/-- The program points of the main task at a blocking call, and its first one. -/
def MainPc.blocked : MainPc → Bool
  | .seedAlarm | .clockDelay | .ringDelay _ | .ringWait _ _ | .snoozeDelay _ | .ringAgain _
  | .editorDelay _ => true
  | _ => false

/-- The program points of `echo_task` at a blocking call. -/
def EchoPc.blocked : EchoPc → Bool
  | .readBytes | .dataSyncDelay _ | .delay => true
  | _ => false

/-- The main task and `echo_task` run from one blocking call to the next: each moves only while
the other is at a blocking call. -/
def switchAtBlockingCalls (s : System) : Action → Prop
  | .main _ => s.echo.blocked = true
  | .echo _ => s.main.blocked = true
  | _ => True

/-- The main task does not write to the slot while `echo_task` sleeps after a data-sync frame. -/
def spareDataSyncSleep (s : System) : Action → Prop
  | .main _ => s.main.writesSlot = true → s.echo.consumer ≠ .asleep
  | _ => True

/-- Which task may move at a blocking call is decidable. -/
instance (s : System) : ∀ action, Decidable (switchAtBlockingCalls s action)
  | .main _ => inferInstanceAs (Decidable (_ = true))
  | .echo _ => inferInstanceAs (Decidable (_ = true))
  | .alarm _ | .arrive _ | .tick _ => inferInstanceAs (Decidable True)

/-- Whether a step spares the data-sync sleep is decidable. -/
instance (s : System) : ∀ action, Decidable (spareDataSyncSleep s action)
  | .main _ => inferInstanceAs (Decidable (_ → _))
  | .echo _ | .alarm _ | .arrive _ | .tick _ => inferInstanceAs (Decidable True)

/-- At a blocking call `echo_task` is outside its send section or asleep in it. -/
theorem consumer_of_blocked {pc : EchoPc} (h : pc.blocked = true) :
    pc.consumer = .outside ∨ pc.consumer = .asleep := by
  cases pc <;> simp_all [EchoPc.blocked, EchoPc.consumer]

/-- At a blocking call the main task is not in the middle of a post. -/
theorem producer_of_blocked {pc : MainPc} (h : pc.blocked = true) : pc.producer = .idle := by
  cases pc <;> simp_all [MainPc.blocked, MainPc.producer]

/-- The command slot is a single place in which the last post wins. In every order of the steps
between blocking calls in which the main task does not post while `echo_task` sleeps after a
data-sync frame, only the last post is transmitted, and `isCommand` is reset only when the last
post has been transmitted. -/
theorem command_slot_last_post_wins {memory : Nat → Option UInt8} {clock : Int}
    {data dataDest : Buffer} {trace : List Event} {s : System}
    (h : Run memory (fun s action => switchAtBlockingCalls s action ∧ spareDataSyncSleep s action)
      (boot clock data dataDest) trace s) :
    Obeys lastPostWins none (slotEvents trace) := by
  have hrun : Steps (ExclusiveStep codes sleeps) (.initial 0) (slotEvents trace) (slotView s) := by
    refine slot_run ?_ ?_ h
    · intro s keyScan events next hallowed hwrites hprod
      have hawake := hallowed.2 hwrites
      exact .inl ⟨hprod, (consumer_of_blocked hallowed.1).resolve_right hawake⟩
    · intro s available events next hallowed hcons
      exact .inr ⟨hcons, producer_of_blocked hallowed.1⟩
  exact exclusive_last_post_wins hrun

/-- The light-on key followed by a round of `echo_task`, which transmits the command. -/
theorem command_slot_last_post_wins_light_on :
    ∃ trace s, Run (fun _ => none)
        (fun s action => switchAtBlockingCalls s action ∧ spareDataSyncSleep s action)
        (boot 1000 .zero .zero) trace s ∧
      transmittedIndices trace = [3] ∧ Obeys lastPostWins none (slotEvents trace) := by
  obtain ⟨s, hrun⟩ := execute_trace
    (show (execute (step fun _ => none)
      (fun s action => switchAtBlockingCalls s action ∧ spareDataSyncSleep s action)
      (List.replicate 3 (.main 0) ++ .main 8 :: List.replicate 5 (.main 0) ++
        List.replicate 6 (.echo 0)) (boot 1000 .zero .zero)).map Prod.snd =
      some [.committed 0 0, .entered, .polled .clock .lightOn, .posted .lightOn,
        .readAlarm .main 0, .checked .main 0 0 1000, .readBytes [], .sent .lightOn,
        .reset] by decide)
  exact ⟨_, s, hrun, by decide, command_slot_last_post_wins hrun⟩

/-- Two posts with no step of `echo_task` between them: the light-on key at one poll, the
light-off key at the next. The first command is never transmitted. -/
theorem light_on_overwritten :
    ∃ trace s, Run (fun _ => none) switchAtBlockingCalls (boot 1000 .zero .zero) trace s ∧
      ¬ Obeys noLoss none (slotEvents trace) := by
  obtain ⟨s, hrun⟩ := execute_trace
    (show (execute (step fun _ => none) switchAtBlockingCalls
      (List.replicate 3 (.main 0) ++ .main 8 :: List.replicate 6 (.main 0) ++
        [.main 12, .main 0]) (boot 1000 .zero .zero)).map Prod.snd =
      some [.committed 0 0, .entered, .polled .clock .lightOn, .posted .lightOn,
        .readAlarm .main 0, .checked .main 0 0 1000, .polled .clock .lightOff,
        .posted .lightOff] by decide)
  exact ⟨_, s, hrun, by decide⟩

/-! ## Steps between single accesses -/

/-- `echo_task` is about to compare `command_last_index` with the code that it holds. -/
def EchoPc.finds (commandLastIndex : Nat) : EchoPc → Prop
  | .sendSection _ (command :: _) => commandLastIndex = command.code
  | _ => False

/-- `echo_task` is about to find the code in `command_last_index` and to transmit it. -/
def System.transmits (s : System) : Prop := s.echo.finds s.vars.commandLastIndex

/-- The program points of the main task between two writes of one post. -/
def MainPc.midPost : MainPc → Bool
  | .postFlag | .ringIndex _ _ | .ringFlag _ _ => true
  | _ => false

/-- `echo_task` transmits nothing while the main task is between two writes of one post. -/
def sendOutsidePosts (s : System) : Action → Prop
  | .echo _ => s.transmits → s.main.midPost = false
  | _ => True

/-- Whether a comparison finds its code is decidable. -/
instance (commandLastIndex : Nat) : ∀ pc : EchoPc, Decidable (pc.finds commandLastIndex)
  | .sendSection _ (_ :: _) => inferInstanceAs (Decidable (_ = _))
  | .sendSection _ [] | .readBytes | .testFlag _ | .dataSyncDelay _ | .handle _ | .transfer _ _ _
  | .replyFlag _ | .replyIndex _ | .replyCopy _ | .flush | .delay =>
      inferInstanceAs (Decidable False)

/-- Whether `echo_task` is about to transmit is decidable. -/
instance (s : System) : Decidable s.transmits :=
  inferInstanceAs (Decidable (s.echo.finds s.vars.commandLastIndex))

/-- Whether a step sends outside posts is decidable. -/
instance (s : System) : ∀ action, Decidable (sendOutsidePosts s action)
  | .echo _ => inferInstanceAs (Decidable (_ → _))
  | .main _ | .alarm _ | .arrive _ | .tick _ => inferInstanceAs (Decidable True)

/-- Outside the middle of a post the producer is idle. -/
theorem producer_of_not_mid_post {pc : MainPc} (h : pc.midPost = false) : pc.producer = .idle := by
  cases pc <;> simp_all [MainPc.midPost, MainPc.producer]

/-- A step of the consumer that sends is one where `echo_task` finds the code. -/
theorem transmits_of_sends {s : System} {events : List (SlotEvent Nat)} {next : State Nat}
    (h : ConsumerStep codes sleeps (slotView s) events next) (hsends : sends events ≠ []) :
    s.transmits := by
  cases h with
  | hit code rest hat heq =>
      have hconsumer : s.echo.consumer = .testing (code :: rest) := hat
      have hindex : s.vars.commandLastIndex = code := heq
      unfold System.transmits EchoPc.finds
      cases hpc : s.echo with
      | sendSection len comparisons =>
          rw [hpc] at hconsumer
          cases comparisons with
          | nil => simp [EchoPc.consumer] at hconsumer
          | cons command comparisons =>
              simp only [EchoPc.consumer, List.map_cons, Consumer.testing.injEq,
                List.cons.injEq] at hconsumer
              exact hindex.trans hconsumer.1.symm
      | _ => simp [hpc, EchoPc.consumer] at hconsumer
  | begin | miss | wake | clear | beginPost | endPost => simp [sends] at hsends

/-- As long as `echo_task` transmits nothing in the middle of a post, the indices it transmits are
a subsequence of those posted, in every interleaving of the single accesses to the slot. -/
theorem transmitted_sublist_posted {memory : Nat → Option UInt8} {clock : Int}
    {data dataDest : Buffer} {trace : List Event} {s : System}
    (h : Run memory sendOutsidePosts (boot clock data dataDest) trace s) :
    (transmittedIndices trace).Sublist (postedIndices trace) := by
  have hrun : Steps (AttentiveStep codes sleeps) (.initial 0) (slotEvents trace) (slotView s) := by
    refine slot_run ?_ ?_ h
    · intro s keyScan events next _ _ hprod
      exact .inl hprod
    · intro s available events next hallowed hcons
      refine .inr ⟨hcons, fun hsends => ?_⟩
      exact producer_of_not_mid_post (hallowed (transmits_of_sends hcons hsends))
  exact sends_sublist_posts (attentive_in_order hrun)

/-- The ringtone key and a round of `echo_task` that begins when the post is complete. -/
theorem transmitted_sublist_posted_beep :
    ∃ trace s, Run (fun _ => none) sendOutsidePosts (boot 1000 .zero .zero) trace s ∧
      transmittedIndices trace = [1] ∧
      (transmittedIndices trace).Sublist (postedIndices trace) := by
  obtain ⟨s, hrun⟩ := execute_trace
    (show (execute (step fun _ => none) sendOutsidePosts
      (List.replicate 3 (.main 0) ++ [.main 3, .main 0, .main 0] ++ List.replicate 4 (.echo 0))
        (boot 1000 .zero .zero)).map Prod.snd =
      some [.committed 0 0, .entered, .polled .clock .alarmRingtoneActivity, .posted .beep,
        .readBytes [], .sent .beep, .reset] by decide)
  exact ⟨_, s, hrun, by decide, transmitted_sublist_posted hrun⟩

/-- The ringing screen raises `isCommand` before it writes `command_last_index`, and `echo_task`
transmits the beep of an earlier post once more. -/
theorem beep_transmitted_twice :
    ∃ trace s, Run (fun _ => none) anyOrder (boot 1000 .zero .zero) trace s ∧
      ¬ (transmittedIndices trace).Sublist (postedIndices trace) := by
  obtain ⟨s, hrun⟩ := execute_trace
    (show (execute (step fun _ => none) anyOrder
      (List.replicate 3 (.main 0) ++ [.main 3, .main 0, .main 0] ++
        List.replicate 7 (.echo 0) ++ List.replicate 4 (.main 0) ++
        [.main 2, .main 0, .main 0, .main 0] ++ List.replicate 3 (.echo 0))
        (boot 1000 .zero .zero)).map Prod.snd =
      some [.committed 0 0, .entered, .polled .clock .alarmRingtoneActivity, .posted .beep,
        .readBytes [], .sent .beep, .reset, .flushed [], .readAlarm .main 0,
        .checked .main 0 0 1000, .polled .clock .alarmActivity, .ringing .main none,
        .polled .ringing .blank, .readBytes [], .sent .beep] by decide)
  exact ⟨_, s, hrun, by decide⟩

end SaiyuanClock
