import SaiyuanClock.AlarmText
import SaiyuanClock.Screens

/-!
# What the user sees

`deviceStep` is a step of the firmware with its display: before its next access the main task draws
the screen that is due, and the other tasks never touch the display. Over every run from
`OLEDDisplay_init` on, in any order of steps, drawing never stops the main task, and what the panel
shows is the screen that the main task is in: the screen that polls the keypad, and, while an alarm
is written, the question that was confirmed after the text of that alarm had been shown.
-/

namespace SaiyuanClock

open LabelledSteps

variable {g : Geometry} {k : Controller}

/-- The firmware with its display. -/
structure Device (g : Geometry) (k : Controller) where
  system : System
  output : Output g k

/-- The screen that the main task draws before its next access. -/
def drawn (s : System) : Option Content :=
  match s.main with
  | .poll => some (.clock s.clock)
  | .ringDelay _ => some .ringing
  | .snoozeFind _ => some .skipping
  | .editorDraw time => some (.editor time.text)
  | .editorConfirm _ _ => some .confirm
  | _ => none

/-- The screen that an action draws. -/
def drawnBy (s : System) : Action → Option Content
  | .main _ => drawn s
  | _ => none

/-- Draw a screen, if there is one. -/
def Output.show (glyphs : Glyphs) (content : Option Content) (output : Output g k) :
    Option (Output g k) :=
  match content with
  | none => some output
  | some content => (content.calls glyphs).foldlM Output.call output

/-- One step of the firmware with its display. -/
def deviceStep (memory : Nat → Option UInt8) (glyphs : Glyphs) (action : Action)
    (device : Device g k) : Option (Device g k × List Event) :=
  (step memory action device.system).bind fun (system, emitted) =>
    (device.output.show glyphs (drawnBy device.system action)).map fun output =>
      (⟨system, output⟩, emitted)

/-- The clock is set to readings that `localtime_r` can represent. -/
def representableTime (_ : System) : Action → Prop
  | .tick now => Representable now
  | _ => True

/-- Whether a reading can be represented is decidable by two comparisons. -/
instance (now : Int) : Decidable (Representable now) := inferInstanceAs (Decidable (_ ∧ _))

/-- Whether a step sets the clock in range is decidable. -/
instance (s : System) : ∀ action, Decidable (representableTime s action)
  | .tick now => inferInstanceAs (Decidable (Representable now))
  | .main _ | .echo _ | .alarm _ | .arrive _ => inferInstanceAs (Decidable True)

/-- A run of the firmware with its display. -/
abbrev DeviceRun (memory : Nat → Option UInt8) (glyphs : Glyphs) :
    Device g k → List Event → Device g k → Prop :=
  Steps (StepOf (deviceStep memory glyphs) fun device => representableTime device.system)

/-! ## What is shown where -/

/-- The screen that the panel shows while the main task is at a program point, where that does not
depend on what went before. -/
def MainPc.content : MainPc → Option Content
  | .ringPoll _ | .ringRaise _ _ | .ringIndex _ _ | .ringFlag _ _ | .ringWait _ _ | .ringAgain _ =>
      some .ringing
  | .snoozeWrite _ _ | .snoozeDelay _ => some .skipping
  | .editorPoll _ timeStr | .editorConfirm _ timeStr => some (.editor timeStr)
  | .commitTime _ _ | .commitTimestamp _ _ | .commitString _ | .commitCount => some .confirm
  | _ => none

/-- The text of the alarm that was confirmed, until it has been written. -/
def MainPc.confirmedText : MainPc → Option String
  | .commitTime _ timeStr | .commitTimestamp _ timeStr | .commitString timeStr => some timeStr
  | _ => none

/-- The pictures that were displayed end with the screen of the main task, and during a commit with
the text that was confirmed and the question. -/
structure Shown (g : Geometry) (glyphs : Glyphs) (pc : MainPc)
    (displayed : List (Set (Point g))) : Prop where
  content : ∀ content, pc.content = some content → [content.picture g glyphs] <:+ displayed
  confirmed : ∀ timeStr, pc.confirmedText = some timeStr →
    [(Content.editor timeStr).picture g glyphs, Content.confirm.picture g glyphs] <:+ displayed

/-- A screen of the next program point is the one before or has just been drawn. -/
theorem content_next {s : System} {next : MainPc} (h : MainPc.Next next s.main) {content : Content}
    (hcontent : next.content = some content) :
    s.main.content = some content ∧ drawn s = none ∨ drawn s = some content := by
  unfold drawn
  cases hpc : s.main <;> simp only [hpc, MainPc.Next] at h
  case poll =>
    rcases h with rfl | rfl | rfl | rfl | ⟨command, -, rfl⟩ <;> simp [MainPc.content] at hcontent
  case checkAlarm => rcases h with rfl | rfl | rfl | rfl <;> simp [MainPc.content] at hcontent
  case ringWait => rcases h with rfl | rfl | rfl | rfl <;> simp_all [MainPc.content]
  case snoozeFind => rcases h with rfl | ⟨i, rfl⟩ <;> simp_all [MainPc.content]
  case snoozeDelay => rcases h with rfl | rfl <;> simp [MainPc.content] at hcontent
  case editorPoll =>
    rcases h with rfl | rfl | rfl | ⟨key, edited, -, rfl⟩ <;> simp_all [MainPc.content]
  case editorConfirm => rcases h with rfl | rfl <;> simp_all [MainPc.content]
  case commitTime => rcases h with ⟨now, rfl⟩ | rfl <;> simp_all [MainPc.content]
  case checkAlarms | editorOpen | ringPoll =>
    obtain ⟨_, rfl⟩ := h
    simp_all [MainPc.content]
  all_goals
    subst h
    simp_all [MainPc.content]

/-- The text of a commit is the one before or has just been confirmed. -/
theorem confirmed_next {s : System} {next : MainPc} (h : MainPc.Next next s.main)
    {timeStr : String} (hconfirmed : next.confirmedText = some timeStr) :
    s.main.confirmedText = some timeStr ∧ drawn s = none ∨
      ∃ time, s.main = .editorConfirm time timeStr := by
  unfold drawn
  cases hpc : s.main <;> simp only [hpc, MainPc.Next] at h
  case poll =>
    rcases h with rfl | rfl | rfl | rfl | ⟨command, -, rfl⟩ <;>
      simp [MainPc.confirmedText] at hconfirmed
  case checkAlarm =>
    rcases h with rfl | rfl | rfl | rfl <;> simp [MainPc.confirmedText] at hconfirmed
  case ringWait => rcases h with rfl | rfl | rfl | rfl <;> simp [MainPc.confirmedText] at hconfirmed
  case snoozeFind => rcases h with rfl | ⟨i, rfl⟩ <;> simp [MainPc.confirmedText] at hconfirmed
  case snoozeDelay => rcases h with rfl | rfl <;> simp [MainPc.confirmedText] at hconfirmed
  case editorPoll =>
    rcases h with rfl | rfl | rfl | ⟨key, edited, -, rfl⟩ <;>
      simp [MainPc.confirmedText] at hconfirmed
  case editorConfirm => rcases h with rfl | rfl <;> simp_all [MainPc.confirmedText]
  case commitTime => rcases h with ⟨now, rfl⟩ | rfl <;> simp_all [MainPc.confirmedText]
  case checkAlarms | editorOpen | ringPoll =>
    obtain ⟨_, rfl⟩ := h
    simp [MainPc.confirmedText] at hconfirmed
  all_goals
    subst h
    simp_all [MainPc.confirmedText]

/-- What is shown after the next step of the main task. -/
theorem Shown.next {glyphs : Glyphs} {s : System} {displayed : List (Set (Point g))}
    (h : Shown g glyphs s.main displayed) {next : MainPc} (hnext : MainPc.Next next s.main) :
    Shown g glyphs next (displayed ++ (drawn s).elim [] (Content.pictures g glyphs)) := by
  refine ⟨fun content hcontent => ?_, fun timeStr hconfirmed => ?_⟩
  · rcases content_next hnext hcontent with ⟨hsame, hnothing⟩ | hdrawn
    · rw [hnothing, Option.elim_none, List.append_nil]
      exact h.content content hsame
    · obtain ⟨before, hpictures⟩ := Content.pictures_eq g glyphs content
      rw [hdrawn, Option.elim_some, hpictures, ← List.append_assoc]
      exact List.suffix_append _ _
  · rcases confirmed_next hnext hconfirmed with ⟨hsame, hnothing⟩ | ⟨time, hpc⟩
    · rw [hnothing, Option.elim_none, List.append_nil]
      exact h.confirmed timeStr hsame
    · obtain ⟨before, hbefore⟩ := h.content (.editor timeStr) (by rw [hpc]; rfl)
      have hdrawn : drawn s = some .confirm := by simp [drawn, hpc]
      rw [hdrawn, Option.elim_some, ← hbefore, List.append_assoc]
      exact List.suffix_append _ _

/-! ## Runs -/

/-- A step of the firmware with its display is a step of the firmware, and the display draws. -/
theorem device_step_iff {memory : Nat → Option UInt8} {glyphs : Glyphs} {action : Action}
    {device next : Device g k} {emitted : List Event} :
    deviceStep memory glyphs action device = some (next, emitted) ↔
      step memory action device.system = some (next.system, emitted) ∧
        device.output.show glyphs (drawnBy device.system action) = some next.output := by
  obtain ⟨system, output⟩ := next
  unfold deviceStep
  cases step memory action device.system with
  | none => simp
  | some result =>
      cases device.output.show glyphs (drawnBy device.system action) with
      | none => simp
      | some shown =>
          obtain ⟨after, events⟩ := result
          simp only [Option.bind_some, Option.map_some, Option.some.injEq, Prod.mk.injEq,
            Device.mk.injEq]
          exact and_right_comm

/-- A run of the firmware with its display is a run of the firmware. -/
theorem run_of_device_run {memory : Nat → Option UInt8} {glyphs : Glyphs}
    {device next : Device g k} {trace : List Event}
    (h : DeviceRun memory glyphs device trace next) :
    Run memory representableTime device.system trace next.system := by
  have hview : Run memory representableTime device.system (trace.filterMap some) next.system :=
    h.view Device.system some fun state emitted following hstep => by
      obtain ⟨action, hallowed, hdevice⟩ := hstep
      rw [List.filterMap_some]
      exact .inl ⟨action, hallowed, (device_step_iff.mp hdevice).1⟩
  rwa [List.filterMap_some] at hview

/-- What holds of the firmware and its display: the device is in step with what was drawn, what
was drawn is what the main task shows, and what is drawn next can be printed. -/
structure Watched (glyphs : Glyphs) (device : Device g k) : Prop where
  easel : ∃ easel : Easel g, Agrees device.output easel ∧
    Shown g glyphs device.system.main easel.displayed
  held : device.system.main.TextHeld
  clock : Representable device.system.clock

/-- What is drawn can be printed. -/
theorem Watched.printable {glyphs : Glyphs} {device : Device g k} (h : Watched glyphs device)
    {content : Content} (hdrawn : drawn device.system = some content) : content.Printable := by
  have hheld := h.held
  unfold drawn at hdrawn
  split at hdrawn
  · obtain rfl := Option.some.inj hdrawn
    exact h.clock
  · obtain rfl := Option.some.inj hdrawn
    trivial
  · obtain rfl := Option.some.inj hdrawn
    trivial
  · rename_i time hmain
    obtain rfl := Option.some.inj hdrawn
    rw [hmain] at hheld
    exact text_caption hheld
  · obtain rfl := Option.some.inj hdrawn
    trivial
  · exact absurd hdrawn (by simp)

/-- A step keeps the clock in the range that can be shown. -/
theorem act_representable (memory : Nat → Option UInt8) {s : System} {action : Action}
    (h : Representable s.clock) (hallowed : representableTime s action) :
    Representable (act memory s action).1.clock := by
  cases action with
  | main keyScan =>
      rw [act, (main_step_frame keyScan s).clock]
      exact h
  | echo available =>
      rw [act, (echo_step_frame memory available s).clock]
      exact h
  | alarm keyScan =>
      rw [act, (alarm_step_frame keyScan s).clock]
      exact h
  | arrive bytes => exact h
  | tick now => exact hallowed

/-- A step can always draw, keeps what holds of the firmware and its display, and leaves the panel
with the screen that it drew. -/
theorem watched_act (memory : Nat → Option UInt8) {glyphs : Glyphs} {device : Device g k}
    {action : Action} (h : Watched glyphs device)
    (hallowed : representableTime device.system action) :
    ∃ output, device.output.show glyphs (drawnBy device.system action) = some output ∧
      Watched glyphs ⟨(act memory device.system action).1, output⟩ ∧
        ∀ content, drawnBy device.system action = some content →
          k.lit g output.device = content.picture g glyphs := by
  obtain ⟨easel, hagrees, hshown⟩ := h.easel
  have hclock := act_representable memory h.clock hallowed
  by_cases hmain : ∃ keyScan, action = .main keyScan
  · obtain ⟨keyScan, rfl⟩ := hmain
    have hpc := main_step_next keyScan device.system
    have hnext := hshown.next hpc
    have hheld := next_text_held h.held hpc
    cases hdrawn : drawn device.system with
    | none =>
        rw [hdrawn, Option.elim_none, List.append_nil] at hnext
        simp only [drawnBy, hdrawn]
        exact ⟨device.output, rfl, ⟨⟨easel, hagrees, hnext⟩, hheld, hclock⟩,
          fun content hcontent => absurd hcontent (by simp)⟩
    | some content =>
        obtain ⟨output, after, houtput, hafter, hdisplayed, hlit⟩ :=
          Content.draw_screen glyphs hagrees (h.printable hdrawn)
        rw [hdrawn, Option.elim_some, ← hdisplayed] at hnext
        simp only [drawnBy, hdrawn]
        exact ⟨output, houtput, ⟨⟨after, hafter, hnext⟩, hheld, hclock⟩,
          fun other hother => Option.some.inj hother ▸ hlit⟩
  · have hframe := (act_other memory device.system action).resolve_left hmain
    have hnothing : drawnBy device.system action = none := by
      cases action with
      | main keyScan => exact absurd ⟨keyScan, rfl⟩ hmain
      | echo available | alarm keyScan | arrive bytes | tick now => rfl
    rw [hnothing]
    have hmain := hframe.main
    exact ⟨device.output, rfl,
      ⟨⟨easel, hagrees, hmain.symm ▸ hshown⟩, hmain.symm ▸ h.held, hclock⟩,
      fun content hcontent => absurd hcontent (by simp)⟩

/-- The device after `OLEDDisplay_init`, when `app_main` has created the tasks. -/
def Device.start (glyphs : Glyphs) (clock : Int) (data dataDest : Buffer)
    (buffer bufferBack : Frame g) (s : k.State) : Device g k where
  system := boot clock data dataDest
  output := .init glyphs.arialMTPlain10 buffer bufferBack s

/-- Glyphs whose pixels are all lit. -/
def Glyphs.solid : Glyphs where
  plain10 := List.replicate 1831 255
  plain16 := List.replicate 4149 255
  plain24 := List.replicate 8743 255
  length_plain10 := List.length_replicate
  length_plain16 := List.length_replicate
  length_plain24 := List.length_replicate

/-- A device of 128 by 64 pixels that starts at the clock reading 1000. -/
def Device.sample : Device .geometry128x64 Panel.controller :=
  .start .solid 1000 .zero .zero ⟨Vector.replicate _ 0⟩ ⟨Vector.replicate _ 0⟩ Panel.off

section

variable {memory : Nat → Option UInt8} {glyphs : Glyphs} {clock : Int} {data dataDest : Buffer}
  {buffer bufferBack : Frame g} {initial : k.State} {trace : List Event} {device next : Device g k}

/-- The commit of an alarm finds room in every run of the firmware. -/
theorem commit_room {allowed : System → Action → Prop} {s : System}
    (hrun : Run memory allowed (boot clock data dataDest) trace s) {timeStr : String}
    (hpc : s.main = .commitString timeStr) : s.vars.alarmCount < 8 := by
  rcases boot_run hrun with hboot | hstocked
  · exact absurd (hboot.start.symm.trans hpc) (by simp)
  · exact hstocked.table.room (.inr (by simp [storeView, hpc, MainPc.writer]))

/-- A step keeps what holds of the firmware and its display. -/
theorem watched_step (h : Watched glyphs device) {emitted : List Event}
    (hstep : StepOf (deviceStep memory glyphs) (fun device => representableTime device.system)
      device emitted next) :
    Watched glyphs next ∧ ∃ action, (act memory device.system action).1 = next.system ∧
      (act memory device.system action).2 = emitted ∧
        device.output.show glyphs (drawnBy device.system action) = some next.output ∧
          ∀ content, drawnBy device.system action = some content →
            k.lit g next.output.device = content.picture g glyphs := by
  obtain ⟨action, hallowed, hdevice⟩ := hstep
  obtain ⟨hsystem, houtput⟩ := device_step_iff.mp hdevice
  have hone : StepOf (step memory) (fun _ other => other = action) device.system emitted
      next.system := ⟨action, rfl, hsystem⟩
  obtain ⟨_, rfl, -, hact, hevents⟩ := step_of_iff.mp hone
  obtain ⟨output, hshow, hnext, hlit⟩ := watched_act memory h hallowed
  obtain rfl := Option.some.inj (hshow.symm.trans houtput)
  rw [hact] at hnext
  exact ⟨hnext, _, hact, hevents, houtput, hlit⟩

/-- The panel shows the screen of the main task. -/
theorem Watched.lit (h : Watched glyphs device) {content : Content}
    (hcontent : device.system.main.content = some content) :
    k.lit g device.output.device = content.picture g glyphs := by
  obtain ⟨easel, hagrees, hshown⟩ := h.easel
  obtain ⟨before, hbefore⟩ := hshown.content content hcontent
  exact hagrees.lit_device hbefore.symm

/-- A device that has not halted can do every step. -/
theorem device_can_step (memory : Nat → Option UInt8) (h : Watched glyphs device)
    (hrunning : device.system.halted = false) (action : Action)
    (hallowed : representableTime device.system action) :
    ∃ next, StepOf (deviceStep memory glyphs) (fun device => representableTime device.system)
      device (act memory device.system action).2 next := by
  obtain ⟨output, hshow, -⟩ := watched_act memory h hallowed
  refine ⟨⟨(act memory device.system action).1, output⟩, action, hallowed, ?_⟩
  refine device_step_iff.mpr ⟨?_, hshow⟩
  rw [step, hrunning]
  rfl

variable (hclock : Representable clock) (hready : k.Ready (k.deliver initial (sendInitCommands g)))

include hclock hready

/-- At the start the panel is dark and nothing is shown. -/
theorem start_watched :
    Watched glyphs (Device.start glyphs clock data dataDest buffer bufferBack initial) :=
  ⟨⟨_, init_agrees glyphs.arialMTPlain10 buffer bufferBack hready,
    fun _ h => by simp [Device.start, boot, MainPc.content] at h,
    fun _ h => by simp [Device.start, boot, MainPc.confirmedText] at h⟩, trivial, hclock⟩

/-- What holds of the firmware and its display after every run. -/
theorem watched_of_run
    (hrun : DeviceRun memory glyphs
      (Device.start glyphs clock data dataDest buffer bufferBack initial) trace device) :
    Watched glyphs device :=
  hrun.invariant (fun state _ => Watched glyphs state) (start_watched hclock hready)
    fun _ _ _ _ _ hwatched hstep => (watched_step hwatched hstep).1

/-- Every run of the firmware is one of the firmware with its display. -/
theorem device_run_of_run {s : System}
    (hrun : Run memory representableTime (boot clock data dataDest) trace s) :
    ∃ device, DeviceRun memory glyphs
      (Device.start glyphs clock data dataDest buffer bufferBack initial) trace device ∧
        device.system = s := by
  induction hrun with
  | refl => exact ⟨_, .refl _, rfl⟩
  | snoc _ hstep ih =>
      obtain ⟨device, hpast, rfl⟩ := ih
      obtain ⟨action, hallowed, hsystem⟩ := hstep
      obtain ⟨output, hshow, -⟩ := watched_act memory (watched_of_run hclock hready hpast) hallowed
      exact ⟨⟨_, output⟩,
        hpast.snoc ⟨action, hallowed, device_step_iff.mpr ⟨hsystem, hshow⟩⟩, rfl⟩

omit hclock hready in
/-- What the sample can do without its display it can do with it. -/
theorem sample_run (actions : List Action) (pc : MainPc)
    (h : (execute (step fun _ => none) representableTime actions (boot 1000 .zero .zero)).map
      (fun result => (result.1.main, result.1.halted)) = some (pc, false)) :
    ∃ trace device, DeviceRun (fun _ => none) .solid Device.sample trace device ∧
      device.system.main = pc ∧ device.system.halted = false := by
  obtain ⟨trace, s, hrun, hobserved⟩ := execute_observe _ h
  obtain ⟨device, hdevice, rfl⟩ : ∃ device, DeviceRun (fun _ => none) .solid Device.sample trace
      device ∧ device.system = s := device_run_of_run (by decide) (Panel.off_ready _) hrun
  exact ⟨trace, device, hdevice, (Prod.mk.inj hobserved).1, (Prod.mk.inj hobserved).2⟩

/-- Drawing never stops the clock and never leaves a buffer or a font: whatever the glyphs look
like, the runs of the firmware with its display are those of the firmware. -/
theorem device_run_iff {s : System} :
    (∃ device, DeviceRun memory glyphs
      (Device.start glyphs clock data dataDest buffer bufferBack initial) trace device ∧
        device.system = s) ↔
      Run memory representableTime (boot clock data dataDest) trace s := by
  constructor
  · rintro ⟨device, hrun, rfl⟩
    exact run_of_device_run hrun
  · exact device_run_of_run hclock hready

omit hclock hready in
/-- The alarm key is pressed. -/
theorem device_run_iff_alarm_key :
    ∃ trace device, DeviceRun (fun _ => none) .solid Device.sample trace device ∧
      device.system.main = .ringPoll none := by
  obtain ⟨trace, s, hrun, hmain⟩ := execute_observe
    (fun result : System × List Event => result.1.main)
    (show (execute (step fun _ => none) representableTime
      (List.replicate 3 (.main 0) ++ [.main 2, .main 0]) (boot 1000 .zero .zero)).map
        (fun result => result.1.main) = some (.ringPoll none) by decide)
  obtain ⟨device, hdevice, rfl⟩ : ∃ device, DeviceRun (fun _ => none) .solid Device.sample trace
      device ∧ device.system = s := (device_run_iff (by decide) (Panel.off_ready _)).mpr hrun
  exact ⟨trace, device, hdevice, hmain⟩

/-- In every state that the firmware can reach, in any order of steps, the panel shows exactly the
screen that the main task is in: the ringing screen until the ringing ends, the snooze screen while
an alarm is snoozed, the text that the editor holds while it waits for a key, and the question
while an alarm is written. -/
theorem screen_shown
    (hrun : DeviceRun memory glyphs
      (Device.start glyphs clock data dataDest buffer bufferBack initial) trace device)
    {content : Content} (hcontent : device.system.main.content = some content) :
    k.lit g device.output.device = content.picture g glyphs :=
  (watched_of_run hclock hready hrun).lit hcontent

omit hclock hready in
/-- The alarm key is pressed, and the panel shows the ringing screen. -/
theorem screen_shown_alarm_key :
    ∃ trace device, DeviceRun (fun _ => none) .solid Device.sample trace device ∧
      Panel.controller.lit .geometry128x64 device.output.device =
        Content.ringing.picture _ .solid := by
  obtain ⟨trace, device, hrun, hmain, -⟩ := sample_run
    (List.replicate 3 (.main 0) ++ [.main 2, .main 0]) (.ringPoll none) (by decide)
  exact ⟨trace, device, hrun,
    screen_shown (by decide) (Panel.off_ready _) hrun (by rw [hmain]; rfl)⟩

/-- What a screen has to show when it polls the keypad: the clock the reading, the editor the time
that the keys change. `alarm_ring` has no screen. -/
def Screen.content (s : System) : Screen → Option Content
  | .clock => some (.clock s.clock)
  | .ringing => some .ringing
  | .editor =>
      match s.main with
      | .editorPoll time _ => some (.editor time.text)
      | _ => none
  | .confirm => some .confirm
  | .alarmRing => none

/-- When the text of a new alarm is written, the panel shows the question whether the alarm is to be
set, the picture before it was that of the editor with this very text, and the text is that of the
timestamp of the alarm. -/
theorem named_alarm_shown
    (hrun : DeviceRun memory glyphs
      (Device.start glyphs clock data dataDest buffer bufferBack initial) trace device)
    {emitted : List Event}
    (hstep : StepOf (deviceStep memory glyphs) (fun device => representableTime device.system)
      device emitted next)
    {i : Nat} (hnamed : .named i ∈ emitted) :
    ∃ timeStr, next.system.vars.text i = some timeStr ∧
      timeStr = (convertTimeToHhmmss (next.system.vars.timestamp i)).text ∧
        [(Content.editor timeStr).picture g glyphs, Content.confirm.picture g glyphs] <:+
          next.output.displayed.map Frame.lit ∧
            k.lit g next.output.device = Content.confirm.picture g glyphs := by
  have hwatched := watched_of_run hclock hready hrun
  have htexts := texts_of_run (run_of_device_run hrun)
  obtain ⟨-, action, hact, rfl, houtput, -⟩ := watched_step hwatched hstep
  obtain ⟨keyScan, rfl⟩ := main_of_mem rfl hnamed
  obtain ⟨timeStr, hpc⟩ : ∃ timeStr, device.system.main = .commitString timeStr := by
    have hemits := main_step_emits keyScan device.system _ hnamed
    cases hpc : device.system.main <;> simp [hpc, MainPc.emits] at hemits
    exact ⟨_, rfl⟩
  have hroom := commit_room (run_of_device_run hrun) hpc
  have htext := htexts.pending timeStr hpc
  obtain ⟨easel, hagrees, hshown⟩ := hwatched.easel
  simp only [act, mainStep, hpc, List.mem_singleton, Event.named.injEq] at hnamed hact
  subst hnamed
  have hsame : next.output = device.output := by
    simp only [drawnBy, drawn, hpc, Output.show] at houtput
    exact (Option.some.inj houtput).symm
  refine ⟨timeStr, ?_, ?_, ?_, ?_⟩
  · rw [← hact]
    exact StaticVars.text_modify_alarm _ hroom (some timeStr) fun _ => rfl
  · have hkept := StaticVars.timestamp_modify_alarm_text device.system.vars
      device.system.vars.alarmCount (fun alarm => { alarm with alarmTimeString := some timeStr })
      fun _ => rfl
    rw [← hact]
    exact htext.trans (by rw [← hkept]; rfl)
  · rw [hsame, hagrees.displayed]
    exact hshown.confirmed timeStr (by rw [hpc]; rfl)
  · rw [hsame]
    exact hwatched.lit (by rw [hpc]; rfl)

omit hclock hready in
/-- An alarm is set in the editor. -/
theorem named_alarm_shown_new_alarm :
    ∃ trace, ∃ device next : Device .geometry128x64 Panel.controller, ∃ i timeStr,
      DeviceRun (fun _ => none) .solid Device.sample trace device ∧
        next.system.vars.text i = some timeStr ∧
          [(Content.editor timeStr).picture _ .solid, Content.confirm.picture _ .solid] <:+
            next.output.displayed.map Frame.lit ∧
              Panel.controller.lit .geometry128x64 next.output.device =
                Content.confirm.picture _ .solid := by
  obtain ⟨trace, device, hrun, hmain, hrunning⟩ := sample_run
    (List.replicate 3 (.main 0) ++
      [.main 5, .main 0, .main 0, .main 11, .main 11, .main 0, .main 0])
    (.commitString "8:16:40") (by decide)
  obtain ⟨next, hstep⟩ := device_can_step (fun _ => none)
    (watched_of_run (by decide) (Panel.off_ready _) hrun) hrunning (.main 0) trivial
  have hemitted : (act (fun _ => none) device.system (.main 0)).2 =
      [.named device.system.vars.alarmCount] := by
    rw [act, mainStep, hmain]
  rw [hemitted] at hstep
  obtain ⟨timeStr, htext, -, hshown, hlit⟩ :=
    named_alarm_shown (by decide) (Panel.off_ready _) hrun hstep (List.mem_singleton_self _)
  exact ⟨trace, device, next, _, timeStr, hrun, htext, hshown, hlit⟩

end

end SaiyuanClock
