import SaiyuanClock.Library.SharedTable
import SaiyuanClock.Frames

/-!
# The alarm store under the three tasks

From the entry of `activity_clock_main` on, the alarm store is the growing table of
`Library/SharedTable.lean`: the main task is its writer, `alarm_task`, the data-sync loop of
`echo_task` and the alarm check of the main task are its readers, and a snooze adds five minutes
to an entry. `storeView` maps a state of the firmware to a state of the table.
-/

namespace SaiyuanClock

open LabelledSteps SharedTable

/-- What a snooze adds to a timestamp. -/
def snoozed (alarmTimestamp : Int) : Int := alarmTimestamp + 300

/-- The program points of `i2c_app_main`, before `activity_clock_main` is entered. -/
def MainPc.startup : MainPc → Bool
  | .seedAlarm | .seedCapacity | .seedCount => true
  | _ => false

/-- Where the main task is in a write to the store. -/
def MainPc.writer : MainPc → Writer
  | .commitTimestamp _ _ => .room
  | .commitString _ | .commitCount => .written
  | .snoozeWrite _ i => .chosen i
  | _ => .idle

/-- The main task may read the entries below this bound. -/
def MainPc.bound (alarmCount : Nat) : MainPc → Nat
  | .checkAlarm _ bound => bound
  | .snoozeFind _ => alarmCount
  | _ => 0

/-- `echo_task` may read the entries below this bound. -/
def EchoPc.bound : EchoPc → Nat
  | .transfer _ bound _ => bound
  | _ => 0

/-- `alarm_task` may read the entries below this bound. -/
def AlarmPc.bound : AlarmPc → Nat
  | .checkAlarm i => i + 1
  | _ => 0

/-- The bounds of the three readers. -/
def readerBound (s : System) : Task → Nat
  | .main => s.main.bound s.vars.alarmCount
  | .echo => s.echo.bound
  | .alarm => s.alarm.bound

/-- The alarm store of a state. -/
def storeView (s : System) : State Int Task where
  values := s.vars.timestamp
  count := s.vars.alarmCount
  writer := s.main.writer
  bound := readerBound s

/-- What an event does to the alarm store. -/
def storeEvent : Event → Option (TableEvent Int Task)
  | .readAlarm task i => some (.read task i)
  | .committed i alarmTimestamp => some (.write i alarmTimestamp)
  | .named i => some (.touch i)
  | .snoozed i => some (.update i)
  | _ => none

/-- The events of a trace that concern the alarm store. -/
def storeEvents (trace : List Event) : List (TableEvent Int Task) := trace.filterMap storeEvent

/-- The main task moves on in the store: only its writer position and its bound change. -/
theorem store_view_goto_main (s : System) (pc : MainPc) :
    storeView (s.gotoMain pc) =
      { storeView s with
        writer := pc.writer
        bound := Function.update (readerBound s) .main (pc.bound s.vars.alarmCount) } := by
  simp only [storeView, System.gotoMain, State.mk.injEq, true_and]
  funext task
  cases task <;> rfl

/-- `echo_task` moves on in the store: only its bound changes. -/
theorem store_view_goto_echo (s : System) (pc : EchoPc) :
    storeView (s.gotoEcho pc) =
      { storeView s with bound := Function.update (readerBound s) .echo pc.bound } := by
  simp only [storeView, System.gotoEcho, State.mk.injEq, true_and]
  funext task
  cases task <;> rfl

/-- `alarm_task` moves on in the store: only its bound changes. -/
theorem store_view_goto_alarm (s : System) (pc : AlarmPc) :
    storeView (s.gotoAlarm pc) =
      { storeView s with bound := Function.update (readerBound s) .alarm pc.bound } := by
  simp only [storeView, System.gotoAlarm, State.mk.injEq, true_and]
  funext task
  cases task <;> rfl

/-- Outside its own reads the main task changes its writer position only. -/
theorem store_view_outside {s : System} {pc : MainPc}
    (hout : ∀ alarmCount, s.main.bound alarmCount = 0)
    (hbound : ∀ alarmCount, pc.bound alarmCount = 0) :
    storeView (s.gotoMain pc) = { storeView s with writer := pc.writer } := by
  rw [store_view_goto_main, hbound, ← hout s.vars.alarmCount]
  exact congrArg (State.mk _ _ _) (Function.update_eq_self _ _)

/-- A write of the main task, outside its own reads, changes one timestamp in the store. -/
theorem store_view_main_write {s : System} {pc : MainPc} {i : Nat} (hi : i < 8)
    (f : Alarm → Alarm) (g : Int → Int)
    (hf : ∀ alarm, (f alarm).alarmTimestamp = g alarm.alarmTimestamp)
    (hout : ∀ alarmCount, s.main.bound alarmCount = 0)
    (hbound : ∀ alarmCount, pc.bound alarmCount = 0) :
    storeView ((s.modifyAlarm i f).gotoMain pc) =
      { storeView s with
        values := Function.update s.vars.timestamp i (g (s.vars.timestamp i))
        writer := pc.writer } := by
  rw [store_view_outside (s := s.modifyAlarm i f) hout hbound]
  simp only [storeView, State.mk.injEq]
  refine ⟨StaticVars.timestamp_modify_alarm s.vars hi hf, StaticVars.modify_alarm_count _ _ _,
    trivial, ?_⟩
  funext task
  cases task
  case main => exact (hout _).trans (hout _).symm
  case echo | alarm => rfl

@[simp] theorem store_events_append (first rest : List Event) :
    storeEvents (first ++ rest) = storeEvents first ++ storeEvents rest :=
  List.filterMap_append

/-- The reads of a task in the store. -/
@[simp] theorem store_events_reads (task : Task) (seen : List Nat) :
    storeEvents (seen.map (Event.readAlarm task)) = seen.map (.read task) := by
  simp [storeEvents, storeEvent, List.filterMap_map, Function.comp_def]

/-- A step that leaves the store and all bounds alone is a scan of nothing. -/
theorem silent_scan {s next : System} (h : storeView next = storeView s) :
    Scan (storeView s) [] (storeView next) := by
  have hscan : Scan (storeView s) _ _ :=
    .scan (storeView s) .main [] ((storeView s).bound .main) (by simp) (.inr (Nat.le_refl _))
  rw [h]
  simpa using hscan

/-- The main task reads entries below its bound and takes a new bound. -/
theorem main_scan {s : System} {pc : MainPc} (seen : List Nat)
    (hseen : ∀ j ∈ seen, j < s.main.bound s.vars.alarmCount) (hwriter : pc.writer = s.main.writer)
    (hbound : pc.bound s.vars.alarmCount ≤ s.vars.alarmCount ∨
      pc.bound s.vars.alarmCount ≤ s.main.bound s.vars.alarmCount) :
    Step 8 snoozed (storeView s) (seen.map (.read .main)) (storeView (s.gotoMain pc)) := by
  rw [store_view_goto_main, hwriter]
  exact .scan (.scan (storeView s) .main seen _ hseen hbound)

/-- The main task moves between two places where it neither writes to the store nor may read. -/
theorem main_silent {s : System} {pc : MainPc} (hwriter : pc.writer = s.main.writer)
    (hbound : ∀ alarmCount, pc.bound alarmCount = 0) :
    Step 8 snoozed (storeView s) [] (storeView (s.gotoMain pc)) :=
  main_scan [] (by simp) hwriter (.inl (by simp [hbound]))

/-- `echo_task` reads entries below its bound and takes a new bound. -/
theorem echo_scan {s : System} {pc : EchoPc} (seen : List Nat)
    (hseen : ∀ j ∈ seen, j < s.echo.bound)
    (hbound : pc.bound ≤ s.vars.alarmCount ∨ pc.bound ≤ s.echo.bound) :
    Scan (storeView s) (seen.map (.read .echo)) (storeView (s.gotoEcho pc)) := by
  rw [store_view_goto_echo]
  exact .scan (storeView s) .echo seen _ hseen hbound

/-- `echo_task` moves on without reading the store. -/
theorem echo_silent {s : System} {pc : EchoPc} (hbound : pc.bound = 0) :
    Scan (storeView s) [] (storeView (s.gotoEcho pc)) :=
  echo_scan [] (by simp) (.inl (by simp [hbound]))

/-- `alarm_task` reads entries below its bound and takes a new bound. -/
theorem alarm_scan {s : System} {pc : AlarmPc} (seen : List Nat)
    (hseen : ∀ j ∈ seen, j < s.alarm.bound)
    (hbound : pc.bound ≤ s.vars.alarmCount ∨ pc.bound ≤ s.alarm.bound) :
    Scan (storeView s) (seen.map (.read .alarm)) (storeView (s.gotoAlarm pc)) := by
  rw [store_view_goto_alarm]
  exact .scan (storeView s) .alarm seen _ hseen hbound

/-- After a key dispatch the main task is outside the store. -/
theorem dispatch_outside (key : ButtonKey) :
    (dispatch key).writer = .idle ∧ ∀ alarmCount, (dispatch key).bound alarmCount = 0 := by
  cases key <;> exact ⟨rfl, fun _ => rfl⟩

/-- After an edit key the main task is outside the store. -/
theorem edit_outside (time : TimeOfDay) (key : ButtonKey) :
    (edit time key).writer = .idle ∧ ∀ alarmCount, (edit time key).bound alarmCount = 0 := by
  cases key <;> exact ⟨rfl, fun _ => rfl⟩

/-- After the ringing screen the main task is outside the store. -/
theorem after_ringing_outside (cause : Option Nat) :
    (afterRinging cause).writer = .idle ∧
      ∀ alarmCount, (afterRinging cause).bound alarmCount = 0 := by
  cases cause <;> exact ⟨rfl, fun _ => rfl⟩

/-- What holds of the alarm store from the placeholder on, after a history of accesses. -/
structure Stocked (s : System) (history : List (TableEvent Int Task)) : Prop where
  started : s.main ≠ .seedAlarm
  capacity : s.vars.alarmCapacity = 8
  seeded : s.main.startup = true → s.vars.alarmCount = 1
  nonempty : 1 ≤ s.vars.alarmCount
  table : Inv 8 snoozed (storeView s) history

section

variable {s : System} {history : List (TableEvent Int Task)} (keyScan : Nat)

/-- The alarm check reads entries below the count that it read first. -/
theorem check_alarm_store {i alarmCount : Nat} (hpc : s.main = .checkAlarm i alarmCount) :
    Step 8 snoozed (storeView s) (storeEvents (mainStep keyScan s).2)
      (storeView (mainStep keyScan s).1) := by
  have hkeep : alarmCount ≤ s.main.bound s.vars.alarmCount := by
    rw [hpc]
    exact Nat.le_refl _
  simp only [mainStep, hpc]
  split
  · next hi =>
    have hseen : ∀ j ∈ [i], j < s.main.bound s.vars.alarmCount := by
      simpa [hpc, MainPc.bound] using hi
    cases s.vars.alarms[i]? with
    | none =>
        show Step 8 snoozed (storeView s) [.read .main i] (storeView (s.gotoMain s.main))
        exact main_scan [i] hseen rfl (.inr (Nat.le_refl _))
    | some alarm =>
        simp only
        split
        · exact main_scan [i] hseen (hpc ▸ rfl) (.inl (Nat.zero_le _))
        · exact main_scan [i] hseen (hpc ▸ rfl) (.inr hkeep)
  · exact main_silent (hpc ▸ rfl) (fun _ => rfl)

/-- The first half of a snooze reads all entries and chooses one of them. -/
theorem snooze_find_store {cause : Option Nat} (hpc : s.main = .snoozeFind cause) :
    Step 8 snoozed (storeView s) (storeEvents (mainStep keyScan s).2)
      (storeView (mainStep keyScan s).1) := by
  have hidle : (storeView s).writer = .idle := congrArg MainPc.writer hpc
  have hseen : ∀ j ∈ List.range s.vars.alarmCount, j < s.main.bound s.vars.alarmCount := by
    simp [hpc, MainPc.bound]
  simp only [mainStep, hpc]
  cases hfind : findNearestAlarm s.vars s.clock with
  | none =>
      rw [store_events_append, store_events_reads, show storeEvents [.fault .main] = [] from rfl,
        List.append_nil]
      show Step 8 snoozed (storeView s) _ (storeView (s.gotoMain s.main))
      exact main_scan _ hseen rfl (.inr (Nat.le_refl _))
  | some i =>
      obtain ⟨alarm, hget, -, -⟩ := find_nearest_alarm_some hfind
      have hi : i < s.vars.alarmCount := (StaticVars.stored_get_iff.mp hget).1
      rw [store_events_reads, store_view_goto_main]
      exact .choose (storeView s) .main i _ hidle hi (by simp [storeView])

/-- The second half of a snooze updates the chosen entry. -/
theorem snooze_write_store (h : Stocked s history) {cause : Option Nat} {i : Nat}
    (hpc : s.main = .snoozeWrite cause i) :
    Step 8 snoozed (storeView s) (storeEvents (mainStep keyScan s).2)
      (storeView (mainStep keyScan s).1) := by
  have hchosen : (storeView s).writer = .chosen i := congrArg MainPc.writer hpc
  have hi : i < 8 := Nat.lt_of_lt_of_le (h.table.chosen i hchosen) h.table.count_le
  have hout : ∀ alarmCount, s.main.bound alarmCount = 0 := by simp [hpc, MainPc.bound]
  simp only [mainStep, hpc]
  rw [store_view_main_write hi _ snoozed (fun _ => rfl) hout (fun _ => rfl)]
  exact .update (storeView s) i hchosen

/-- The commit of the editor claims an entry if there is room. -/
theorem commit_time_store (h : Stocked s history) {time : TimeOfDay} {timeStr : String}
    (hpc : s.main = .commitTime time timeStr) :
    Step 8 snoozed (storeView s) (storeEvents (mainStep keyScan s).2)
      (storeView (mainStep keyScan s).1) := by
  have hidle : (storeView s).writer = .idle := congrArg MainPc.writer hpc
  have hout : ∀ alarmCount, s.main.bound alarmCount = 0 := by simp [hpc, MainPc.bound]
  simp only [mainStep, hpc]
  split
  · next hroom =>
    rw [store_view_outside hout (fun _ => rfl)]
    exact .claim (storeView s) hidle (h.capacity ▸ hroom)
  · exact main_silent (hpc ▸ rfl) (fun _ => rfl)

/-- It writes the timestamp of the entry that it has claimed. -/
theorem commit_timestamp_store (h : Stocked s history) {alarmTimestamp : Int} {timeStr : String}
    (hpc : s.main = .commitTimestamp alarmTimestamp timeStr) :
    Step 8 snoozed (storeView s) (storeEvents (mainStep keyScan s).2)
      (storeView (mainStep keyScan s).1) := by
  have hclaimed : (storeView s).writer = .room := congrArg MainPc.writer hpc
  have hroom : s.vars.alarmCount < 8 := h.table.room (.inl hclaimed)
  have hout : ∀ alarmCount, s.main.bound alarmCount = 0 := by simp [hpc, MainPc.bound]
  simp only [mainStep, hpc]
  rw [store_view_main_write hroom _ (fun _ => alarmTimestamp) (fun _ => rfl) hout (fun _ => rfl)]
  exact .write (storeView s) alarmTimestamp hclaimed

/-- It writes the text of that entry, which the table does not hold. -/
theorem commit_string_store (h : Stocked s history) {timeStr : String}
    (hpc : s.main = .commitString timeStr) :
    Step 8 snoozed (storeView s) (storeEvents (mainStep keyScan s).2)
      (storeView (mainStep keyScan s).1) := by
  have hwritten : (storeView s).writer = .written := congrArg MainPc.writer hpc
  have hroom : s.vars.alarmCount < 8 := h.table.room (.inr hwritten)
  have hout : ∀ alarmCount, s.main.bound alarmCount = 0 := by simp [hpc, MainPc.bound]
  have htouch : Step 8 snoozed (storeView s) _ _ := .touch (storeView s) hwritten
  simp only [mainStep, hpc]
  rw [store_view_main_write hroom (fun alarm => { alarm with alarmTimeString := some timeStr }) id
    (fun _ => rfl) hout (fun _ => rfl), id, Function.update_eq_self]
  show Step 8 snoozed (storeView s) [.touch s.vars.alarmCount] _
  simpa [storeView, hpc, MainPc.writer] using htouch

/-- It raises the count. -/
theorem commit_count_store (hpc : s.main = .commitCount) :
    Step 8 snoozed (storeView s) (storeEvents (mainStep keyScan s).2)
      (storeView (mainStep keyScan s).1) := by
  have hwritten : (storeView s).writer = .written := congrArg MainPc.writer hpc
  have hview : storeView (mainStep keyScan s).1 =
      { storeView s with count := s.vars.alarmCount + 1, writer := .idle } := by
    simp only [mainStep, hpc]
    refine congrArg (State.mk _ _ _) (funext fun task => ?_)
    cases task
    case main => exact (congrArg (MainPc.bound s.vars.alarmCount) hpc).symm
    case echo | alarm => rfl
  rw [hview]
  simp only [mainStep, hpc]
  exact .publish (storeView s) hwritten

/-- A step of the main task after the placeholder is a step of the table. -/
theorem main_step_store (h : Stocked s history) :
    Step 8 snoozed (storeView s) (storeEvents (mainStep keyScan s).2)
      (storeView (mainStep keyScan s).1) := by
  cases hpc : s.main
  case seedAlarm => exact absurd hpc h.started
  case checkAlarm => exact check_alarm_store keyScan hpc
  case snoozeFind => exact snooze_find_store keyScan hpc
  case snoozeWrite => exact snooze_write_store keyScan h hpc
  case commitTime => exact commit_time_store keyScan h hpc
  case commitTimestamp => exact commit_timestamp_store keyScan h hpc
  case commitString => exact commit_string_store keyScan h hpc
  case commitCount => exact commit_count_store keyScan hpc
  all_goals simp only [mainStep, hpc]
  case seedCapacity =>
    have hidle : MainPc.writer .seedCount = (storeView s).writer :=
      (congrArg MainPc.writer hpc).symm
    refine .scan (silent_scan (congrArg₂ (State.mk _ _) hidle (funext fun task => ?_)))
    cases task
    case main => exact (congrArg (MainPc.bound s.vars.alarmCount) hpc).symm
    case echo | alarm => rfl
  case seedCount =>
    have hone : s.vars.alarmCount = 1 := h.seeded (by simp [hpc, MainPc.startup])
    rw [← hone]
    show Step 8 snoozed (storeView s) [] (storeView (s.gotoMain .poll))
    exact main_silent (hpc ▸ rfl) (fun _ => rfl)
  -- the command slot is not part of the store
  case postIndex command =>
    show Step 8 snoozed (storeView (s.setIndex command)) [] (storeView (System.gotoMain _ _))
    exact main_silent (hpc ▸ rfl) (fun _ => rfl)
  case postFlag | ringRaise | ringFlag =>
    show Step 8 snoozed (storeView (s.setFlag true)) [] (storeView (System.gotoMain _ _))
    exact main_silent (hpc ▸ rfl) (fun _ => rfl)
  case ringIndex =>
    show Step 8 snoozed (storeView (s.setIndex .alarm)) [] (storeView (System.gotoMain _ _))
    exact main_silent (hpc ▸ rfl) (fun _ => rfl)
  -- the screens
  case poll =>
    obtain ⟨hidle, hzero⟩ := dispatch_outside (buttonKeyCheck keyScan)
    have hsilent := main_silent (hidle.trans (congrArg MainPc.writer hpc).symm) hzero
    split <;> exact hsilent
  case checkAlarms => exact main_scan [] (by simp) (hpc ▸ rfl) (.inl (Nat.le_refl _))
  case ringWait cause key =>
    obtain ⟨hidle, hzero⟩ := after_ringing_outside cause
    split
    · have hsilent := main_silent (hidle.trans (congrArg MainPc.writer hpc).symm) hzero
      cases cause <;> exact hsilent
    · split
      · exact main_scan [] (by simp) (hpc ▸ rfl) (.inl (Nat.le_refl _))
      · exact main_silent (hpc ▸ rfl) (fun _ => rfl)
  case snoozeDelay cause =>
    obtain ⟨hidle, hzero⟩ := after_ringing_outside cause
    exact main_silent (hidle.trans (hpc ▸ rfl)) hzero
  case editorPoll time timeStr =>
    obtain ⟨hidle, hzero⟩ := edit_outside time (buttonKeyCheck keyScan)
    split
    · exact main_silent (hpc ▸ rfl) (fun _ => rfl)
    · split
      · exact main_silent (hpc ▸ rfl) (fun _ => rfl)
      · exact main_silent (hidle.trans (hpc ▸ rfl)) hzero
  case editorConfirm =>
    split <;> exact main_silent (hpc ▸ rfl) (fun _ => rfl)
  all_goals exact main_silent (hpc ▸ rfl) (fun _ => rfl)

end

/-- A step of `echo_task` is a scan of the table. -/
theorem echo_step_store (memory : Nat → Option UInt8) (available : Nat) (s : System) :
    Scan (storeView s) (storeEvents (echoStep memory available s).2)
      (storeView (echoStep memory available s).1) := by
  have hbound : s.echo.bound = readerBound s .echo := rfl
  cases hpc : s.echo <;> rw [hpc] at hbound <;> simp only [echoStep, hpc]
  case readBytes =>
    show Scan (storeView s) [] (storeView (s.gotoEcho (.testFlag _)))
    exact echo_silent rfl
  case replyCopy =>
    show Scan (storeView s) [] (storeView (s.gotoEcho .flush))
    exact echo_silent rfl
  case flush =>
    show Scan (storeView s) [] (storeView (s.gotoEcho .delay))
    exact echo_silent rfl
  case replyFlag =>
    show Scan (storeView (s.setFlag true)) [] (storeView (System.gotoEcho _ _))
    exact echo_silent rfl
  case replyIndex =>
    show Scan (storeView (s.setIndex .dataSync)) [] (storeView (System.gotoEcho _ _))
    exact echo_silent rfl
  case testFlag =>
    split <;> exact echo_silent rfl
  case sendSection len comparisons =>
    cases comparisons with
    | nil =>
        show Scan (storeView (s.setFlag false)) [] (storeView (System.gotoEcho _ _))
        exact echo_silent rfl
    | cons command comparisons =>
        simp only
        split
        · split <;> exact echo_silent rfl
        · exact echo_silent rfl
  case handle len =>
    split
    · exact echo_silent rfl
    · split
      · exact silent_scan rfl
      · next dataDest _ =>
        show Scan (storeView s) [] (storeView (s.gotoEcho (if _ then _ else _)))
        refine echo_scan [] (by simp) (.inl ?_)
        split
        · exact Nat.zero_le _
        · split
          · exact Nat.le_refl _
          · exact Nat.zero_le _
  case transfer i alarmCount buffer =>
    split
    · next hi =>
      have hseen : ∀ j ∈ [i], j < s.echo.bound := by
        simpa [hpc, EchoPc.bound] using hi
      have hkeep : alarmCount ≤ s.echo.bound := by
        rw [hpc]
        exact Nat.le_refl _
      -- a fault leaves `echo_task` where it is
      have hstay : Scan (storeView s) [.read .echo i] (storeView (s.gotoEcho s.echo)) :=
        echo_scan [i] hseen (.inr (Nat.le_refl _))
      split
      · exact hstay
      · split
        · exact hstay
        · exact echo_scan [i] hseen (.inr hkeep)
    · exact echo_silent rfl
  all_goals exact echo_silent rfl

/-- A step of `alarm_task` is a scan of the table. -/
theorem alarm_step_store (keyScan : Nat) (s : System) :
    Scan (storeView s) (storeEvents (alarmStep keyScan s).2)
      (storeView (alarmStep keyScan s).1) := by
  have hbound : s.alarm.bound = readerBound s .alarm := rfl
  cases hpc : s.alarm <;> rw [hpc] at hbound <;> simp only [alarmStep, hpc]
  case testCount i =>
    split
    · next hi => exact alarm_scan [] (by simp) (.inl hi)
    · exact alarm_scan [] (by simp) (.inl (Nat.zero_le _))
  case checkAlarm i =>
    have hseen : ∀ j ∈ [i], j < s.alarm.bound := by simp [hpc, AlarmPc.bound]
    cases s.vars.alarms[i]? with
    | none =>
        show Scan (storeView s) [.read .alarm i] (storeView (s.gotoAlarm s.alarm))
        exact alarm_scan [i] hseen (.inr (Nat.le_refl _))
    | some alarm =>
        simp only
        split <;> exact alarm_scan [i] hseen (.inl (Nat.zero_le _))
  case ringPoll =>
    split <;> exact alarm_scan [] (by simp) (.inl (Nat.zero_le _))
  case ringDelay | delay => exact alarm_scan [] (by simp) (.inl (Nat.zero_le _))

/-- No step of the main task changes a capacity of eight. -/
theorem main_step_capacity (keyScan : Nat) {s : System} (h : s.vars.alarmCapacity = 8) :
    (mainStep keyScan s).1.vars.alarmCapacity = 8 := by
  rw [main_step_vars]
  cases s.main
  case seedAlarm | snoozeWrite | commitTimestamp | commitString =>
    exact (StaticVars.modify_alarm_capacity _ _ _).trans h
  case seedCapacity => rfl
  all_goals exact h

/-- The main task goes through `i2c_app_main` only once. -/
theorem startup_of_next {pc next : MainPc} (h : MainPc.Next next pc)
    (hstart : next.startup = true) :
    pc = .seedAlarm ∧ next = .seedCapacity ∨ pc = .seedCapacity ∧ next = .seedCount := by
  cases next <;> simp only [MainPc.startup, Bool.false_eq_true] at hstart
  all_goals cases pc <;> simp [MainPc.Next] at h ⊢

/-- What a step outside the main task does: it scans the table, and leaves the main task, the count
and the capacity alone. -/
structure Scanned (s next : System) (events : List (TableEvent Int Task)) : Prop where
  scan : Scan (storeView s) events (storeView next)
  main : next.main = s.main
  alarmCount : next.vars.alarmCount = s.vars.alarmCount
  alarmCapacity : next.vars.alarmCapacity = s.vars.alarmCapacity

/-- A step is one of the main task or scans the table. -/
theorem act_scanned (memory : Nat → Option UInt8) (s : System) (action : Action) :
    (∃ keyScan, action = .main keyScan) ∨
      Scanned s (act memory s action).1 (storeEvents (act memory s action).2) := by
  cases action with
  | main keyScan => exact .inl ⟨keyScan, rfl⟩
  | echo available =>
      have hframe := echo_step_frame memory available s
      exact .inr ⟨echo_step_store memory available s, hframe.main, hframe.alarmCount,
        hframe.alarmCapacity⟩
  | alarm keyScan =>
      have hframe := alarm_step_frame keyScan s
      exact .inr ⟨alarm_step_store keyScan s, hframe.main,
        congrArg StaticVars.alarmCount hframe.vars, congrArg StaticVars.alarmCapacity hframe.vars⟩
  | arrive bytes | tick now => exact .inr ⟨silent_scan rfl, rfl, rfl, rfl⟩

/-- A scan by another task keeps what holds of the store. -/
theorem Stocked.scan {s next : System} {history events : List (TableEvent Int Task)}
    (h : Stocked s history) (hscan : Scanned s next events) : Stocked next (history ++ events) := by
  refine ⟨hscan.main ▸ h.started, hscan.alarmCapacity.trans h.capacity, ?_,
    hscan.alarmCount ▸ h.nonempty, h.table.step (.scan hscan.scan)⟩
  rw [hscan.main, hscan.alarmCount]
  exact h.seeded

/-- A step of the main task keeps what holds of the store. -/
theorem Stocked.main {s : System} {history : List (TableEvent Int Task)} (h : Stocked s history)
    (keyScan : Nat) :
    Stocked (mainStep keyScan s).1 (history ++ storeEvents (mainStep keyScan s).2) := by
  have htable := main_step_store keyScan h
  have hlast : (mainStep keyScan s).1.main.startup = true →
      s.main = .seedCapacity ∧ (mainStep keyScan s).1.main = .seedCount := fun hstart =>
    (startup_of_next (main_step_next keyScan s) hstart).resolve_left fun hseed =>
      h.started hseed.1
  refine ⟨?_, main_step_capacity keyScan h.capacity, ?_,
    Nat.le_trans h.nonempty htable.count_le, h.table.step htable⟩
  · intro hseed
    obtain ⟨-, hcount⟩ := hlast (by rw [hseed]; rfl)
    exact absurd (hseed.symm.trans hcount) (by simp)
  · intro hstart
    obtain ⟨hwas, -⟩ := hlast hstart
    rw [main_step_vars, hwas]
    exact h.seeded (by rw [hwas]; rfl)

/-- A step keeps what holds of the store, and is a step of the table. -/
theorem Stocked.act {s : System} {history : List (TableEvent Int Task)} (h : Stocked s history)
    (memory : Nat → Option UInt8) (action : Action) :
    Step 8 snoozed (storeView s) (storeEvents (act memory s action).2)
        (storeView (act memory s action).1) ∧
      Stocked (act memory s action).1 (history ++ storeEvents (act memory s action).2) := by
  rcases act_scanned memory s action with ⟨keyScan, rfl⟩ | hscan
  · exact ⟨main_step_store keyScan h, h.main keyScan⟩
  · exact ⟨.scan hscan.scan, h.scan hscan⟩

/-- A run keeps what holds of the store, and is a run of the table. -/
theorem Stocked.run {memory : Nat → Option UInt8} {allowed : System → Action → Prop}
    {s next : System} {history : List (TableEvent Int Task)} {trace : List Event}
    (h : Stocked s history) (hrun : Run memory allowed s trace next) :
    Steps (Step 8 snoozed) (storeView s) (storeEvents trace) (storeView next) ∧
      Stocked next (history ++ storeEvents trace) := by
  refine hrun.invariant (fun state events =>
    Steps (Step 8 snoozed) (storeView s) (storeEvents events) (storeView state) ∧
      Stocked state (history ++ storeEvents events)) ⟨.refl _, by simpa [storeEvents] using h⟩ ?_
  intro events state emitted following _ ⟨htable, hstocked⟩ hstep
  obtain ⟨action, -, -, rfl, rfl⟩ := step_of_iff.mp hstep
  obtain ⟨hone, hnext⟩ := hstocked.act memory action
  rw [store_events_append, ← List.append_assoc]
  exact ⟨htable.snoc hone, hnext⟩

/-- What holds before the placeholder is written: nothing but reads have happened. -/
structure Booting (s : System) (history : List (TableEvent Int Task)) : Prop where
  start : s.main = .seedAlarm
  capacity : s.vars.alarmCapacity = 8
  count : s.vars.alarmCount = 1
  table : Fresh (storeView s) history

/-- A scan by another task does not end the start. -/
theorem Booting.scan {s next : System} {history events : List (TableEvent Int Task)}
    (h : Booting s history) (hscan : Scanned s next events) : Booting next (history ++ events) :=
  ⟨hscan.main.trans h.start, hscan.alarmCapacity.trans h.capacity,
    hscan.alarmCount.trans h.count, h.table.scan hscan.scan⟩

/-- Writing the placeholder establishes what holds of the store from then on. -/
theorem Booting.seed {s : System} {history : List (TableEvent Int Task)} (h : Booting s history)
    (keyScan : Nat) :
    Stocked (mainStep keyScan s).1 (history ++ storeEvents (mainStep keyScan s).2) := by
  have hstart := h.start
  have hcount : (mainStep keyScan s).1.vars.alarmCount = 1 := by
    simp [mainStep, hstart, System.gotoMain, System.modifyAlarm, h.count]
  have hview : storeView (mainStep keyScan s).1 =
      { storeView s with values := Function.update s.vars.timestamp 0 0 } := by
    have hout : ∀ alarmCount, s.main.bound alarmCount = 0 := by simp [hstart, MainPc.bound]
    simp only [mainStep, hstart]
    rw [store_view_main_write (by omega) _ (fun _ => 0) (fun _ => rfl) hout (fun _ => rfl)]
    simp [storeView, hstart, MainPc.writer]
  refine ⟨?_, main_step_capacity keyScan h.capacity, fun _ => hcount, Nat.le_of_eq hcount.symm, ?_⟩
  · simp [mainStep, hstart, System.gotoMain]
  · rw [hview, show storeEvents (mainStep keyScan s).2 = [.write 0 0] by
      simp only [mainStep, hstart]; rfl]
    exact h.table.seed h.count (by omega) (by simp [storeView, hstart, MainPc.writer]) 0

/-- Every run of the firmware is before the placeholder or keeps what holds of the store. -/
theorem boot_run {memory : Nat → Option UInt8} {allowed : System → Action → Prop} {clock : Int}
    {data dataDest : Buffer} {trace : List Event} {s : System}
    (h : Run memory allowed (boot clock data dataDest) trace s) :
    Booting s (storeEvents trace) ∨ Stocked s (storeEvents trace) := by
  refine h.invariant (fun state events =>
    Booting state (storeEvents events) ∨ Stocked state (storeEvents events)) ?_ ?_
  · refine .inl ⟨rfl, rfl, rfl, by simp [storeEvents], fun task => ?_⟩
    cases task <;> exact Nat.zero_le _
  · intro events state emitted following _ hinv hstep
    obtain ⟨action, -, -, rfl, rfl⟩ := step_of_iff.mp hstep
    rw [store_events_append]
    rcases hinv with hboot | hstocked
    · rcases act_scanned memory state action with ⟨keyScan, rfl⟩ | hscan
      · exact .inr (hboot.seed keyScan)
      · exact .inl (hboot.scan hscan)
    · exact .inr (hstocked.act memory action).2

/-- Repeated snoozes add up. -/
theorem snoozed_iterate (times : Nat) (alarmTimestamp : Int) :
    snoozed^[times] alarmTimestamp = alarmTimestamp + 300 * times := by
  induction times with
  | zero => simp
  | succ times ih =>
      rw [Function.iterate_succ_apply', ih, snoozed]
      omega

/-- The updates of an entry are its snoozes. -/
theorem updates_store_events (i : Nat) (trace : List Event) :
    updates i (storeEvents trace) = trace.count (.snoozed i) := by
  induction trace with
  | nil => rfl
  | cons event trace ih =>
      have hcons : storeEvents (event :: trace) = storeEvents [event] ++ storeEvents trace :=
        store_events_append [event] trace
      rw [hcons, updates_append, ih, List.count_cons, Nat.add_comm]
      congr 1
      cases event
      case readAlarm => rfl
      all_goals simp [storeEvents, storeEvent, List.filterMap_cons]

/-- What the store promises about a state `s` that `trace` leads to from the state `entry`, which
`past` leads to. -/
structure StoreLaw (past : List Event) (entry : System) (trace : List Event) (s : System) :
    Prop where
  count_pos : 1 ≤ s.vars.alarmCount
  count_le : s.vars.alarmCount ≤ s.vars.alarmCapacity
  capacity : s.vars.alarmCapacity = 8
  index_lt : ∀ access ∈ storeEvents trace, access.index < 8
  read_committed : ∀ before task i after, trace = before ++ .readAlarm task i :: after →
    ∃ alarmTimestamp, .committed i alarmTimestamp ∈ past ++ before
  count_mono : entry.vars.alarmCount ≤ s.vars.alarmCount
  committed : ∀ i < s.vars.alarmCount, ∃ alarmTimestamp,
    .committed i alarmTimestamp ∈ past ++ trace
  value : ∀ i alarmTimestamp, .committed i alarmTimestamp ∈ past ++ trace →
    s.vars.timestamp i = alarmTimestamp + 300 * (past ++ trace).count (.snoozed i)

/-- The commits of a trace are the writes of the table. -/
theorem mem_store_events_write {i : Nat} {alarmTimestamp : Int} {trace : List Event} :
    .write i alarmTimestamp ∈ storeEvents trace ↔ .committed i alarmTimestamp ∈ trace := by
  rw [storeEvents, List.mem_filterMap]
  constructor
  · rintro ⟨event, hmem, hevent⟩
    cases event <;> simp [storeEvent] at hevent
    case committed =>
      obtain ⟨rfl, rfl⟩ := hevent
      exact hmem
  · intro hmem
    exact ⟨_, hmem, rfl⟩

/-- From the entry of `activity_clock_main` on the alarm store keeps its law, in every order of
the single accesses of the three tasks. -/
theorem alarm_store_law {memory : Nat → Option UInt8} {clock : Int} {data dataDest : Buffer}
    {past trace : List Event} {entry s : System}
    (hpast : Run memory anyOrder (boot clock data dataDest) past entry)
    (hentered : entry.main.startup = false) (hrun : Run memory anyOrder entry trace s) :
    StoreLaw past entry trace s := by
  have hentry : Stocked entry (storeEvents past) := by
    refine (boot_run hpast).resolve_left fun hboot => ?_
    rw [hboot.start] at hentered
    simp [MainPc.startup] at hentered
  obtain ⟨htable, hs⟩ := hentry.run hrun
  rw [← store_events_append] at hs
  refine ⟨hs.nonempty, hs.capacity.symm ▸ hs.table.count_le, hs.capacity, ?_, ?_,
    htable.monotone State.count fun _ _ _ hstep => hstep.count_le, ?_, ?_⟩
  · intro access hmem
    obtain ⟨before, after, hsplit⟩ := List.append_of_mem hmem
    exact (hentry.table.run_access htable hsplit).1
  · rintro before task i after rfl
    have hsplit : storeEvents (before ++ .readAlarm task i :: after) =
        storeEvents before ++ .read task i :: storeEvents after := by
      rw [store_events_append]
      rfl
    obtain ⟨alarmTimestamp, hmem⟩ := (hentry.table.run_access htable hsplit).2 task i rfl
    rw [← store_events_append] at hmem
    exact ⟨alarmTimestamp, mem_store_events_write.mp hmem⟩
  · intro i hi
    obtain ⟨alarmTimestamp, hmem⟩ := hs.table.published i hi
    exact ⟨alarmTimestamp, mem_store_events_write.mp hmem⟩
  · intro i alarmTimestamp hmem
    have hvalue := hs.table.value i alarmTimestamp (mem_store_events_write.mpr hmem)
    rwa [snoozed_iterate, updates_store_events] at hvalue

/-- An alarm is set in the editor, `alarm_task` rings for it, and the user snoozes it in the ringing
screen; the snooze goes to entry 0. -/
theorem alarm_store_law_new_alarm :
    ∃ past entry trace s, Run (fun _ => none) anyOrder (boot 1000 .zero .zero) past entry ∧
      entry.main.startup = false ∧ Run (fun _ => none) anyOrder entry trace s ∧
      .committed 1 1000 ∈ trace ∧ .readAlarm .alarm 1 ∈ trace ∧ .committed 0 0 ∈ past ∧
      (past ++ trace).count (.snoozed 0) = 1 ∧ StoreLaw past entry trace s := by
  obtain ⟨entry, s, hpast, hentered, hrun⟩ := execute_split (fun s : System => s.main.startup)
    (show ((execute (step fun _ => none) anyOrder (List.replicate 3 (.main 0))
        (boot 1000 .zero .zero)).bind fun (entry, past) =>
      (execute (step fun _ => none) anyOrder
        ([.main 5, .main 0, .main 0, .main 11, .main 11] ++ List.replicate 4 (.main 0) ++
          List.replicate 4 (.alarm 0) ++ List.replicate 6 (.main 0) ++ [.main 14] ++
            List.replicate 6 (.main 0)) entry).map fun (_, trace) =>
        (entry.main.startup, past, trace)) =
      some (false, [.committed 0 0, .entered],
        [.polled .clock .alarmSettingActivity, .polled .editor .confirm,
          .polled .confirm .confirm, .committed 1 1000, .named 1, .counted,
          .readAlarm .alarm 0, .checked .alarm 0 0 1000, .readAlarm .alarm 1,
          .checked .alarm 1 1000 1000, .ringing .alarm (some 1), .posted .lightOn,
          .readAlarm .main 0, .checked .main 0 0 1000, .readAlarm .main 1,
          .checked .main 1 1000 1000, .ringing .main (some 1), .polled .ringing .cancel,
          .posted .alarm, .readAlarm .main 0, .readAlarm .main 1, .snoozed 0]) by decide)
  exact ⟨_, entry, _, s, hpast, hentered, hrun, by decide, by decide, by decide, by decide,
    alarm_store_law hpast hentered hrun⟩

end SaiyuanClock
