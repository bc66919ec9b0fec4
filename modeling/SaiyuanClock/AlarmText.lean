import SaiyuanClock.AlarmStore
import SaiyuanClock.Editor

/-!
# The texts of the stored alarms

An alarm holds its time twice, as a timestamp and as the text that `check_alarm` prints. The editor
writes both, a snooze changes the timestamp only, and the alarms that `app_main` and `i2c_app_main`
write have no text. `texts_agree_iff` says in which reachable states the two agree.
-/

namespace SaiyuanClock

open LabelledSteps SharedTable

namespace StaticVars

/-- The text of an entry of the array. -/
def text (vars : StaticVars) (i : Nat) : Option String :=
  vars.alarms[i]?.bind Alarm.alarmTimeString

/-- The text of an entry that is read. -/
theorem text_of_get {vars : StaticVars} {i : Nat} {alarm : Alarm}
    (h : vars.alarms[i]? = some alarm) : vars.text i = alarm.alarmTimeString := by
  simp [text, h]

/-- Writing to one entry leaves the texts of the others as they are. -/
theorem text_modify_alarm_ne (vars : StaticVars) {i j : Nat} (hij : i ≠ j) (f : Alarm → Alarm) :
    (vars.modifyAlarm i f).text j = vars.text j := by
  unfold text
  rw [modify_alarm_get, if_neg hij]

/-- Writing to an entry gives it the text that the written function gives. -/
theorem text_modify_alarm (vars : StaticVars) {i : Nat} (hi : i < 8) {f : Alarm → Alarm}
    (text : Option String) (hf : ∀ alarm, (f alarm).alarmTimeString = text) :
    (vars.modifyAlarm i f).text i = text := by
  unfold StaticVars.text
  rw [modify_alarm_get, if_pos rfl, Vector.getElem?_eq_getElem hi]
  exact hf _

/-- Writing to the timestamp of an entry leaves all texts as they are. -/
theorem text_modify_alarm_timestamp (vars : StaticVars) (i : Nat) (f : Alarm → Alarm)
    (hf : ∀ alarm, (f alarm).alarmTimeString = alarm.alarmTimeString) :
    (vars.modifyAlarm i f).text = vars.text := by
  funext j
  by_cases hij : i = j
  · subst hij
    unfold text
    rw [modify_alarm_get, if_pos rfl]
    cases vars.alarms[i]? with
    | none => rfl
    | some alarm => exact hf alarm
  · exact text_modify_alarm_ne vars hij f

end StaticVars

/-- The text of an alarm has been written, ends within its 32 bytes, and is that of the time of day
of its timestamp. -/
def Alarm.TextAgrees (alarm : Alarm) : Prop :=
  ∃ text, alarm.alarmTimeString = some text ∧ text.utf8ByteSize < 32 ∧
    text = (convertTimeToHhmmss alarm.alarmTimestamp).text

/-- The texts of all stored alarms agree with their timestamps, but for the placeholder's. -/
def TextsAgree (vars : StaticVars) : Prop :=
  ∀ alarm ∈ vars.stored, alarm.alarmTimestamp ≠ 0 → alarm.TextAgrees

/-- `alarm_set` at the clock reading `now`, which no task calls: the new alarm rings after the given
hours, minutes and seconds, and its text is not written. -/
def alarmSet (vars : StaticVars) (now hh mm ss : Int) : StaticVars :=
  if vars.alarmCount < vars.alarmCapacity then
    { vars.modifyAlarm vars.alarmCount fun _ => ⟨hh * 3600 + mm * 60 + ss + now, none⟩ with
      alarmCount := vars.alarmCount + 1 }
  else vars

/-- The text that the main task holds in the editor is that of the time that it holds. -/
def MainPc.TextHeld : MainPc → Prop
  | .editorDraw time | .editorDelay time => time.Valid
  | .editorPoll time timeStr | .editorConfirm time timeStr | .commitTime time timeStr =>
      time.Valid ∧ timeStr = time.text
  | .commitTimestamp alarmTimestamp timeStr =>
      timeStr = (convertTimeToHhmmss alarmTimestamp).text
  | _ => True

/-- From one program point to the next the main task keeps the text that it holds. -/
theorem next_text_held {pc next : MainPc} (h : pc.TextHeld) (hnext : MainPc.Next next pc) :
    next.TextHeld := by
  cases pc <;> simp only [MainPc.Next] at hnext
  case poll => rcases hnext with rfl | rfl | rfl | rfl | ⟨command, -, rfl⟩ <;> trivial
  case checkAlarms =>
    obtain ⟨_, rfl⟩ := hnext
    trivial
  case checkAlarm => rcases hnext with rfl | rfl | rfl | rfl <;> trivial
  case ringPoll =>
    obtain ⟨_, rfl⟩ := hnext
    trivial
  case ringWait => rcases hnext with rfl | rfl | rfl | rfl <;> trivial
  case snoozeFind => rcases hnext with rfl | ⟨i, rfl⟩ <;> trivial
  case snoozeDelay => rcases hnext with rfl | rfl <;> trivial
  case editorOpen =>
    obtain ⟨now, rfl⟩ := hnext
    exact convert_time_to_hhmmss_valid now
  case editorDraw =>
    rw [hnext]
    exact ⟨h, rfl⟩
  case editorPoll time timeStr =>
    rcases hnext with rfl | rfl | rfl | ⟨key, edited, hedit, rfl⟩
    · trivial
    · exact h
    · exact h.1
    · rcases edit_cases h.1 key with hdraw | hdelay
      · obtain rfl := MainPc.editorDraw.inj (hedit.symm.trans hdraw)
        exact h.1.edited _
      · exact absurd (hedit.symm.trans hdelay) (by simp)
  case editorConfirm =>
    rcases hnext with rfl | rfl
    · exact h
    · exact h.1
  case commitTime time timeStr =>
    rcases hnext with ⟨now, rfl⟩ | rfl
    · show timeStr = _
      rw [convert_time_to_hhmmss_timestamp _ h.1]
      exact h.2
    · trivial
  case editorDelay =>
    rw [hnext]
    exact h
  all_goals
    rw [hnext]
    trivial

/-- What holds of the texts after a run from a start at the clock reading `clock`: the sample alarm
and the placeholder have none, and every other entry has that of its timestamp without the
snoozes. -/
structure Texts (clock : Int) (s : System) (trace : List Event) : Prop where
  held : s.main.TextHeld
  sample : s.main = .seedAlarm → s.vars.timestamp 0 = clock + 120
  seeded : s.main ≠ .seedAlarm → .committed 0 0 ∈ trace
  placeholder : s.vars.text 0 = none
  pending : ∀ timeStr, s.main = .commitString timeStr →
    timeStr = (convertTimeToHhmmss (s.vars.timestamp s.vars.alarmCount)).text
  named : ∀ i, 1 ≤ i → i < s.vars.alarmCount ∨ i = s.vars.alarmCount ∧ s.main = .commitCount →
    s.vars.text i =
      some (convertTimeToHhmmss (s.vars.timestamp i - 300 * trace.count (.snoozed i))).text

section

variable {clock : Int} {s next : System} {trace emitted : List Event}

/-- A step that leaves the entries alone, snoozes nothing, and is not part of a commit keeps what
holds of the texts. -/
theorem Texts.keep (h : Texts clock s trace) (htext : next.vars.text = s.vars.text)
    (htimestamp : next.vars.timestamp = s.vars.timestamp)
    (hcount : next.vars.alarmCount = s.vars.alarmCount) (hheld : next.main.TextHeld)
    (hseed : next.main = .seedAlarm ↔ s.main = .seedAlarm)
    (hstring : ∀ timeStr, next.main = .commitString timeStr → s.main = .commitString timeStr)
    (hcommit : next.main = .commitCount → s.main = .commitCount)
    (hquiet : ∀ i, .snoozed i ∉ emitted) : Texts clock next (trace ++ emitted) := by
  refine ⟨hheld, ?_, ?_, htext ▸ h.placeholder, ?_, ?_⟩
  · intro hmain
    rw [htimestamp]
    exact h.sample (hseed.mp hmain)
  · intro hmain
    exact List.mem_append_left _ (h.seeded fun hwas => hmain (hseed.mpr hwas))
  · intro timeStr hmain
    rw [htimestamp, hcount]
    exact h.pending timeStr (hstring timeStr hmain)
  · intro i hpos hi
    rw [htext, htimestamp, List.count_append, List.count_eq_zero.mpr (hquiet i), Nat.add_zero]
    exact h.named i hpos (hcount ▸ hi.imp_right fun hlast => ⟨hlast.1, hcommit hlast.2⟩)

/-- A step outside the main task keeps what holds of the texts. -/
theorem Texts.other (h : Texts clock s trace) (hframe : OtherFrame s next)
    (hquiet : ∀ i, .snoozed i ∉ emitted) : Texts clock next (trace ++ emitted) := by
  have hmain := hframe.main
  have halarms := hframe.alarms
  refine h.keep ?_ ?_ hframe.alarmCount (hmain ▸ h.held) (by rw [hmain]) (by simp [hmain])
    (by simp [hmain]) hquiet
  · funext i
    rw [StaticVars.text, halarms]
    rfl
  · funext i
    rw [StaticVars.timestamp, halarms]
    rfl

/-- The main task comes to a write of a commit from the write before it. -/
theorem next_commit {pc next : MainPc} (hnext : MainPc.Next next pc) :
    (next = .seedAlarm → pc = .seedAlarm) ∧
      (∀ timeStr, next = .commitString timeStr →
        ∃ alarmTimestamp, pc = .commitTimestamp alarmTimestamp timeStr) ∧
      (next = .commitCount → ∃ timeStr, pc = .commitString timeStr) := by
  cases pc <;> simp only [MainPc.Next] at hnext
  case commitTimestamp | commitString => simp [hnext]
  all_goals grind

/-- The main task snoozes an entry by the write of the snooze. -/
theorem main_step_snoozed {keyScan i : Nat} {s : System}
    (h : .snoozed i ∈ (mainStep keyScan s).2) : ∃ cause, s.main = .snoozeWrite cause i := by
  have hemits := main_step_emits keyScan s _ h
  unfold MainPc.emits at hemits
  split at hemits <;> simp_all

/-- A snooze moves the timestamp of an entry by as much as it counts. -/
theorem Texts.snooze (h : Texts clock s trace) (hstocked : Stocked s (storeEvents trace))
    {cause : Option Nat} {i : Nat} (hpc : s.main = .snoozeWrite cause i) (keyScan : Nat) :
    Texts clock (mainStep keyScan s).1 (trace ++ (mainStep keyScan s).2) := by
  have hi : i < s.vars.alarmCount :=
    hstocked.table.chosen i (by simp [storeView, hpc, MainPc.writer])
  have hcount : s.vars.alarmCount ≤ 8 := hstocked.table.count_le
  have htext := StaticVars.text_modify_alarm_timestamp s.vars i
    (fun alarm => { alarm with alarmTimestamp := alarm.alarmTimestamp + 300 }) fun _ => rfl
  have htimestamp := StaticVars.timestamp_modify_alarm s.vars (show i < 8 by omega)
    (f := fun alarm => { alarm with alarmTimestamp := alarm.alarmTimestamp + 300 })
    (g := fun value => value + 300) fun _ => rfl
  simp only [mainStep, hpc]
  refine ⟨trivial, by simp [System.gotoMain], fun _ => ?_, ?_, by simp [System.gotoMain], ?_⟩
  · exact List.mem_append_left _ (h.seeded hstocked.started)
  · simp only [System.gotoMain, System.modifyAlarm]
    rw [htext]
    exact h.placeholder
  · simp only [System.gotoMain, System.modifyAlarm]
    rw [htext, htimestamp, StaticVars.modify_alarm_count]
    intro j hpos hj
    rw [h.named j hpos (.inl (hj.resolve_right (by simp))), List.count_append]
    by_cases hij : j = i
    · subst hij
      rw [Function.update_self, List.count_singleton_self]
      have hsame : s.vars.timestamp j - 300 * (trace.count (.snoozed j) : Int) =
          s.vars.timestamp j + 300 - 300 * ((trace.count (.snoozed j) + 1 : Nat) : Int) := by
        omega
      rw [hsame]
    · have hother : ([.snoozed i] : List Event).count (.snoozed j) = 0 := by
        rw [List.count_eq_zero]
        simp [hij]
      rw [Function.update_of_ne hij, hother, Nat.add_zero]

/-- The first write of a commit makes the text that the main task holds that of the new
timestamp. -/
theorem Texts.commit_timestamp (h : Texts clock s trace)
    (hstocked : Stocked s (storeEvents trace)) {alarmTimestamp : Int} {timeStr : String}
    (hpc : s.main = .commitTimestamp alarmTimestamp timeStr) (keyScan : Nat) :
    Texts clock (mainStep keyScan s).1 (trace ++ (mainStep keyScan s).2) := by
  have hroom : s.vars.alarmCount < 8 :=
    hstocked.table.room (.inl (by simp [storeView, hpc, MainPc.writer]))
  have htext := StaticVars.text_modify_alarm_timestamp s.vars s.vars.alarmCount
    (fun alarm => { alarm with alarmTimestamp := alarmTimestamp }) fun _ => rfl
  have htimestamp := StaticVars.timestamp_modify_alarm s.vars hroom
    (f := fun alarm => { alarm with alarmTimestamp := alarmTimestamp })
    (g := fun _ => alarmTimestamp) fun _ => rfl
  have hheld := h.held
  rw [hpc] at hheld
  simp only [mainStep, hpc]
  refine ⟨trivial, by simp [System.gotoMain], fun _ => ?_, ?_, ?_, ?_⟩
  · exact List.mem_append_left _ (h.seeded hstocked.started)
  · simp only [System.gotoMain, System.modifyAlarm]
    rw [htext]
    exact h.placeholder
  · simp only [System.gotoMain, System.modifyAlarm]
    intro other hother
    obtain rfl := MainPc.commitString.inj hother
    rw [StaticVars.modify_alarm_count, htimestamp, Function.update_self]
    exact hheld
  · simp only [System.gotoMain, System.modifyAlarm]
    rw [htext, htimestamp, StaticVars.modify_alarm_count]
    intro j hpos hj
    have hj : j < s.vars.alarmCount := hj.resolve_right (by simp)
    rw [Function.update_of_ne (Nat.ne_of_lt hj), List.count_append]
    simpa using h.named j hpos (.inl hj)

/-- The second write of a commit gives the new entry the text that the main task holds. -/
theorem Texts.commit_string (h : Texts clock s trace) (hstocked : Stocked s (storeEvents trace))
    {timeStr : String} (hpc : s.main = .commitString timeStr) (keyScan : Nat) :
    Texts clock (mainStep keyScan s).1 (trace ++ (mainStep keyScan s).2) := by
  have hroom : s.vars.alarmCount < 8 :=
    hstocked.table.room (.inr (by simp [storeView, hpc, MainPc.writer]))
  have hnonempty := hstocked.nonempty
  have htimestamp := StaticVars.timestamp_modify_alarm_text s.vars s.vars.alarmCount
    (fun alarm => { alarm with alarmTimeString := some timeStr }) fun _ => rfl
  simp only [mainStep, hpc]
  refine ⟨trivial, by simp [System.gotoMain], fun _ => ?_, ?_, by simp [System.gotoMain], ?_⟩
  · exact List.mem_append_left _ (h.seeded hstocked.started)
  · simp only [System.gotoMain, System.modifyAlarm]
    rw [StaticVars.text_modify_alarm_ne _ (by omega)]
    exact h.placeholder
  · simp only [System.gotoMain, System.modifyAlarm]
    rw [htimestamp, StaticVars.modify_alarm_count]
    intro j hpos hj
    rw [List.count_append]
    rcases hj with hj | ⟨rfl, -⟩
    · rw [StaticVars.text_modify_alarm_ne _ (Nat.ne_of_gt hj)]
      simpa using h.named j hpos (.inl hj)
    · have huntouched := hstocked.table.untouched _ (Nat.le_refl s.vars.alarmCount)
      rw [updates_store_events] at huntouched
      rw [StaticVars.text_modify_alarm _ hroom (some timeStr) fun _ => rfl,
        h.pending timeStr hpc, huntouched]
      simp

/-- The last write of a commit makes the new entry one of the stored alarms. -/
theorem Texts.commit_count (h : Texts clock s trace) (hstocked : Stocked s (storeEvents trace))
    (hpc : s.main = .commitCount) (keyScan : Nat) :
    Texts clock (mainStep keyScan s).1 (trace ++ (mainStep keyScan s).2) := by
  simp only [mainStep, hpc]
  refine ⟨trivial, by simp, fun _ => ?_, h.placeholder, by simp, fun j hpos hj => ?_⟩
  · exact List.mem_append_left _ (h.seeded hstocked.started)
  · have hj : j < s.vars.alarmCount + 1 := hj.resolve_right (by simp)
    have hquiet : (trace ++ [Event.counted]).count (Event.snoozed j) =
        trace.count (.snoozed j) := by simp
    rw [hquiet]
    rcases Nat.lt_succ_iff_lt_or_eq.mp hj with hlt | rfl
    · exact h.named j hpos (.inl hlt)
    · exact h.named _ hpos (.inr ⟨rfl, hpc⟩)

/-- A step of the main task after the placeholder keeps what holds of the texts. -/
theorem Texts.main_step (h : Texts clock s trace) (hstocked : Stocked s (storeEvents trace))
    (keyScan : Nat) :
    Texts clock (mainStep keyScan s).1 (trace ++ (mainStep keyScan s).2) := by
  have hnext := main_step_next keyScan s
  have hheld := next_text_held h.held hnext
  obtain ⟨hseed, hstring, hcommit⟩ := next_commit hnext
  have hvars := main_step_vars keyScan s
  have hquiet : (∀ cause i, s.main ≠ .snoozeWrite cause i) →
      ∀ i, .snoozed i ∉ (mainStep keyScan s).2 := by
    intro hother i hmem
    obtain ⟨cause, hmain⟩ := main_step_snoozed hmem
    exact hother cause i hmain
  cases hpc : s.main <;> rw [hpc] at hvars
  case seedAlarm => exact absurd hpc hstocked.started
  case snoozeWrite => exact h.snooze hstocked hpc keyScan
  case commitTimestamp => exact h.commit_timestamp hstocked hpc keyScan
  case commitString => exact h.commit_string hstocked hpc keyScan
  case commitCount => exact h.commit_count hstocked hpc keyScan
  -- no other step writes to an entry
  all_goals
    refine h.keep (by rw [hvars]; rfl) (by rw [hvars]; rfl) ?_ hheld
      (iff_of_false (fun hmain => hstocked.started (hseed hmain)) hstocked.started)
      (fun timeStr hmain => ?_) (fun hmain => ?_) (hquiet (by simp [hpc]))
    · first
      | rw [hvars]; rfl
      | rw [hvars]; exact (hstocked.seeded (by simp [hpc, MainPc.startup])).symm
    · obtain ⟨_, hother⟩ := hstring timeStr hmain
      simp [hpc] at hother
    · obtain ⟨_, hother⟩ := hcommit hmain
      simp [hpc] at hother

/-- Writing the placeholder establishes what holds of the texts from then on. -/
theorem texts_of_seed (hboot : Booting s (storeEvents trace)) (keyScan : Nat) :
    Texts clock (mainStep keyScan s).1 (trace ++ (mainStep keyScan s).2) := by
  have hone := hboot.count
  simp only [mainStep, hboot.start]
  refine ⟨trivial, by simp [System.gotoMain], fun _ => by simp, ?_, by simp [System.gotoMain], ?_⟩
  · simp only [System.gotoMain, System.modifyAlarm]
    exact StaticVars.text_modify_alarm _ (by omega) none fun _ => rfl
  · simp only [System.gotoMain, System.modifyAlarm]
    rw [StaticVars.modify_alarm_count]
    intro j hpos hj
    have hj : j < s.vars.alarmCount := hj.resolve_right (by simp)
    omega

end

/-- What holds of the texts after every run of the firmware. -/
theorem texts_of_run {memory : Nat → Option UInt8} {allowed : System → Action → Prop} {clock : Int}
    {data dataDest : Buffer} {trace : List Event} {s : System}
    (hrun : Run memory allowed (boot clock data dataDest) trace s) : Texts clock s trace := by
  refine hrun.invariant (fun state events => Texts clock state events) ?_ ?_
  · refine ⟨trivial, fun _ => rfl, fun hmain => absurd rfl hmain, rfl, by simp [boot], ?_⟩
    intro i hpos hi
    have hi : i < 1 := hi.resolve_right (by simp [boot])
    omega
  · intro events state emitted following hpast hinv hstep
    obtain ⟨action, -, -, rfl, rfl⟩ := step_of_iff.mp hstep
    by_cases hmain : ∃ keyScan, action = .main keyScan
    · obtain ⟨keyScan, rfl⟩ := hmain
      rcases boot_run hpast with hboot | hstocked
      · exact texts_of_seed hboot keyScan
      · exact hinv.main_step hstocked keyScan
    · have hframe := (act_other memory state action).resolve_left hmain
      exact hinv.other hframe fun i hmem => hmain (main_of_mem rfl hmem)

/-- The texts agree when those of all entries below the count do. -/
theorem texts_agree_entries {vars : StaticVars} (hcount : vars.alarmCount ≤ 8) :
    TextsAgree vars ↔ ∀ i < vars.alarmCount, vars.timestamp i ≠ 0 →
      ∃ text, vars.text i = some text ∧ text.utf8ByteSize < 32 ∧
        text = (convertTimeToHhmmss (vars.timestamp i)).text := by
  constructor
  · intro hagree i hi hreal
    obtain ⟨alarm, hget⟩ : ∃ alarm, vars.alarms[i]? = some alarm :=
      ⟨_, Vector.getElem?_eq_getElem (by omega)⟩
    have hmem := List.mem_of_getElem? (StaticVars.stored_get_iff.mpr ⟨hi, hget⟩)
    rw [StaticVars.timestamp_of_get hget] at hreal ⊢
    rw [StaticVars.text_of_get hget]
    exact hagree alarm hmem hreal
  · intro hentries alarm hmem hreal
    obtain ⟨i, hstored⟩ := List.mem_iff_getElem?.mp hmem
    obtain ⟨hi, hget⟩ := StaticVars.stored_get_iff.mp hstored
    have hentry := hentries i hi
    rw [StaticVars.timestamp_of_get hget, StaticVars.text_of_get hget] at hentry
    exact hentry hreal

/-- After `alarm_set` has appended an alarm, the texts do not agree. -/
theorem alarm_set_without_text {vars : StaticVars} {now hh mm ss : Int}
    (hroom : vars.alarmCount < vars.alarmCapacity) (hcapacity : vars.alarmCapacity ≤ 8)
    (hreal : hh * 3600 + mm * 60 + ss + now ≠ 0) : ¬ TextsAgree (alarmSet vars now hh mm ss) := by
  have hlast : vars.alarmCount < 8 := by omega
  intro hagree
  rw [alarmSet, if_pos hroom] at hagree
  have hentries := (texts_agree_entries (Nat.succ_le_of_lt hlast)).mp hagree
  have htimestamp := congrFun (StaticVars.timestamp_modify_alarm vars hlast
    (f := fun _ => ⟨hh * 3600 + mm * 60 + ss + now, none⟩)
    (g := fun _ => hh * 3600 + mm * 60 + ss + now) fun _ => rfl) vars.alarmCount
  rw [Function.update_self] at htimestamp
  have htext := StaticVars.text_modify_alarm vars hlast none
    (f := fun _ => ⟨hh * 3600 + mm * 60 + ss + now, none⟩) fun _ => rfl
  obtain ⟨text, hsome, -⟩ := hentries vars.alarmCount (Nat.lt_succ_self _)
    (htimestamp.trans_ne hreal)
  exact absurd (htext.symm.trans hsome) (by simp)

/-- After the placeholder is written, its timestamp is five minutes for each of its snoozes. -/
theorem placeholder_timestamp {memory : Nat → Option UInt8} {allowed : System → Action → Prop}
    {clock : Int} {data dataDest : Buffer} {trace : List Event} {s : System}
    (hrun : Run memory allowed (boot clock data dataDest) trace s) (hmain : s.main ≠ .seedAlarm) :
    s.vars.timestamp 0 = 300 * (trace.count (.snoozed 0) : Int) := by
  have hstocked := (boot_run hrun).resolve_left fun hboot => hmain hboot.start
  have hvalue := hstocked.table.value 0 0
    (mem_store_events_write.mpr ((texts_of_run hrun).seeded hmain))
  rw [snoozed_iterate, updates_store_events] at hvalue
  exact hvalue.trans (Int.zero_add _)

/-- Entry 0 holds the timestamp 0 exactly when the placeholder has replaced the sample alarm, or
the sample alarm itself has that timestamp, and the entry was never snoozed. -/
theorem placeholder_timestamp_iff {memory : Nat → Option UInt8}
    {allowed : System → Action → Prop} {clock : Int} {data dataDest : Buffer} {trace : List Event}
    {s : System} (hrun : Run memory allowed (boot clock data dataDest) trace s) :
    s.vars.timestamp 0 = 0 ↔ (s.main = .seedAlarm → clock = -120) ∧ .snoozed 0 ∉ trace := by
  rcases boot_run hrun with hboot | hstocked
  · have hsnoozes := hboot.table.updates_eq_zero 0
    rw [updates_store_events, List.count_eq_zero] at hsnoozes
    rw [(texts_of_run hrun).sample hboot.start]
    simp only [hboot.start, forall_const, hsnoozes, not_false_eq_true, and_true]
    omega
  · rw [placeholder_timestamp hrun hstocked.started, ← List.count_eq_zero]
    simp only [hstocked.started, false_implies, true_and]
    omega

/-- In every state that the firmware can reach, the texts of the stored alarms agree with their
timestamps exactly when the sample alarm of `app_main` has been replaced, the placeholder was never
snoozed, and every alarm was snoozed by whole days. -/
theorem texts_agree_iff {memory : Nat → Option UInt8} {clock : Int} {data dataDest : Buffer}
    {trace : List Event} {s : System}
    (hrun : Run memory anyOrder (boot clock data dataDest) trace s) :
    TextsAgree s.vars ↔ (s.main = .seedAlarm → clock = -120) ∧ .snoozed 0 ∉ trace ∧
      ∀ i, 1 ≤ i → i < s.vars.alarmCount → s.vars.timestamp i ≠ 0 →
        288 ∣ trace.count (.snoozed i) := by
  have htexts := texts_of_run hrun
  obtain ⟨hpos, hcount⟩ : 1 ≤ s.vars.alarmCount ∧ s.vars.alarmCount ≤ 8 := by
    rcases boot_run hrun with hboot | hstocked
    · have hone := hboot.count
      omega
    · exact ⟨hstocked.nonempty, hstocked.table.count_le⟩
  have hdays : ∀ i, 1 ≤ i → i < s.vars.alarmCount →
      ((∃ text, s.vars.text i = some text ∧ text.utf8ByteSize < 32 ∧
        text = (convertTimeToHhmmss (s.vars.timestamp i)).text) ↔
          288 ∣ trace.count (.snoozed i)) := by
    intro i hpos hi
    have hsize := text_size (convert_time_to_hhmmss_valid
      (s.vars.timestamp i - 300 * trace.count (.snoozed i)))
    have heq := convert_time_text_eq_iff
      (s.vars.timestamp i - 300 * trace.count (.snoozed i)) (s.vars.timestamp i)
    rw [htexts.named i hpos (.inl hi)]
    constructor
    · intro hagree
      obtain ⟨text, hsome, -, htext⟩ := hagree
      obtain rfl := Option.some.inj hsome
      have := heq.mp htext
      omega
    · intro hwhole
      exact ⟨_, rfl, by omega, heq.mpr (by omega)⟩
  rw [texts_agree_entries hcount, ← and_assoc, ← placeholder_timestamp_iff hrun]
  constructor
  · intro hentries
    refine ⟨?_, fun i hpos hi hreal => (hdays i hpos hi).mp (hentries i hi hreal)⟩
    by_contra hreal
    obtain ⟨text, hsome, -⟩ := hentries 0 (by omega) hreal
    rw [htexts.placeholder] at hsome
    simp at hsome
  · intro hentries i hi hreal
    obtain ⟨hzero, hothers⟩ := hentries
    have hpos : 1 ≤ i := by
      by_contra hfirst
      obtain rfl : i = 0 := by omega
      exact hreal hzero
    exact (hdays i hpos hi).mpr (hothers i hpos hi hreal)

/-- An alarm is set in the editor. -/
theorem texts_agree_iff_new_alarm :
    ∃ trace s, Run (fun _ => none) anyOrder (boot 1000 .zero .zero) trace s ∧
      s.vars.alarmCount = 2 ∧ TextsAgree s.vars := by
  obtain ⟨trace, s, hrun, hobserved⟩ := execute_observe
    (fun result : System × List Event => (result.1.main, result.1.vars.alarmCount, result.2))
    (show (execute (step fun _ => none) anyOrder
      (List.replicate 3 (.main 0) ++ [.main 5, .main 0, .main 0, .main 11, .main 11] ++
        List.replicate 4 (.main 0)) (boot 1000 .zero .zero)).map (fun result =>
          (result.1.main, result.1.vars.alarmCount, result.2)) =
      some (.postIndex .lightOn, 2, [.committed 0 0, .entered,
        .polled .clock .alarmSettingActivity, .polled .editor .confirm, .polled .confirm .confirm,
        .committed 1 1000, .named 1, .counted]) by decide)
  obtain ⟨hmain, hcount, rfl⟩ : s.main = _ ∧ s.vars.alarmCount = _ ∧ trace = _ := by
    simpa using hobserved
  refine ⟨_, s, hrun, hcount, (texts_agree_iff hrun).mpr ⟨?_, by simp, fun i _ _ _ => by simp⟩⟩
  simp [hmain]

/-- The alarm key opens the ringing screen, CANCEL snoozes the placeholder, and the placeholder is a
real alarm without a text. -/
theorem snoozed_placeholder_has_no_text :
    ∃ trace s, Run (fun _ => none) anyOrder (boot 1000 .zero .zero) trace s ∧
      s.main.startup = false ∧ ¬ TextsAgree s.vars := by
  obtain ⟨trace, s, hrun, hobserved⟩ := execute_observe
    (fun result : System × List Event => (result.1.main.startup, result.1.vars.stored))
    (show (execute (step fun _ => none) anyOrder
      (List.replicate 3 (.main 0) ++ [.main 2, .main 0, .main 14] ++ List.replicate 6 (.main 0))
        (boot 1000 .zero .zero)).map (fun result =>
          (result.1.main.startup, result.1.vars.stored)) =
      some (false, [⟨300, none⟩]) by decide)
  obtain ⟨hstartup, hstored⟩ := Prod.mk.inj hobserved
  refine ⟨trace, s, hrun, hstartup, fun hagree => ?_⟩
  obtain ⟨text, hsome, -⟩ := hagree ⟨300, none⟩ (by rw [hstored]; simp) (by simp)
  simp at hsome

end SaiyuanClock
