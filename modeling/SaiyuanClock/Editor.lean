import SaiyuanClock.Frames

/-!
# The alarm editor

`activity_alarm_setting` edits a time of day, starting from that of the clock, and appends an alarm
when the user confirms it twice. `editor_law` says for every call, complete or not, where the
editing keys lead and how the call ends. `confirmed_ahead_iff` says when the appended alarm lies
ahead: its day is that of the clock at the confirmation, also for a time of day that has passed.
-/

namespace SaiyuanClock

open LabelledSteps

/-! ## The edited time -/

/-- The time of day that the editing keys lead to. -/
def TimeOfDay.edited (time : TimeOfDay) (keys : List ButtonKey) : TimeOfDay where
  hh := (time.hh + keys.count .clickUp - keys.count .clickDown) % 24
  mm := (time.mm + keys.count .clickRight - keys.count .clickLeft) % 60
  ss := time.ss

/-- Editing leads to a time of day that a clock can show. -/
theorem TimeOfDay.Valid.edited {time : TimeOfDay} (h : time.Valid) (keys : List ButtonKey) :
    (time.edited keys).Valid := by
  simp only [TimeOfDay.Valid, TimeOfDay.edited]
  exact ⟨by omega, by omega, h.2.2⟩

/-- Without keys a time of day stays as it is. -/
theorem edited_nil {time : TimeOfDay} (h : time.Valid) : time.edited [] = time := by
  obtain ⟨hh, mm, ss⟩ := time
  simp only [TimeOfDay.Valid] at h
  simp only [TimeOfDay.edited, List.count_nil, TimeOfDay.mk.injEq, and_true]
  omega

/-- Keys are edited one after the other. -/
theorem edited_append (time : TimeOfDay) (keys more : List ButtonKey) :
    time.edited (keys ++ more) = (time.edited keys).edited more := by
  simp only [TimeOfDay.edited, List.count_append, TimeOfDay.mk.injEq, and_true]
  omega

/-- A key that is no edit key leaves the time of day as it is. -/
theorem edited_singleton_of_ne {time : TimeOfDay} (h : time.Valid) {key : ButtonKey}
    (hkey : key ∉ [ButtonKey.clickUp, .clickDown, .clickLeft, .clickRight]) :
    time.edited [key] = time := by
  rw [← edited_nil h, ← edited_append]
  simp only [List.mem_cons, List.not_mem_nil, or_false, not_or] at hkey
  obtain ⟨hup, hdown, hleft, hright⟩ := hkey
  simp [TimeOfDay.edited, hup, hdown, hleft, hright]

/-- The edit keys compute the edited time, and go on with the screen or the delay of the loop. -/
theorem edit_cases {time : TimeOfDay} (h : time.Valid) (key : ButtonKey) :
    edit time key = .editorDraw (time.edited [key]) ∨
      edit time key = .editorDelay (time.edited [key]) := by
  by_cases hkey : key ∈ [ButtonKey.clickUp, .clickDown, .clickLeft, .clickRight]
  · left
    obtain ⟨hh, mm, ss⟩ := time
    simp only [TimeOfDay.Valid] at h
    simp only [List.mem_cons, List.not_mem_nil, or_false] at hkey
    rcases hkey with rfl | rfl | rfl | rfl <;>
      simp only [edit, TimeOfDay.edited, MainPc.editorDraw.injEq, TimeOfDay.mk.injEq] <;>
      simp <;> omega
  · right
    rw [edited_singleton_of_ne h hkey]
    cases key <;> first | rfl | simp at hkey

/-! ## The calls of the editor -/

/-- The program points of `activity_alarm_setting` after the time of day is taken from the
clock. -/
def MainPc.inEditor : MainPc → Bool
  | .editorDraw _ | .editorPoll _ _ | .editorConfirm _ _ | .commitTime _ _ | .commitTimestamp _ _
  | .commitString _ | .commitCount | .editorDelay _ => true
  | _ => false

/-- The main task stays in `activity_alarm_setting` until it returns. -/
def insideEditor (s : System) : Action → Prop
  | .main _ => s.main.inEditor = true
  | _ => True

/-- Whether a step stays in the editor is decidable. -/
instance (s : System) : ∀ action, Decidable (insideEditor s action)
  | .main _ => inferInstanceAs (Decidable (_ = true))
  | .echo _ | .alarm _ | .arrive _ | .tick _ => inferInstanceAs (Decidable True)

/-- The hour, minute and second that the editor holds. -/
def MainPc.alarmTime : MainPc → Option TimeOfDay
  | .editorDraw time | .editorPoll time _ | .editorConfirm time _ | .commitTime time _
  | .editorDelay time => some time
  | _ => none

/-- The text that the editor shows below "Alarm time:". -/
def MainPc.shownText : MainPc → Option String
  | .editorPoll _ timeStr | .editorConfirm _ timeStr | .commitTime _ timeStr => some timeStr
  | _ => none

/-- A poll of the editor: the editing poll or the confirmation poll, and the key that it read. -/
def Event.editorPoll : Event → Option (Screen × ButtonKey)
  | .polled .editor key => some (.editor, key)
  | .polled .confirm key => some (.confirm, key)
  | _ => none

/-- The polls of the editor in a trace. -/
def editorPolls (trace : List Event) : List (Screen × ButtonKey) :=
  trace.filterMap Event.editorPoll

/-- The keys that the editing poll read. -/
def editingKeys (polls : List (Screen × ButtonKey)) : List ButtonKey :=
  (polls.filter fun poll => poll.1 = .editor).map Prod.snd

/-- The time of day that a call entered in the state `entry` has edited after the given polls. -/
def editedTime (entry : System) (polls : List (Screen × ButtonKey)) : TimeOfDay :=
  (convertTimeToHhmmss entry.clock).edited (editingKeys polls)

/-- The alarm store is that of the state `entry`. -/
structure SameStore (entry s : System) : Prop where
  alarms : s.vars.alarms = entry.vars.alarms
  alarmCount : s.vars.alarmCount = entry.vars.alarmCount
  alarmCapacity : s.vars.alarmCapacity = entry.vars.alarmCapacity

/-- The array of alarms is that of the state `entry` but for the entry at its count, of which `new`
holds; the count is `alarmCount`. -/
structure NewEntry (entry s : System) (new : Alarm → Prop) (alarmCount : Nat) : Prop where
  last : ∃ alarm, s.vars.alarms[entry.vars.alarmCount]? = some alarm ∧ new alarm
  others : ∀ i, i ≠ entry.vars.alarmCount → s.vars.alarms[i]? = entry.vars.alarms[i]?
  alarmCount : s.vars.alarmCount = alarmCount
  alarmCapacity : s.vars.alarmCapacity = entry.vars.alarmCapacity

/-- An alarm for a time of day on the local day of the clock reading `now`. -/
structure AlarmFor (time : TimeOfDay) (now : Int) (alarm : Alarm) : Prop where
  text : alarm.alarmTimeString = some time.text
  instant : localtimeR alarm.alarmTimestamp =
    { localtimeR now with tmHour := time.hh, tmMin := time.mm, tmSec := time.ss }
  roundTrip : convertTimeToHhmmss alarm.alarmTimestamp = time

/-- Where a call entered in the state `entry` is, after the given polls, as long as it has not
written to the store. -/
inductive Editing (entry : System) (polls : List (Screen × ButtonKey)) (s : System) : Prop where
  | draw :
      s.main = .editorDraw (editedTime entry polls) → SameStore entry s → Editing entry polls s
  | poll :
      s.main = .editorPoll (editedTime entry polls) (editedTime entry polls).text →
      SameStore entry s → Editing entry polls s
  | confirm :
      s.main = .editorConfirm (editedTime entry polls) (editedTime entry polls).text →
      SameStore entry s → [(.editor, .confirm)] <:+ polls → Editing entry polls s
  | convert :
      s.main = .commitTime (editedTime entry polls) (editedTime entry polls).text →
      SameStore entry s → [(.editor, .confirm), (.confirm, .confirm)] <:+ polls →
      Editing entry polls s
  | delay :
      s.main = .editorDelay (editedTime entry polls) → SameStore entry s → Editing entry polls s
  | cancelled :
      s.main = .postIndex .lightOn → SameStore entry s → [(.editor, .cancel)] <:+ polls →
      Editing entry polls s
  | full :
      s.main = .postIndex .lightOn → SameStore entry s →
      [(.editor, .confirm), (.confirm, .confirm)] <:+ polls →
      entry.vars.alarmCount = entry.vars.alarmCapacity → Editing entry polls s

/-- Where a call entered in the state `entry` is when it appends an alarm for a time of day that was
converted at the clock reading `now`. -/
inductive Committing (entry : System) (time : TimeOfDay) (now : Int) (s : System) : Prop where
  | timestamp :
      s.main = .commitTimestamp (convertHhmmssToTimestamp now time) time.text →
      SameStore entry s → Committing entry time now s
  | text :
      s.main = .commitString time.text →
      NewEntry entry s (fun alarm => alarm.alarmTimestamp = convertHhmmssToTimestamp now time)
        entry.vars.alarmCount → Committing entry time now s
  | count :
      s.main = .commitCount → NewEntry entry s (AlarmFor time now) entry.vars.alarmCount →
      Committing entry time now s
  | stored :
      s.main = .postIndex .lightOn →
      NewEntry entry s (AlarmFor time now) (entry.vars.alarmCount + 1) →
      Committing entry time now s

/-- A call that goes from the state `start` to the state `s` converts the confirmed time of day to
a timestamp by the step that it makes in the state `confirmed`. -/
def ConfirmedIn (memory : Nat → Option UInt8) (start : System) (trace : List Event) (s : System)
    (time : TimeOfDay) (confirmed : System) : Prop :=
  confirmed.main = .commitTime time time.text ∧ ∃ keyScan before after,
    trace = before ++ (mainStep keyScan confirmed).2 ++ after ∧
    Run memory insideEditor start before confirmed ∧
    Run memory insideEditor (mainStep keyScan confirmed).1 after s

/-- The three ways in which a call returns that was entered in the state `entry` and goes from the
state `start`, in which the time of day has been taken from the clock, to the state `s`. -/
inductive EditorExit (memory : Nat → Option UInt8) (entry start : System) (trace : List Event)
    (s : System) : Prop where
  | cancelled :
      [(.editor, .cancel)] <:+ editorPolls trace → SameStore entry s →
      EditorExit memory entry start trace s
  | full :
      [(.editor, .confirm), (.confirm, .confirm)] <:+ editorPolls trace →
      entry.vars.alarmCount = entry.vars.alarmCapacity → SameStore entry s →
      EditorExit memory entry start trace s
  | stored (confirmed) :
      [(.editor, .confirm), (.confirm, .confirm)] <:+ editorPolls trace →
      entry.vars.alarmCount < entry.vars.alarmCapacity →
      ConfirmedIn memory start trace s (editedTime entry (editorPolls trace)) confirmed →
      NewEntry entry s (AlarmFor (editedTime entry (editorPolls trace)) confirmed.clock)
        (entry.vars.alarmCount + 1) →
      EditorExit memory entry start trace s

/-- What the editor promises about the state `s` of a call. -/
structure EditorLaw (memory : Nat → Option UInt8) (entry start : System) (trace : List Event)
    (s : System) : Prop where
  valid : (editedTime entry (editorPolls trace)).Valid
  time : ∀ time, s.main.alarmTime = some time → time = editedTime entry (editorPolls trace)
  shown : ∀ timeStr, s.main.shownText = some timeStr →
    timeStr = (editedTime entry (editorPolls trace)).text
  exit : s.main = .postIndex .lightOn → EditorExit memory entry start trace s

/-- Whatever was edited is a time of day that a clock can show. -/
theorem edited_time_valid (entry : System) (polls : List (Screen × ButtonKey)) :
    (editedTime entry polls).Valid :=
  (convert_time_to_hhmmss_valid entry.clock).edited _

/-- The editing poll edits the time of day by the key that it read. -/
theorem edited_time_editor (entry : System) (polls : List (Screen × ButtonKey))
    (key : ButtonKey) :
    editedTime entry (polls ++ [(.editor, key)]) = (editedTime entry polls).edited [key] := by
  simp [editedTime, editingKeys, edited_append]

/-- The confirmation poll does not edit. -/
theorem edited_time_confirm (entry : System) (polls : List (Screen × ButtonKey))
    (key : ButtonKey) :
    editedTime entry (polls ++ [(.confirm, key)]) = editedTime entry polls := by
  simp [editedTime, editingKeys]

section

variable {entry s next : System} {polls : List (Screen × ButtonKey)} {new : Alarm → Prop}
  {alarmCount : Nat} {time : TimeOfDay} {now : Int}

/-- A step that leaves the alarms alone keeps the store of the entry. -/
theorem SameStore.keep (h : SameStore entry s) (halarms : next.vars.alarms = s.vars.alarms)
    (hcount : next.vars.alarmCount = s.vars.alarmCount)
    (hcapacity : next.vars.alarmCapacity = s.vars.alarmCapacity) : SameStore entry next :=
  ⟨halarms.trans h.alarms, hcount.trans h.alarmCount, hcapacity.trans h.alarmCapacity⟩

/-- Moving on in the editor keeps the store of the entry. -/
theorem SameStore.goto (h : SameStore entry s) (pc : MainPc) :
    SameStore entry (s.gotoMain pc) :=
  h.keep rfl rfl rfl

/-- A step outside the main task keeps the store of the entry. -/
theorem SameStore.other (h : SameStore entry s) (hframe : OtherFrame s next) :
    SameStore entry next :=
  h.keep hframe.alarms hframe.alarmCount hframe.alarmCapacity

/-- A step outside the main task keeps the new entry. -/
theorem NewEntry.other (h : NewEntry entry s new alarmCount) (hframe : OtherFrame s next) :
    NewEntry entry next new alarmCount := by
  refine ⟨?_, ?_, hframe.alarmCount.trans h.alarmCount,
    hframe.alarmCapacity.trans h.alarmCapacity⟩
  · rw [hframe.alarms]
    exact h.last
  · rw [hframe.alarms]
    exact h.others

/-- A step outside the main task leaves a call where it is. -/
theorem Editing.other (h : Editing entry polls s) (hframe : OtherFrame s next) :
    Editing entry polls next := by
  have hgo := hframe.main
  cases h with
  | draw hmain hstore => exact .draw (hgo.trans hmain) (hstore.other hframe)
  | poll hmain hstore => exact .poll (hgo.trans hmain) (hstore.other hframe)
  | confirm hmain hstore hpolls => exact .confirm (hgo.trans hmain) (hstore.other hframe) hpolls
  | convert hmain hstore hpolls => exact .convert (hgo.trans hmain) (hstore.other hframe) hpolls
  | delay hmain hstore => exact .delay (hgo.trans hmain) (hstore.other hframe)
  | cancelled hmain hstore hpolls =>
      exact .cancelled (hgo.trans hmain) (hstore.other hframe) hpolls
  | full hmain hstore hpolls hfull =>
      exact .full (hgo.trans hmain) (hstore.other hframe) hpolls hfull

/-- A step outside the main task leaves a call that appends an alarm where it is. -/
theorem Committing.other (h : Committing entry time now s) (hframe : OtherFrame s next) :
    Committing entry time now next := by
  have hgo := hframe.main
  cases h with
  | timestamp hmain hstore => exact .timestamp (hgo.trans hmain) (hstore.other hframe)
  | text hmain hnew => exact .text (hgo.trans hmain) (hnew.other hframe)
  | count hmain hnew => exact .count (hgo.trans hmain) (hnew.other hframe)
  | stored hmain hnew => exact .stored (hgo.trans hmain) (hnew.other hframe)

/-- A step of the main task in the editor goes on editing, or begins to append an alarm. -/
theorem Editing.main_step (h : Editing entry polls s) (hin : s.main.inEditor = true)
    (hfits : entry.vars.alarmCount ≤ entry.vars.alarmCapacity) (keyScan : Nat) :
    Editing entry (polls ++ editorPolls (mainStep keyScan s).2) (mainStep keyScan s).1 ∨
      s.main = .commitTime (editedTime entry polls) (editedTime entry polls).text ∧
        [(.editor, .confirm), (.confirm, .confirm)] <:+ polls ∧
        entry.vars.alarmCount < entry.vars.alarmCapacity ∧
        editorPolls (mainStep keyScan s).2 = [] ∧
        Committing entry (editedTime entry polls) s.clock (mainStep keyScan s).1 := by
  have hvalid := edited_time_valid entry polls
  cases h with
  | draw hmain hstore =>
      left
      simp only [mainStep, hmain, editorPolls, List.filterMap_nil, List.append_nil]
      exact .poll rfl (hstore.goto _)
  | delay hmain hstore =>
      left
      simp only [mainStep, hmain, editorPolls, List.filterMap_nil, List.append_nil]
      exact .draw rfl (hstore.goto _)
  | poll hmain hstore =>
      left
      simp only [mainStep, hmain]
      generalize buttonKeyCheck keyScan = key
      show Editing entry (polls ++ [(.editor, key)]) (s.gotoMain _)
      split
      · next hcancel =>
        exact .cancelled rfl (hstore.goto _) (hcancel ▸ List.suffix_append _ _)
      · split
        · next hconfirm =>
          subst hconfirm
          have htime : editedTime entry (polls ++ [(.editor, .confirm)]) =
              editedTime entry polls := by
            rw [edited_time_editor, edited_singleton_of_ne hvalid (by simp)]
          rw [← htime]
          exact .confirm rfl (hstore.goto _) (List.suffix_append _ _)
        · rcases edit_cases hvalid key with hdraw | hdelay
          · rw [hdraw, ← edited_time_editor]
            exact .draw rfl (hstore.goto _)
          · rw [hdelay, ← edited_time_editor]
            exact .delay rfl (hstore.goto _)
  | confirm hmain hstore hpolls =>
      left
      simp only [mainStep, hmain]
      generalize buttonKeyCheck keyScan = key
      show Editing entry (polls ++ [(.confirm, key)]) (s.gotoMain _)
      rw [← edited_time_confirm entry polls key]
      split
      · next hconfirm =>
        subst hconfirm
        obtain ⟨front, rfl⟩ := hpolls
        exact .convert rfl (hstore.goto _) ⟨front, by simp⟩
      · exact .delay rfl (hstore.goto _)
  | convert hmain hstore hpolls =>
      simp only [mainStep, hmain, editorPolls, List.filterMap_nil, List.append_nil]
      rw [hstore.alarmCount, hstore.alarmCapacity]
      split
      · next hroom =>
        exact .inr ⟨trivial, hpolls, hroom, trivial, .timestamp rfl (hstore.goto _)⟩
      · next hroom =>
        exact .inl (.full rfl (hstore.goto _) hpolls (by omega))
  | cancelled hmain | full hmain => simp [hmain, MainPc.inEditor] at hin

/-- A step of the main task in the editor goes on appending the alarm, and polls no key. -/
theorem Committing.main_step (h : Committing entry time now s) (hin : s.main.inEditor = true)
    (hvalid : time.Valid) (hroom : entry.vars.alarmCount < 8) (keyScan : Nat) :
    Committing entry time now (mainStep keyScan s).1 ∧
      editorPolls (mainStep keyScan s).2 = [] := by
  cases h with
  | timestamp hmain hstore =>
      simp only [mainStep, hmain]
      refine ⟨.text rfl ⟨?_, ?_, ?_, ?_⟩, rfl⟩
      all_goals simp only [System.gotoMain, System.modifyAlarm]
      · obtain ⟨alarm, hget⟩ : ∃ alarm, s.vars.alarms[entry.vars.alarmCount]? = some alarm :=
          ⟨_, Vector.getElem?_eq_getElem hroom⟩
        refine ⟨{ alarm with alarmTimestamp := _ }, ?_, rfl⟩
        rw [StaticVars.modify_alarm_get, hstore.alarmCount, if_pos rfl, hget]
        rfl
      · intro i hi
        rw [StaticVars.modify_alarm_get, hstore.alarmCount, if_neg (Ne.symm hi), hstore.alarms]
      · rw [StaticVars.modify_alarm_count, hstore.alarmCount]
      · rw [StaticVars.modify_alarm_capacity, hstore.alarmCapacity]
  | text hmain hnew =>
      simp only [mainStep, hmain]
      refine ⟨.count rfl ⟨?_, ?_, ?_, ?_⟩, rfl⟩
      all_goals simp only [System.gotoMain, System.modifyAlarm]
      · obtain ⟨alarm, hget, htimestamp⟩ := hnew.last
        refine ⟨{ alarm with alarmTimeString := some time.text }, ?_, rfl, ?_, ?_⟩
        · rw [StaticVars.modify_alarm_get, hnew.alarmCount, if_pos rfl, hget]
          rfl
        · rw [htimestamp, localtime_r_timestamp _ hvalid]
        · rw [htimestamp, convert_time_to_hhmmss_timestamp _ hvalid]
      · intro i hi
        rw [StaticVars.modify_alarm_get, hnew.alarmCount, if_neg (Ne.symm hi), hnew.others i hi]
      · rw [StaticVars.modify_alarm_count, hnew.alarmCount]
      · rw [StaticVars.modify_alarm_capacity, hnew.alarmCapacity]
  | count hmain hnew =>
      simp only [mainStep, hmain]
      exact ⟨.stored rfl ⟨hnew.last, hnew.others, congrArg (· + 1) hnew.alarmCount,
        hnew.alarmCapacity⟩, rfl⟩
  | stored hmain => simp [hmain, MainPc.inEditor] at hin

end

/-! ## Runs of the editor -/

/-- The polls of two traces one after the other. -/
theorem editor_polls_append (first rest : List Event) :
    editorPolls (first ++ rest) = editorPolls first ++ editorPolls rest :=
  List.filterMap_append

section

variable {memory : Nat → Option UInt8} {entry start s next : System} {trace emitted : List Event}
  {time : TimeOfDay} {now : Int} {keyScan : Nat}

/-- A step is one of the main task, or leaves the main task and the alarms alone and polls no key of
the editor. -/
theorem act_outside_editor (memory : Nat → Option UInt8) (s : System) (action : Action) :
    (∃ keyScan, action = .main keyScan) ∨
      OtherFrame s (act memory s action).1 ∧ editorPolls (act memory s action).2 = [] := by
  by_cases hmain : ∃ keyScan, action = .main keyScan
  · exact .inl hmain
  · refine .inr ⟨(act_other memory s action).resolve_left hmain,
      List.filterMap_eq_nil_iff.mpr fun event hmem => ?_⟩
    cases event with
    | polled screen key =>
        cases screen
        case editor | confirm => exact absurd (main_of_mem rfl hmem) hmain
        all_goals rfl
    | _ => rfl

/-- A step in the editor goes on appending the alarm, and polls no key. -/
theorem Committing.act (h : Committing entry time now s) {action : Action}
    (hin : insideEditor s action) (hvalid : time.Valid) (hroom : entry.vars.alarmCount < 8) :
    Committing entry time now (act memory s action).1 ∧
      editorPolls (SaiyuanClock.act memory s action).2 = [] := by
  rcases act_outside_editor memory s action with ⟨keyScan, rfl⟩ | ⟨hframe, hsilent⟩
  · exact h.main_step hin hvalid hroom keyScan
  · exact ⟨h.other hframe, hsilent⟩

/-- A run in the editor goes on appending the alarm. -/
theorem Committing.run (h : Committing entry time now start) (hvalid : time.Valid)
    (hroom : entry.vars.alarmCount < 8) (hrun : Run memory insideEditor start trace s) :
    Committing entry time now s := by
  refine hrun.invariant (fun state _ => Committing entry time now state) h ?_
  intro _ state emitted following _ hinv hstep
  obtain ⟨action, hin, -, rfl, -⟩ := step_of_iff.mp hstep
  exact (hinv.act hin hvalid hroom).1

/-- A step in the editor continues the call that converted the time of day before. -/
theorem ConfirmedIn.snoc {confirmed : System}
    (h : ConfirmedIn memory start trace s time confirmed)
    (hstep : StepOf (step memory) insideEditor s emitted next) :
    ConfirmedIn memory start (trace ++ emitted) next time confirmed := by
  obtain ⟨hmain, keyScan, before, after, rfl, hbefore, hafter⟩ := h
  exact ⟨hmain, keyScan, before, after ++ emitted, List.append_assoc _ _ _, hbefore,
    hafter.snoc hstep⟩

/-- Every run of the editor edits, or has converted the confirmed time of day and appends an
alarm for it. -/
theorem editing_run (hopen : entry.main = .editorOpen)
    (hfits : entry.vars.alarmCount ≤ entry.vars.alarmCapacity)
    (hcapacity : entry.vars.alarmCapacity ≤ 8)
    (hrun : Run memory insideEditor (mainStep keyScan entry).1 trace s) :
    Editing entry (editorPolls trace) s ∨
      [(.editor, .confirm), (.confirm, .confirm)] <:+ editorPolls trace ∧
        entry.vars.alarmCount < entry.vars.alarmCapacity ∧ ∃ confirmed,
          ConfirmedIn memory (mainStep keyScan entry).1 trace s
            (editedTime entry (editorPolls trace)) confirmed ∧
          Committing entry (editedTime entry (editorPolls trace)) confirmed.clock s := by
  refine hrun.invariant (fun state events => Editing entry (editorPolls events) state ∨
    [(.editor, .confirm), (.confirm, .confirm)] <:+ editorPolls events ∧
      entry.vars.alarmCount < entry.vars.alarmCapacity ∧ ∃ confirmed,
        ConfirmedIn memory (mainStep keyScan entry).1 events state
          (editedTime entry (editorPolls events)) confirmed ∧
        Committing entry (editedTime entry (editorPolls events)) confirmed.clock state) ?_ ?_
  · refine .inl (.draw ?_ ?_)
    · simp only [mainStep, hopen]
      show MainPc.editorDraw _ = _
      rw [editedTime]
      exact congrArg MainPc.editorDraw (edited_nil (convert_time_to_hhmmss_valid _)).symm
    · simp only [mainStep, hopen]
      exact ⟨rfl, rfl, rfl⟩
  · intro events state emitted following hpast hinv hstep
    obtain ⟨action, hin, -, rfl, rfl⟩ := step_of_iff.mp hstep
    rw [editor_polls_append]
    rcases hinv with hediting | ⟨htwice, hroom, confirmed, hconfirmed, hcommitting⟩
    · rcases act_outside_editor memory state action with ⟨keyScan, rfl⟩ | ⟨hframe, hsilent⟩
      · rcases hediting.main_step hin hfits keyScan with
          hgo | ⟨hmain, htwice, hroom, hsilent, hcommitting⟩
        · exact .inl hgo
        · -- this is the step that converts the time of day
          rw [act, hsilent, List.append_nil]
          exact .inr ⟨htwice, hroom, state, ⟨hmain, keyScan, events, [], by simp, hpast, .refl _⟩,
            hcommitting⟩
      · rw [hsilent, List.append_nil]
        exact .inl (hediting.other hframe)
    · obtain ⟨hgo, hsilent⟩ :=
        hcommitting.act hin (edited_time_valid entry _) (by omega)
      rw [hsilent, List.append_nil]
      exact .inr ⟨htwice, hroom, confirmed, hconfirmed.snoc hstep, hgo⟩

/-- A call of `activity_alarm_setting`, in every order of the steps of the tasks and for every
sequence of keys: the editing keys add up, and the call returns with the store unchanged or with
exactly the alarm that was shown. -/
theorem editor_law (hopen : entry.main = .editorOpen)
    (hfits : entry.vars.alarmCount ≤ entry.vars.alarmCapacity)
    (hcapacity : entry.vars.alarmCapacity ≤ 8)
    (hrun : Run memory insideEditor (mainStep keyScan entry).1 trace s) :
    EditorLaw memory entry (mainStep keyScan entry).1 trace s := by
  have hvalid := edited_time_valid entry (editorPolls trace)
  rcases editing_run hopen hfits hcapacity hrun with
    hediting | ⟨htwice, hroom, confirmed, hconfirmed, hcommitting⟩
  · cases hediting with
    | draw hmain | delay hmain =>
        refine ⟨hvalid, ?_, ?_, ?_⟩ <;> simp [hmain, MainPc.alarmTime, MainPc.shownText]
    | poll hmain | confirm hmain | convert hmain =>
        refine ⟨hvalid, ?_, ?_, ?_⟩ <;> simp [hmain, MainPc.alarmTime, MainPc.shownText]
    | cancelled hmain hstore hpolls =>
        refine ⟨hvalid, ?_, ?_, fun _ => .cancelled hpolls hstore⟩ <;>
          simp [hmain, MainPc.alarmTime, MainPc.shownText]
    | full hmain hstore hpolls hfull =>
        refine ⟨hvalid, ?_, ?_, fun _ => .full hpolls hfull hstore⟩ <;>
          simp [hmain, MainPc.alarmTime, MainPc.shownText]
  · cases hcommitting with
    | timestamp hmain | text hmain | count hmain =>
        refine ⟨hvalid, ?_, ?_, ?_⟩ <;> simp [hmain, MainPc.alarmTime, MainPc.shownText]
    | stored hmain hnew =>
        refine ⟨hvalid, ?_, ?_, fun _ => .stored confirmed htwice hroom hconfirmed hnew⟩ <;>
          simp [hmain, MainPc.alarmTime, MainPc.shownText]

end

/-- A call at 10:46:40 in which the hour is edited upwards and the alarm is confirmed: with room for
it, the alarm is entry 1. -/
theorem editor_law_hour_up :
    ∃ entry trace s, entry.main = .editorOpen ∧
      Run (fun _ => none) insideEditor (mainStep 0 entry).1 trace s ∧
      s.main = .postIndex .lightOn ∧
      editorPolls trace = [(.editor, .clickUp), (.editor, .confirm), (.confirm, .confirm)] ∧
      entry.vars.alarmCount = 1 ∧ entry.vars.alarmCapacity = 8 ∧ s.vars.alarmCount = 2 ∧
      s.vars.alarms[1]? = some ⟨13600, some "11:46:40"⟩ ∧
      EditorLaw (fun _ => none) entry (mainStep 0 entry).1 trace s := by
  obtain ⟨trace, s, hrun, hobserved⟩ := execute_observe
    (fun result : System × List Event =>
      (result.1.main, editorPolls result.2, result.1.vars.alarmCount, result.1.vars.alarms[1]?))
    (show (execute (step fun _ => none) insideEditor
      ([.main 0, .main 6, .main 0, .main 11, .main 11] ++ List.replicate 4 (.main 0))
        (mainStep 0 { boot 10000 .zero .zero with main := .editorOpen }).1).map (fun result =>
          (result.1.main, editorPolls result.2, result.1.vars.alarmCount,
            result.1.vars.alarms[1]?)) =
      some (.postIndex .lightOn,
        [(.editor, .clickUp), (.editor, .confirm), (.confirm, .confirm)], 2,
        some ⟨13600, some "11:46:40"⟩) by decide)
  simp only [Prod.mk.injEq] at hobserved
  obtain ⟨hmain, hpolls, hcount, halarm⟩ := hobserved
  exact ⟨_, trace, s, rfl, hrun, hmain, hpolls, rfl, rfl, hcount, halarm,
    editor_law rfl (show 1 ≤ 8 by decide) (Nat.le_refl 8) hrun⟩

/-! ## The confirmed alarm -/

/-- The second of the day. -/
def TimeOfDay.seconds (time : TimeOfDay) : Int := time.hh * 3600 + time.mm * 60 + time.ss

/-- A timestamp lies less than a day ahead of the clock reading. -/
def Ahead (now alarmTimestamp : Int) : Prop :=
  now ≤ alarmTimestamp ∧ alarmTimestamp < now + 86400

/-- A time of day on the local day of the clock reading lies ahead if and only if it has not
passed. -/
theorem ahead_iff {now : Int} {time : TimeOfDay} {alarm : Alarm} (hvalid : time.Valid)
    (halarm : AlarmFor time now alarm) :
    Ahead now alarm.alarmTimestamp ↔ (convertTimeToHhmmss now).seconds ≤ time.seconds := by
  have htimestamp : alarm.alarmTimestamp = mktime
      { localtimeR now with tmHour := time.hh, tmMin := time.mm, tmSec := time.ss } := by
    rw [← halarm.instant, mktime_localtime_r]
  have hnow := mktime_localtime_r now
  have hclock := convert_time_to_hhmmss_valid now
  simp only [TimeOfDay.Valid] at hvalid
  simp only [TimeOfDay.Valid, convertTimeToHhmmss] at hclock
  simp only [mktime] at htimestamp hnow
  simp only [Ahead, TimeOfDay.seconds, convertTimeToHhmmss]
  omega

/-- A call that has room for an alarm and converted the confirmed time of day returns with the alarm
for it. -/
theorem stored_of_confirmed {memory : Nat → Option UInt8} {entry confirmed s : System}
    {trace : List Event} {time : TimeOfDay} {keyScan : Nat} (hopen : entry.main = .editorOpen)
    (hroom : entry.vars.alarmCount < entry.vars.alarmCapacity)
    (hcapacity : entry.vars.alarmCapacity ≤ 8)
    (hcall : ConfirmedIn memory (mainStep keyScan entry).1 trace s time confirmed)
    (hreturned : s.main = .postIndex .lightOn) :
    time.Valid ∧ NewEntry entry s (AlarmFor time confirmed.clock) (entry.vars.alarmCount + 1) := by
  obtain ⟨hmain, confirmKey, before, after, -, hbefore, hafter⟩ := hcall
  have hvalid := edited_time_valid entry (editorPolls before)
  have hediting : Editing entry (editorPolls before) confirmed := by
    refine (editing_run hopen (Nat.le_of_lt hroom) hcapacity hbefore).resolve_right ?_
    intro hahead
    obtain ⟨-, -, _, -, hcommitting⟩ := hahead
    cases hcommitting with
    | timestamp hother | text hother | count hother | stored hother => simp [hmain] at hother
  obtain ⟨rfl, hstore⟩ : time = editedTime entry (editorPolls before) ∧
      SameStore entry confirmed := by
    cases hediting with
    | convert hother hstore => exact ⟨by simp_all, hstore⟩
    | draw hother | poll hother | confirm hother | delay hother | cancelled hother
    | full hother => simp [hmain] at hother
  have hbegin : Committing entry (editedTime entry (editorPolls before)) confirmed.clock
      (mainStep confirmKey confirmed).1 := by
    simp only [mainStep, hmain]
    rw [hstore.alarmCount, hstore.alarmCapacity, if_pos hroom]
    exact .timestamp rfl (hstore.goto _)
  have hend := hbegin.run hvalid (by omega) hafter
  cases hend with
  | stored _ hnew => exact ⟨hvalid, hnew⟩
  | timestamp hother | text hother | count hother => simp [hreturned] at hother

/-- The alarm that a call of the editor appends lies ahead, as the next occurrence of its time of
day, exactly when this time of day has not passed on the clock at the confirmation: its day is
always that of the clock. -/
theorem confirmed_ahead_iff {memory : Nat → Option UInt8} {entry confirmed s : System}
    {trace : List Event} {time : TimeOfDay} {keyScan : Nat} (hopen : entry.main = .editorOpen)
    (hroom : entry.vars.alarmCount < entry.vars.alarmCapacity)
    (hcapacity : entry.vars.alarmCapacity ≤ 8)
    (hcall : ConfirmedIn memory (mainStep keyScan entry).1 trace s time confirmed)
    (hreturned : s.main = .postIndex .lightOn) :
    Ahead confirmed.clock (s.vars.timestamp entry.vars.alarmCount) ↔
      (convertTimeToHhmmss confirmed.clock).seconds ≤ time.seconds := by
  obtain ⟨hvalid, hnew⟩ := stored_of_confirmed hopen hroom hcapacity hcall hreturned
  obtain ⟨alarm, hget, halarm⟩ := hnew.last
  rw [StaticVars.timestamp_of_get hget]
  exact ahead_iff hvalid halarm

/-- A call with one edit key before the two confirmations. The editor is opened at the first poll of
the main loop, when the clock reads 10000. -/
theorem editor_call (key : Nat) (time : TimeOfDay) (alarmTimestamp : Int)
    (h : ((execute (step fun _ => none) anyOrder [.main 0, .main 0, .main 0, .main 5]
        (boot 10000 .zero .zero)).bind fun (entry, _) =>
          (execute (step fun _ => none) insideEditor
            [.main 0, .main key, .main 0, .main 11, .main 11] (mainStep 0 entry).1).bind
              fun (confirmed, before) => (execute (step fun _ => none) insideEditor
                [.main 0, .main 0, .main 0] (mainStep 0 confirmed).1).map fun (s, after) =>
                  (((entry.main, entry.vars.alarmCount, entry.vars.alarmCapacity),
                    (confirmed.main, confirmed.clock), s.main, s.vars.timestamp 1),
                      before, after)) =
      some (((.editorOpen, 1, 8), (.commitTime time time.text, 10000), .postIndex .lightOn,
        alarmTimestamp), [.polled .editor (buttonKeyCheck key), .polled .editor .confirm,
          .polled .confirm .confirm], [.committed 1 alarmTimestamp, .named 1, .counted])) :
    ∃ past entry trace confirmed s,
      Run (fun _ => none) anyOrder (boot 10000 .zero .zero) past entry ∧
      entry.main = .editorOpen ∧ entry.vars.alarmCount = 1 ∧ entry.vars.alarmCapacity = 8 ∧
      ConfirmedIn (fun _ => none) (mainStep 0 entry).1 trace s time confirmed ∧
      confirmed.clock = 10000 ∧ s.main = .postIndex .lightOn ∧
      s.vars.timestamp 1 = alarmTimestamp := by
  obtain ⟨⟨entry, past⟩, hentry, h⟩ := Option.bind_eq_some_iff.mp h
  obtain ⟨confirmed, s, hbefore, hafter, hobserved⟩ := execute_resume
    (fun confirmed => (mainStep 0 confirmed).1)
    (fun confirmed s => ((entry.main, entry.vars.alarmCount, entry.vars.alarmCapacity),
      (confirmed.main, confirmed.clock), s.main, s.vars.timestamp 1)) h
  obtain ⟨⟨hopen, hcount, hcapacity⟩, ⟨hmain, hclock⟩, hreturned, htimestamp⟩ := by
    simpa using hobserved
  exact ⟨past, entry, _, confirmed, s, execute_steps hentry, hopen, hcount, hcapacity,
    ⟨hmain, 0, _, _, rfl, hbefore, hafter⟩, hclock, hreturned, htimestamp⟩

/-- The alarm is set one hour ahead of the clock. -/
theorem confirmed_ahead_iff_hour_up :
    ∃ entry confirmed s trace, entry.main = .editorOpen ∧
      ConfirmedIn (fun _ => none) (mainStep 0 entry).1 trace s ⟨11, 46, 40⟩ confirmed ∧
      (Ahead confirmed.clock (s.vars.timestamp entry.vars.alarmCount) ↔
        (convertTimeToHhmmss confirmed.clock).seconds ≤ TimeOfDay.seconds ⟨11, 46, 40⟩) := by
  obtain ⟨_, entry, trace, confirmed, s, -, hopen, hcount, hcapacity, hcall, -, hreturned, -⟩ :=
    editor_call 6 ⟨11, 46, 40⟩ 13600 (by decide)
  exact ⟨entry, confirmed, s, trace, hopen, hcall,
    confirmed_ahead_iff hopen (by omega) (by omega) hcall hreturned⟩

/-- The alarm is set one hour back from the clock, and lies in the past. -/
theorem hour_down_behind :
    ∃ past entry confirmed s trace,
      Run (fun _ => none) anyOrder (boot 10000 .zero .zero) past entry ∧
      entry.main = .editorOpen ∧ entry.vars.alarmCount < entry.vars.alarmCapacity ∧
      ConfirmedIn (fun _ => none) (mainStep 0 entry).1 trace s ⟨9, 46, 40⟩ confirmed ∧
      s.main = .postIndex .lightOn ∧
      ¬ Ahead confirmed.clock (s.vars.timestamp entry.vars.alarmCount) := by
  obtain ⟨past, entry, trace, confirmed, s, hpast, hopen, hcount, hcapacity, hcall, hclock,
    hreturned, htimestamp⟩ := editor_call 7 ⟨9, 46, 40⟩ 6400 (by decide)
  refine ⟨past, entry, confirmed, s, trace, hpast, hopen, by omega, hcall, hreturned, ?_⟩
  rw [hcount, hclock, htimestamp]
  unfold Ahead
  omega

end SaiyuanClock
