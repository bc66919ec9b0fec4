import Mathlib.Data.Fintype.Basic
import SaiyuanClock.Library.Steps
import SaiyuanClock.System

/-!
# Scanning the keypad

The steps of the tasks take the number that `key_scan` finds from outside; here the scan itself is
the program. It drives the rows of the matrix low one after the other and looks for a column that a
pressed key pulls low. The rows are shared: a task that scans while another does may find the key
through the row of the other one, and takes it for a key of its own row. `polls_right_iff` says
when this happens, and `exclusive_polls_right` that it does not when one task scans at a time.
-/

namespace SaiyuanClock

open LabelledSteps

/-- A key of the matrix. -/
structure KeyPosition where
  row : Fin 4
  column : Fin 4
  deriving DecidableEq, Repr

/-- `key_val` of a key. -/
def KeyPosition.keyVal (key : KeyPosition) : Nat := key.row.val * 4 + key.column.val + 1

/-- The program points of a task that polls the keypad through `button_key_check`: outside, and at
the calls of `gpio_set_level` and `gpio_get_level` in `key_scan`. -/
inductive ScanPc where
  | idle
  | selectRow (i : Fin 4)
  | readColumn (i j : Fin 4)
  | restoreRow (i : Fin 4) (keyVal : Nat)
  deriving DecidableEq, Repr

/-- The levels of the four rows, and where the polling tasks are. -/
structure Keypad (Poller : Type*) where
  level : Fin 4 → Bool
  pc : Poller → ScanPc

/-- What a call of `button_key_check` returned to a task. -/
structure PollResult (Poller : Type*) where
  poller : Poller
  key : ButtonKey
  deriving DecidableEq, Repr

/-- The level of a column: a pressed key pulls it low when its row is driven low. -/
def columnLevel (pressed : KeyPosition → Bool) (level : Fin 4 → Bool) (j : Fin 4) : Bool :=
  !decide (∃ i, level i = false ∧ pressed ⟨i, j⟩ = true)

variable {Poller : Type*} [DecidableEq Poller]

namespace Keypad

/-- Drive a row. -/
def setLevel (s : Keypad Poller) (i : Fin 4) (level : Bool) : Keypad Poller :=
  { s with level := Function.update s.level i level }

/-- A task reaches a program point. -/
def goto (s : Keypad Poller) (poller : Poller) (pc : ScanPc) : Keypad Poller :=
  { s with pc := Function.update s.pc poller pc }

end Keypad

/-- The next access of a task that polls the keypad; outside a poll it begins one, with
`MatrixKey_GPIO_Init`, which leaves the levels as they are. -/
def scanAct (pressed : KeyPosition → Bool) (poller : Poller) (s : Keypad Poller) :
    Keypad Poller × List (PollResult Poller) :=
  match s.pc poller with
  | .idle => (s.goto poller (.selectRow 0), [])
  | .selectRow i => ((s.setLevel i false).goto poller (.readColumn i 0), [])
  | .readColumn i j =>
      -- a low column counts for this row, whichever row pulls it low
      (s.goto poller
        (if columnLevel pressed s.level j = false then .restoreRow i (KeyPosition.keyVal ⟨i, j⟩)
        else if h : j.val + 1 < 4 then .readColumn i ⟨j.val + 1, h⟩
        else .restoreRow i 0), [])
  | .restoreRow i keyVal =>
      if h : keyVal = 0 ∧ i.val + 1 < 4 then
        ((s.setLevel i true).goto poller (.selectRow ⟨i.val + 1, h.2⟩), [])
      else ((s.setLevel i true).goto poller .idle, [⟨poller, buttonKeyCheck keyVal⟩])

/-- One step of the polling tasks. -/
def scanStep (pressed : KeyPosition → Bool) (poller : Poller) (s : Keypad Poller) :
    Option (Keypad Poller × List (PollResult Poller)) :=
  some (scanAct pressed poller s)

/-- Only one key is held down. -/
def held (key : KeyPosition) (other : KeyPosition) : Bool := other = key

/-- A run of the polling tasks while a key is held down. -/
abbrev PollRun (key : KeyPosition) (allowed : Keypad Poller → Poller → Prop) :
    Keypad Poller → List (PollResult Poller) → Keypad Poller → Prop :=
  Steps (StepOf (scanStep (held key)) allowed)

/-- Any order of accesses. -/
def anyPoll (_ : Keypad Poller) (_ : Poller) : Prop := True

/-- Nothing is excluded by `anyPoll`. -/
instance (s : Keypad Poller) (poller : Poller) : Decidable (anyPoll s poller) :=
  inferInstanceAs (Decidable True)

/-- The function of the key that is held down, or none. -/
def RightKey (held : KeyPosition) (key : ButtonKey) : Prop :=
  key = buttonKeyCheck held.keyVal ∨ key = .blank

/-- A task is not about to return the function of another key. -/
def ScanPc.Right (held : KeyPosition) : ScanPc → Prop
  | .restoreRow _ keyVal => RightKey held (buttonKeyCheck keyVal)
  | _ => True

/-- What the polls have found is right: what they returned, and what they are about to return. -/
structure PollsRight (held : KeyPosition) (trace : List (PollResult Poller)) (s : Keypad Poller) :
    Prop where
  returned : ∀ result ∈ trace, RightKey held result.key
  found : ∀ poller, (s.pc poller).Right held

/-- A task that reads the column of the key that is held down, while the row of that key is low,
is at a row of its own whose key in that column has the same function. -/
def readsHeldFunction (held : KeyPosition) (s : Keypad Poller) (poller : Poller) : Prop :=
  ∀ i, s.pc poller = .readColumn i held.column → s.level held.row = false →
    buttonKeyCheck (KeyPosition.keyVal ⟨i, held.column⟩) = buttonKeyCheck held.keyVal

/-- The row that a task has driven low and not restored yet. -/
def ScanPc.selected : ScanPc → Option (Fin 4)
  | .readColumn i _ | .restoreRow i _ => some i
  | _ => none

/-- No other task is inside a poll. -/
def exclusive (s : Keypad Poller) (poller : Poller) : Prop :=
  ∀ other, other ≠ poller → s.pc other = .idle

/-- The steps of a run of the polling tasks. -/
theorem scan_step_of_iff {key : KeyPosition} {allowed : Keypad Poller → Poller → Prop}
    {s next : Keypad Poller} {emitted : List (PollResult Poller)} :
    StepOf (scanStep (held key)) allowed s emitted next ↔
      ∃ poller, allowed s poller ∧ (scanAct (held key) poller s).1 = next ∧
        (scanAct (held key) poller s).2 = emitted := by
  refine exists_congr fun poller => and_congr_right fun _ => ?_
  simp [scanStep, Prod.ext_iff]

/-- A column is low exactly when it is the one of the key that is held down and the row of that key
is low. -/
theorem column_level_held {key : KeyPosition} {level : Fin 4 → Bool} {j : Fin 4} :
    columnLevel (held key) level j = false ↔ level key.row = false ∧ j = key.column := by
  rw [columnLevel, Bool.not_eq_false', decide_eq_true_eq]
  constructor
  · intro hpull
    obtain ⟨i, hlow, hpressed⟩ := hpull
    obtain rfl : (⟨i, j⟩ : KeyPosition) = key := of_decide_eq_true hpressed
    exact ⟨hlow, rfl⟩
  · intro hcolumn
    obtain ⟨hlow, rfl⟩ := hcolumn
    exact ⟨key.row, hlow, decide_eq_true rfl⟩

/-- Every key has a function. -/
theorem key_val_not_blank (key : KeyPosition) : buttonKeyCheck key.keyVal ≠ .blank := by
  obtain ⟨row, column⟩ := key
  revert row column
  decide

/-- A scan that has found no key returns no function. -/
theorem right_key_zero (key : KeyPosition) : RightKey key (buttonKeyCheck 0) := .inr rfl

section

variable {key : KeyPosition} {start s next : Keypad Poller} {poller : Poller}
  {trace emitted : List (PollResult Poller)}

/-- Only the task that moves can change whether what was found is right. -/
theorem polls_right_move_iff {pc : ScanPc} (hnext : next.pc = Function.update s.pc poller pc)
    (hmove : (∀ result ∈ emitted, RightKey key result.key) ∧ pc.Right key ↔
      (s.pc poller).Right key ∧ readsHeldFunction key s poller) :
    PollsRight key emitted next ↔ PollsRight key [] s ∧ readsHeldFunction key s poller := by
  have hothers : (∀ other, (next.pc other).Right key) ↔
      pc.Right key ∧ ∀ other, other ≠ poller → (s.pc other).Right key := by
    rw [hnext]
    exact Function.forall_update_iff s.pc fun _ pc => pc.Right key
  constructor
  · intro hright
    obtain ⟨hreturned, hfound⟩ := hright
    obtain ⟨hpc, hrest⟩ := hothers.mp hfound
    obtain ⟨hbefore, hreads⟩ := hmove.mp ⟨hreturned, hpc⟩
    refine ⟨⟨by simp, fun other => ?_⟩, hreads⟩
    by_cases hother : other = poller
    · exact hother ▸ hbefore
    · exact hrest other hother
  · intro hright
    obtain ⟨⟨-, hfound⟩, hreads⟩ := hright
    obtain ⟨hreturned, hpc⟩ := hmove.mpr ⟨hfound poller, hreads⟩
    exact ⟨hreturned, hothers.mpr ⟨hpc, fun other _ => hfound other⟩⟩

/-- What is found after an access is right exactly when it was right before, and the access does not
read the column of the key that is held down for a key with another function. -/
theorem scan_act_right_iff (key : KeyPosition) (poller : Poller) (s : Keypad Poller) :
    PollsRight key (scanAct (held key) poller s).2 (scanAct (held key) poller s).1 ↔
      PollsRight key [] s ∧ readsHeldFunction key s poller := by
  cases hpc : s.pc poller <;> simp only [scanAct, hpc]
  case idle | selectRow =>
    refine polls_right_move_iff rfl ?_
    simp [hpc, ScanPc.Right, readsHeldFunction]
  case readColumn i j =>
    refine polls_right_move_iff rfl ?_
    by_cases hlow : columnLevel (held key) s.level j = false
    · obtain ⟨hrow, rfl⟩ := column_level_held.mp hlow
      have hkey : RightKey key (buttonKeyCheck (KeyPosition.keyVal ⟨i, key.column⟩)) ↔
          buttonKeyCheck (KeyPosition.keyVal ⟨i, key.column⟩) = buttonKeyCheck key.keyVal :=
        or_iff_left (key_val_not_blank _)
      simp [hpc, hlow, hrow, ScanPc.Right, readsHeldFunction, hkey]
    · have hreads : readsHeldFunction key s poller := by
        intro row hrow hlevel
        rw [hpc] at hrow
        obtain ⟨rfl, rfl⟩ := ScanPc.readColumn.inj hrow
        exact absurd (column_level_held.mpr ⟨hlevel, rfl⟩) hlow
      refine iff_of_true ⟨by simp, ?_⟩ ⟨by simp [hpc, ScanPc.Right], hreads⟩
      rw [if_neg hlow]
      split
      · trivial
      · exact right_key_zero key
  case restoreRow i keyVal =>
    have hreads : readsHeldFunction key s poller := by
      intro row hrow
      simp [hpc] at hrow
    split
    · next hnone =>
      refine polls_right_move_iff rfl ?_
      obtain ⟨rfl, -⟩ := hnone
      exact iff_of_true ⟨by simp, trivial⟩ ⟨hpc ▸ right_key_zero key, hreads⟩
    · refine polls_right_move_iff rfl ?_
      simp [hpc, ScanPc.Right, hreads]

omit [DecidableEq Poller] in
/-- Before the first poll nothing wrong was found. -/
theorem polls_right_start (hstart : ∀ poller, start.pc poller = .idle) :
    PollsRight key [] start :=
  ⟨by simp, fun poller => by simp [hstart poller, ScanPc.Right]⟩

omit [DecidableEq Poller] in
/-- What a run has found is right when what its beginning found is right, and so is what the rest
found. -/
theorem polls_right_append_iff :
    PollsRight key (trace ++ emitted) next ↔
      (∀ result ∈ trace, RightKey key result.key) ∧ PollsRight key emitted next := by
  constructor
  · intro hright
    obtain ⟨hreturned, hfound⟩ := hright
    obtain ⟨htrace, hemitted⟩ := List.forall_mem_append.mp hreturned
    exact ⟨htrace, hemitted, hfound⟩
  · intro hright
    obtain ⟨htrace, hemitted, hfound⟩ := hright
    exact ⟨List.forall_mem_append.mpr ⟨htrace, hemitted⟩, hfound⟩

/-- One more access keeps what a run has found right exactly when it does not read the column of the
key that is held down for a key with another function. -/
theorem polls_right_snoc_iff :
    PollsRight key (trace ++ (scanAct (held key) poller s).2) (scanAct (held key) poller s).1 ↔
      PollsRight key trace s ∧ readsHeldFunction key s poller := by
  rw [polls_right_append_iff, scan_act_right_iff, ← and_assoc, ← polls_right_append_iff,
    List.append_nil]

/-- While one key is held down, the polls of any number of tasks return the function of that key or
none, in every order of their accesses, exactly when no task reads the column of that key while the
row of the key is low and its own row counter is at a key with another function. -/
theorem polls_right_iff (hstart : ∀ poller, start.pc poller = .idle)
    (hrun : PollRun key anyPoll start trace s) :
    PollsRight key trace s ↔ PollRun key (readsHeldFunction key) start trace s := by
  constructor
  · intro hright
    induction hrun with
    | refl => exact .refl _
    | snoc _ hstep ih =>
        obtain ⟨poller, -, rfl, rfl⟩ := scan_step_of_iff.mp hstep
        obtain ⟨hbefore, hreads⟩ := polls_right_snoc_iff.mp hright
        exact (ih hbefore).snoc (scan_step_of_iff.mpr ⟨poller, hreads, rfl, rfl⟩)
  · intro hreads
    refine hreads.invariant (fun state results => PollsRight key results state)
      (polls_right_start hstart) ?_
    intro results state emitted next _ hright hstep
    obtain ⟨poller, hread, rfl, rfl⟩ := scan_step_of_iff.mp hstep
    exact polls_right_snoc_iff.mpr ⟨hright, hread⟩

/-- An access leaves a row low only if a task has driven it low and not restored it yet. -/
theorem low_rows_selected (pressed : KeyPosition → Bool)
    (hlow : ∀ i, s.level i = false → ∃ poller, (s.pc poller).selected = some i) (i : Fin 4)
    (hlevel : (scanAct pressed poller s).1.level i = false) :
    ∃ other, ((scanAct pressed poller s).1.pc other).selected = some i := by
  -- a task that goes from a row to the same row, or stays away from `i`, does not release `i`
  have hkeep : ∀ pc, s.level i = false →
      ((s.pc poller).selected = some i → pc.selected = some i) →
      ∃ other, (Function.update s.pc poller pc other).selected = some i := by
    intro pc hbefore hsame
    obtain ⟨other, hother⟩ := hlow i hbefore
    by_cases hpoller : other = poller
    · exact ⟨poller, by rw [Function.update_self]; exact hsame (hpoller ▸ hother)⟩
    · exact ⟨other, by rwa [Function.update_of_ne hpoller]⟩
  cases hpc : s.pc poller <;> simp only [scanAct, hpc] at hlevel ⊢
  case idle => exact hkeep _ hlevel (by simp [hpc, ScanPc.selected])
  case selectRow row =>
    by_cases hrow : i = row
    · exact ⟨poller, by simp [Keypad.goto, ScanPc.selected, hrow]⟩
    · refine hkeep _ ?_ (by simp [hpc, ScanPc.selected])
      simpa [Keypad.goto, Keypad.setLevel, Function.update_of_ne hrow] using hlevel
  case readColumn row j =>
    refine hkeep _ hlevel fun hselected => ?_
    rw [hpc] at hselected
    split
    · exact hselected
    · split <;> exact hselected
  case restoreRow row keyVal =>
    have hrow : i ≠ row := by
      rintro rfl
      split at hlevel <;> simp [Keypad.goto, Keypad.setLevel] at hlevel
    have hbefore : s.level i = false := by
      split at hlevel <;>
        simpa [Keypad.goto, Keypad.setLevel, Function.update_of_ne hrow] using hlevel
    have hother : ¬ (s.pc poller).selected = some i := by
      rw [hpc]
      exact fun hselected => hrow (Option.some.inj hselected).symm
    split <;> exact hkeep _ hbefore fun hselected => absurd hselected hother

/-- A task that is alone inside a poll reads a column only with its own row low. -/
theorem exclusive_reads_held
    (hlow : ∀ i, s.level i = false → ∃ poller, (s.pc poller).selected = some i)
    (halone : exclusive s poller) : readsHeldFunction key s poller := by
  intro i hpc hlevel
  obtain ⟨other, hselected⟩ := hlow key.row hlevel
  obtain rfl : other = poller := by
    by_contra hother
    rw [halone other hother] at hselected
    simp [ScanPc.selected] at hselected
  rw [hpc] at hselected
  obtain rfl : i = key.row := Option.some.inj hselected
  rfl

/-- If all rows are high at first and only one task at a time is inside a poll, every poll returns
the function of the key that is held down or none. -/
theorem exclusive_polls_right (hstart : ∀ poller, start.pc poller = .idle)
    (hhigh : ∀ i, start.level i = true) (hrun : PollRun key exclusive start trace s) :
    PollsRight key trace s := by
  have hinv := hrun.invariant (fun state results => PollsRight key results state ∧
    ∀ i, state.level i = false → ∃ poller, (state.pc poller).selected = some i) ?_ ?_
  · exact hinv.1
  · refine ⟨polls_right_start hstart, fun i hlevel => ?_⟩
    simp [hhigh i] at hlevel
  · rintro results state emitted next - ⟨hright, hlow⟩ hstep
    obtain ⟨poller, halone, rfl, rfl⟩ := scan_step_of_iff.mp hstep
    exact ⟨polls_right_snoc_iff.mpr ⟨hright, exclusive_reads_held hlow halone⟩,
      low_rows_selected (held key) hlow⟩

end

/-- Two tasks poll the keypad one after the other while the key `9` is held down. -/
theorem polls_right_iff_confirm :
    ∃ s, PollRun ⟨2, 2⟩ anyPoll ⟨fun _ => true, fun _ => .idle⟩
        [⟨Task.alarm, .confirm⟩, ⟨Task.main, .confirm⟩] s ∧
      (PollsRight ⟨2, 2⟩ [⟨Task.alarm, .confirm⟩, ⟨Task.main, .confirm⟩] s ↔
        PollRun ⟨2, 2⟩ (readsHeldFunction ⟨2, 2⟩) ⟨fun _ => true, fun _ => .idle⟩
          [⟨Task.alarm, .confirm⟩, ⟨Task.main, .confirm⟩] s) := by
  obtain ⟨s, hrun⟩ := execute_trace
    (show (execute (scanStep (held ⟨2, 2⟩)) anyPoll
      (List.replicate 18 Task.alarm ++ List.replicate 18 Task.main)
        ⟨fun _ => true, fun _ => .idle⟩).map Prod.snd =
      some [⟨Task.alarm, .confirm⟩, ⟨Task.main, .confirm⟩] by decide)
  exact ⟨s, hrun, polls_right_iff (fun _ => rfl) hrun⟩

/-- While `alarm_task` holds the row of the key `9` low, the main task scans the first row and
takes the key for `3`. -/
theorem other_row_read :
    ∃ trace s, PollRun ⟨2, 2⟩ anyPoll ⟨fun _ => true, fun _ => .idle⟩ trace s ∧
      ⟨Task.main, .alarmRingtoneActivity⟩ ∈ trace ∧ ¬ PollsRight ⟨2, 2⟩ trace s := by
  obtain ⟨s, hrun⟩ := execute_trace
    (show (execute (scanStep (held ⟨2, 2⟩)) anyPoll
      (List.replicate 14 Task.alarm ++ List.replicate 6 Task.main)
        ⟨fun _ => true, fun _ => .idle⟩).map Prod.snd =
      some [⟨Task.main, .alarmRingtoneActivity⟩] by decide)
  refine ⟨_, s, hrun, List.mem_singleton_self _, fun hright => ?_⟩
  have hkey := hright.returned _ (List.mem_singleton_self _)
  simp [RightKey, KeyPosition.keyVal, buttonKeyCheck, getKey, buttonKeyTransform] at hkey

end SaiyuanClock
