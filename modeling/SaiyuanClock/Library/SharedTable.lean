import Mathlib.Logic.Function.Iterate
import Mathlib.Data.List.Basic
import SaiyuanClock.Library.Steps

/-!
# A growing table with one writer and many readers

A table of bounded capacity is filled from the front and its length is a separate counter. The
writer appends in steps: it checks that there is room, writes the entry behind the last one, and
only then raises the counter. It also changes entries in place by a fixed function `bump`,
choosing the entry in one step and writing it in a later one. Readers look at the counter, keep a
bound, and read entries below their bound at any later time.

Nothing is locked. `Inv` holds in every interleaving (`Inv.run`): every entry that a reader may
read has been written, and an entry is the value it was written with, changed by `bump` as many
times as it was updated.
-/

namespace SharedTable

open LabelledSteps

variable {V R : Type*}

/-- The accesses to the entries. A touch writes to a part of the entry that is not its value. -/
inductive TableEvent (V R : Type*) where
  | read (reader : R) (i : Nat)
  | write (i : Nat) (value : V)
  | touch (i : Nat)
  | update (i : Nat)

/-- The entry that an access concerns. -/
def TableEvent.index : TableEvent V R → Nat
  | .read _ i | .write i _ | .touch i | .update i => i

/-- Where the writer is: between its operations, past the check for room, past the write of the
new entry, or past the choice of the entry to change. -/
inductive Writer where
  | idle
  | room
  | written
  | chosen (i : Nat)
  deriving DecidableEq, Repr

/-- The entries, their counter, and where the writer and the readers are. -/
structure State (V R : Type*) where
  values : Nat → V
  count : Nat
  writer : Writer
  bound : R → Nat

section Protocol

variable [DecidableEq R] (capacity : Nat) (bump : V → V)

/-- A scan reads entries below the reader's bound and then keeps that bound or takes one that the
counter allows. -/
inductive Scan : State V R → List (TableEvent V R) → State V R → Prop where
  | scan (s reader) (seen : List Nat) (bound : Nat) (hseen : ∀ j ∈ seen, j < s.bound reader)
      (hbound : bound ≤ s.count ∨ bound ≤ s.bound reader) :
      Scan s (seen.map (.read reader))
        { s with bound := Function.update s.bound reader bound }

/-- The accesses of the writer and of the readers. -/
inductive Step : State V R → List (TableEvent V R) → State V R → Prop where
  | claim (s) (hat : s.writer = .idle) (hroom : s.count < capacity) :
      Step s [] { s with writer := .room }
  | write (s value) (hat : s.writer = .room) :
      Step s [.write s.count value]
        { s with values := Function.update s.values s.count value, writer := .written }
  | touch (s) (hat : s.writer = .written) : Step s [.touch s.count] s
  | publish (s) (hat : s.writer = .written) :
      Step s [] { s with count := s.count + 1, writer := .idle }
  | choose (s reader i) (seen : List Nat) (hat : s.writer = .idle) (hi : i < s.count)
      (hseen : ∀ j ∈ seen, j < s.count) :
      Step s (seen.map (.read reader))
        { s with writer := .chosen i, bound := Function.update s.bound reader 0 }
  | update (s i) (hat : s.writer = .chosen i) :
      Step s [.update i]
        { s with values := Function.update s.values i (bump (s.values i)), writer := .idle }
  | scan {s events next} (h : Scan s events next) : Step s events next

end Protocol

/-- How often an entry was updated. -/
def updates (i : Nat) (history : List (TableEvent V R)) : Nat :=
  history.countP fun
    | .update j => j == i
    | _ => false

/-- An entry has been written. -/
def Written (history : List (TableEvent V R)) (i : Nat) : Prop :=
  ∃ value, .write i value ∈ history

/-- What holds after every history of accesses. -/
structure Inv (capacity : Nat) (bump : V → V) (s : State V R)
    (history : List (TableEvent V R)) : Prop where
  count_le : s.count ≤ capacity
  room : s.writer = .room ∨ s.writer = .written → s.count < capacity
  chosen : ∀ i, s.writer = .chosen i → i < s.count
  bound : ∀ reader, s.bound reader ≤ s.count
  published : ∀ i < s.count, Written history i
  pending : s.writer = .written → Written history s.count
  below : ∀ i, Written history i → i < s.count ∨ i = s.count ∧ s.writer = .written
  untouched : ∀ i, s.count ≤ i → updates i history = 0
  value : ∀ i value, .write i value ∈ history →
    s.values i = bump^[updates i history] value

/-- An entry stays written. -/
theorem Written.append {history : List (TableEvent V R)} {i : Nat} (h : Written history i)
    (events : List (TableEvent V R)) : Written (history ++ events) i := by
  obtain ⟨value, hmem⟩ := h
  exact ⟨value, List.mem_append_left _ hmem⟩

@[simp] theorem updates_append (i : Nat) (history events : List (TableEvent V R)) :
    updates i (history ++ events) = updates i history + updates i events :=
  List.countP_append

@[simp] theorem updates_nil (i : Nat) : updates i ([] : List (TableEvent V R)) = 0 := rfl

@[simp] theorem updates_write (i j : Nat) (value : V) :
    updates i [(.write j value : TableEvent V R)] = 0 := rfl

@[simp] theorem updates_touch (i j : Nat) :
    updates i [(.touch j : TableEvent V R)] = 0 := rfl

@[simp] theorem updates_update (i j : Nat) :
    updates i [(.update j : TableEvent V R)] = if j = i then 1 else 0 := by
  simp [updates]

@[simp] theorem updates_reads (i : Nat) (reader : R) (seen : List Nat) :
    updates i (seen.map (.read reader) : List (TableEvent V R)) = 0 := by
  simp [updates]

variable {capacity : Nat} {bump : V → V} {s next : State V R}
  {history events : List (TableEvent V R)}

/-- Accesses that write and update nothing, and leave the entries, the counter and the writer's
last operation as they are, keep the invariant. -/
theorem Inv.silent (h : Inv capacity bump s history) (hvalues : next.values = s.values)
    (hcount : next.count = s.count) (hbound : ∀ reader, next.bound reader ≤ s.count)
    (hroom : next.writer = .room ∨ next.writer = .written → s.count < capacity)
    (hchosen : ∀ i, next.writer = .chosen i → i < s.count)
    (hwritten : next.writer = .written ↔ s.writer = .written)
    (hwrites : ∀ i value, .write i value ∉ events) (hupdates : ∀ i, updates i events = 0) :
    Inv capacity bump next (history ++ events) := by
  have hmem : ∀ i value, .write i value ∈ history ++ events ↔ .write i value ∈ history := by
    intro i value
    simp [hwrites i value]
  have hwas : ∀ i, Written (history ++ events) i ↔ Written history i := by
    intro i
    simp only [Written, hmem]
  refine ⟨hcount ▸ h.count_le, fun hat => hcount ▸ hroom hat, fun i hat => hcount ▸ hchosen i hat,
    fun reader => hcount ▸ hbound reader, ?_, ?_, ?_, ?_, ?_⟩
  · intro i hi
    exact (hwas i).mpr (h.published i (hcount ▸ hi))
  · intro hat
    exact (hwas _).mpr (hcount ▸ h.pending (hwritten.mp hat))
  · intro i hi
    rw [hcount, hwritten]
    exact h.below i ((hwas i).mp hi)
  · intro i hi
    rw [updates_append, h.untouched i (hcount ▸ hi), hupdates]
  · intro i value hi
    rw [hvalues, updates_append, hupdates, Nat.add_zero]
    exact h.value i value ((hmem i value).mp hi)

/-- Writing the entry behind the last one keeps the invariant. -/
theorem Inv.write (h : Inv capacity bump s history) (value : V) (hat : s.writer = .room) :
    Inv capacity bump
      { s with values := Function.update s.values s.count value, writer := .written }
      (history ++ [.write s.count value]) := by
  have hlt : ∀ i, Written history i → i < s.count := by
    intro i hi
    exact (h.below i hi).resolve_right fun hlast => by simp [hat] at hlast
  refine ⟨h.count_le, fun _ => h.room (.inl hat), by simp, h.bound,
    fun i hi => (h.published i hi).append _, fun _ => ⟨value, by simp⟩, ?_, ?_, ?_⟩
  · rintro i ⟨other, hmem⟩
    rcases List.mem_append.mp hmem with hmem | hmem
    · exact .inl (hlt i ⟨other, hmem⟩)
    · obtain ⟨rfl, -⟩ : i = s.count ∧ other = value := by simpa using hmem
      exact .inr ⟨rfl, rfl⟩
  · intro i hi
    simpa using h.untouched i hi
  · intro i other hmem
    rcases List.mem_append.mp hmem with hmem | hmem
    · have hne : i ≠ s.count := Nat.ne_of_lt (hlt i ⟨other, hmem⟩)
      simp [Function.update_of_ne hne, h.value i other hmem]
    · obtain ⟨rfl, rfl⟩ : i = s.count ∧ other = value := by simpa using hmem
      simp [h.untouched s.count (Nat.le_refl _)]

/-- Raising the counter past the written entry keeps the invariant. -/
theorem Inv.publish (h : Inv capacity bump s history) (hat : s.writer = .written) :
    Inv capacity bump { s with count := s.count + 1, writer := .idle } history := by
  have hroom := h.room (.inr hat)
  refine ⟨hroom, by simp, by simp, fun reader => Nat.le_succ_of_le (h.bound reader), ?_, by simp,
    ?_, fun i hi => h.untouched i (Nat.le_of_succ_le hi), h.value⟩
  · intro i hi
    rcases Nat.lt_succ_iff_lt_or_eq.mp hi with hlt | rfl
    · exact h.published i hlt
    · exact h.pending hat
  · intro i hi
    rcases h.below i hi with hlt | ⟨rfl, -⟩
    · exact .inl (Nat.lt_succ_of_lt hlt)
    · exact .inl (Nat.lt_succ_self _)

/-- Changing the chosen entry keeps the invariant. -/
theorem Inv.update (h : Inv capacity bump s history) {i : Nat} (hat : s.writer = .chosen i) :
    Inv capacity bump
      { s with values := Function.update s.values i (bump (s.values i)), writer := .idle }
      (history ++ [.update i]) := by
  have hi := h.chosen i hat
  have hlt : ∀ j, Written history j → j < s.count := by
    intro j hj
    exact (h.below j hj).resolve_right fun hlast => by simp [hat] at hlast
  refine ⟨h.count_le, by simp, by simp, h.bound, fun j hj => (h.published j hj).append _, by simp,
    ?_, ?_, ?_⟩
  · rintro j ⟨value, hmem⟩
    exact .inl (hlt j ⟨value, by simpa using hmem⟩)
  · intro j hj
    have hne : i ≠ j := by
      intro heq
      exact absurd hi (Nat.not_lt.mpr (heq ▸ hj))
    simp [h.untouched j hj, hne]
  · intro j value hmem
    have hvalue := h.value j value (by simpa using hmem)
    by_cases hij : i = j
    · subst hij
      simp [hvalue, Function.iterate_succ_apply']
    · simp [hij, Function.update_of_ne (Ne.symm hij), hvalue]

variable [DecidableEq R]

/-- Every access keeps the invariant. -/
theorem Inv.step (h : Inv capacity bump s history) (hstep : Step capacity bump s events next) :
    Inv capacity bump next (history ++ events) := by
  cases hstep with
  | claim hat hroom =>
      exact h.silent rfl rfl h.bound (fun _ => hroom) (by simp) (by simp [hat]) (by simp) (by simp)
  | write value hat => exact h.write value hat
  | touch hat => exact h.silent rfl rfl h.bound h.room h.chosen Iff.rfl (by simp) (by simp)
  | publish hat => simpa using h.publish hat
  | choose reader i seen hat hi hseen =>
      refine h.silent rfl rfl ?_ (by simp) ?_ (by simp [hat]) (by simp) (by simp)
      · intro other
        by_cases hother : other = reader
        · simp [hother]
        · simp [Function.update_of_ne hother, h.bound other]
      · rintro j ⟨rfl⟩
        exact hi
  | update i hat => exact h.update hat
  | scan hscan =>
      obtain ⟨reader, seen, bound, hseen, hbound⟩ := hscan
      refine h.silent rfl rfl ?_ h.room h.chosen Iff.rfl (by simp) (by simp)
      intro other
      by_cases hother : other = reader
      · have := h.bound reader
        simp only [hother, Function.update_self]
        omega
      · simp [Function.update_of_ne hother, h.bound other]

/-- The invariant holds after every run that starts with it. -/
theorem Inv.run (h : Inv capacity bump s history)
    (hrun : Steps (Step capacity bump) s events next) :
    Inv capacity bump next (history ++ events) := by
  refine hrun.invariant (fun state trace => Inv capacity bump state (history ++ trace))
    (by simpa using h) ?_
  intro trace state emitted following _ hinv hstep
  rw [← List.append_assoc]
  exact hinv.step hstep

/-- No access lowers the counter. -/
theorem Step.count_le (hstep : Step capacity bump s events next) : s.count ≤ next.count := by
  cases hstep with
  | scan hscan => cases hscan; exact Nat.le_refl _
  | claim | write | touch | publish | choose | update => simp

/-- Every access of a step lies below the capacity, and a reader only reads written entries. -/
theorem Inv.access (h : Inv capacity bump s history) (hstep : Step capacity bump s events next) :
    ∀ event ∈ events, event.index < capacity ∧
      ∀ reader i, event = .read reader i → Written history i := by
  have hcount := h.count_le
  cases hstep with
  | claim | publish => simp
  | write value hat =>
      have hroom := h.room (.inl hat)
      simp [TableEvent.index, hroom]
  | touch hat =>
      have hroom := h.room (.inr hat)
      simp [TableEvent.index, hroom]
  | choose reader i seen hat hi hseen =>
      intro event hmem
      obtain ⟨j, hj, rfl⟩ := List.mem_map.mp hmem
      have hlt := hseen j hj
      refine ⟨Nat.lt_of_lt_of_le hlt hcount, ?_⟩
      rintro _ _ ⟨rfl, rfl⟩
      exact h.published _ hlt
  | update i hat =>
      have hi := h.chosen i hat
      simp only [List.mem_singleton, forall_eq, TableEvent.index, reduceCtorEq, false_implies,
        implies_true, and_true]
      exact Nat.lt_of_lt_of_le hi hcount
  | scan hscan =>
      obtain ⟨reader, seen, bound, hseen, hbound⟩ := hscan
      intro event hmem
      obtain ⟨j, hj, rfl⟩ := List.mem_map.mp hmem
      have hlt := Nat.lt_of_lt_of_le (hseen j hj) (h.bound reader)
      refine ⟨Nat.lt_of_lt_of_le hlt hcount, ?_⟩
      rintro _ _ ⟨rfl, rfl⟩
      exact h.published _ hlt

/-- In a run, every access lies below the capacity, and every read is of an entry written
before. -/
theorem Inv.run_access (h : Inv capacity bump s history)
    (hrun : Steps (Step capacity bump) s events next)
    {before after : List (TableEvent V R)} {event : TableEvent V R}
    (hevents : events = before ++ event :: after) :
    event.index < capacity ∧
      ∀ reader i, event = .read reader i → Written (history ++ before) i := by
  subst hevents
  obtain ⟨past, state, front, back, following, future, hpast, hstep, -, rfl, -⟩ := hrun.split
  obtain ⟨hindex, hread⟩ := (h.run hpast).access hstep event (by simp)
  refine ⟨hindex, fun reader i heq => ?_⟩
  rw [← List.append_assoc]
  exact (hread reader i heq).append front

/-! ## The first entry -/

/-- A table of which nothing but reads have happened. -/
structure Fresh (s : State V R) (history : List (TableEvent V R)) : Prop where
  reads : ∀ event ∈ history, ∃ reader i, event = .read reader i
  bound : ∀ reader, s.bound reader ≤ s.count

omit [DecidableEq R] in
/-- A fresh table has no written and no updated entry. -/
theorem Fresh.updates_eq_zero (h : Fresh s history) (i : Nat) : updates i history = 0 := by
  rw [updates, List.countP_eq_zero]
  intro event hmem
  obtain ⟨reader, j, rfl⟩ := h.reads event hmem
  simp

/-- A scan leaves a table fresh. -/
theorem Fresh.scan (h : Fresh s history) (hscan : Scan s events next) :
    Fresh next (history ++ events) := by
  obtain ⟨reader, seen, bound, hseen, hbound⟩ := hscan
  refine ⟨?_, fun other => ?_⟩
  · intro event hmem
    rcases List.mem_append.mp hmem with hmem | hmem
    · exact h.reads event hmem
    · obtain ⟨j, -, rfl⟩ := List.mem_map.mp hmem
      exact ⟨reader, j, rfl⟩
  · by_cases hother : other = reader
    · have := h.bound reader
      simp only [hother, Function.update_self]
      omega
    · simpa [Function.update_of_ne hother] using h.bound other

omit [DecidableEq R] in
/-- Once its only entry is written, a fresh table of one entry satisfies the invariant. -/
theorem Fresh.seed (h : Fresh s history) (hone : s.count = 1) (hcapacity : 1 ≤ capacity)
    (hidle : s.writer = .idle) (value : V) :
    Inv capacity bump { s with values := Function.update s.values 0 value }
      (history ++ [.write 0 value]) := by
  have hwrite : ∀ i other, .write i other ∈ history ++ [.write 0 value] →
      i = 0 ∧ other = value := by
    intro i other hmem
    rcases List.mem_append.mp hmem with hmem | hmem
    · obtain ⟨reader, j, heq⟩ := h.reads _ hmem
      cases heq
    · simpa using hmem
  refine ⟨hone ▸ hcapacity, by simp [hidle], by simp [hidle], h.bound, ?_, by simp [hidle], ?_, ?_,
    ?_⟩
  · intro i hi
    obtain rfl : i = 0 := by
      have hi : i < s.count := hi
      omega
    exact ⟨value, by simp⟩
  · rintro i ⟨other, hmem⟩
    obtain ⟨rfl, -⟩ := hwrite i other hmem
    exact .inl (by simp [hone])
  · intro i _
    simp [h.updates_eq_zero i]
  · intro i other hmem
    obtain ⟨rfl, rfl⟩ := hwrite i other hmem
    simp [h.updates_eq_zero 0]

end SharedTable
