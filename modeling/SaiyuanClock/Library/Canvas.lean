import Mathlib.Data.Set.Lattice
import Mathlib.Order.CompletePartialOrder
import Mathlib.Order.ConditionallyCompleteLattice.Basic
import Mathlib.Order.SymmDiff

/-!
# Drawing on a store

A picture gives every point a tone, and drawing is stamping: an ink is applied once at every
point of a shape while the other points stay (`stamp`). A store that shows a picture is drawn on
by operations that may fail; `Stamps` says that an operation never fails and stamps one shape on
what the store shows. The rules put such operations together: shapes that do not meet, inks that
may be applied twice, inks that undo themselves, and loops.
-/

namespace Drawing

variable {Point Tone Store Index : Type*}

open Classical in
/-- The picture after `ink` has been applied at the points of `shape`. -/
noncomputable def stamp (ink : Tone → Tone) (shape : Set Point) (picture : Point → Tone) :
    Point → Tone :=
  fun point => if point ∈ shape then ink (picture point) else picture point

section Stamp

variable {ink : Tone → Tone} {shape other : Set Point} {picture : Point → Tone} {point : Point}

/-- A stamp inks the points of its shape. -/
theorem stamp_mem (h : point ∈ shape) : stamp ink shape picture point = ink (picture point) :=
  if_pos h

/-- A stamp leaves the points outside its shape. -/
theorem stamp_not_mem (h : point ∉ shape) : stamp ink shape picture point = picture point :=
  if_neg h

/-- Nothing is stamped by an empty shape. -/
@[simp] theorem stamp_empty : stamp ink ∅ picture = picture := by
  funext point
  exact stamp_not_mem (Set.notMem_empty point)

/-- Two stamps whose shapes do not meet are one stamp. -/
theorem stamp_stamp_disjoint (h : Disjoint shape other) :
    stamp ink other (stamp ink shape picture) = stamp ink (shape ∪ other) picture := by
  funext point
  by_cases hshape : point ∈ shape
  · have hother : point ∉ other := Set.disjoint_left.mp h hshape
    rw [stamp_not_mem hother, stamp_mem hshape, stamp_mem (Set.mem_union_left other hshape)]
  · by_cases hother : point ∈ other
    · rw [stamp_mem hother, stamp_not_mem hshape, stamp_mem (Set.mem_union_right shape hother)]
    · rw [stamp_not_mem hother, stamp_not_mem hshape, stamp_not_mem (by simp [hshape, hother])]

/-- Two stamps of an ink that may be applied twice are one stamp. -/
theorem stamp_stamp_idempotent (hink : ∀ tone, ink (ink tone) = ink tone) :
    stamp ink other (stamp ink shape picture) = stamp ink (shape ∪ other) picture := by
  funext point
  by_cases hother : point ∈ other
  · rw [stamp_mem hother, stamp_mem (Set.mem_union_right shape hother)]
    by_cases hshape : point ∈ shape
    · rw [stamp_mem hshape, hink]
    · rw [stamp_not_mem hshape]
  · rw [stamp_not_mem hother]
    by_cases hshape : point ∈ shape
    · rw [stamp_mem hshape, stamp_mem (Set.mem_union_left other hshape)]
    · rw [stamp_not_mem hshape, stamp_not_mem (by simp [hshape, hother])]

/-- Two stamps of an ink that undoes itself cancel where their shapes meet. -/
theorem stamp_stamp_involutive (hink : ∀ tone, ink (ink tone) = tone) :
    stamp ink other (stamp ink shape picture) = stamp ink (symmDiff shape other) picture := by
  funext point
  by_cases hshape : point ∈ shape <;> by_cases hother : point ∈ other
  · rw [stamp_mem hother, stamp_mem hshape, hink, stamp_not_mem]
    simp [Set.mem_symmDiff, hshape, hother]
  · rw [stamp_not_mem hother, stamp_mem hshape, stamp_mem]
    simp [Set.mem_symmDiff, hshape, hother]
  · rw [stamp_mem hother, stamp_not_mem hshape, stamp_mem]
    simp [Set.mem_symmDiff, hshape, hother]
  · rw [stamp_not_mem hother, stamp_not_mem hshape, stamp_not_mem]
    simp [Set.mem_symmDiff, hshape, hother]

end Stamp

/-! ## Operations on a store -/

/-- The operation never fails and stamps `shape` on what the store shows. -/
def Stamps (view : Store → Point → Tone) (ink : Tone → Tone) (shape : Set Point)
    (draw : Store → Option Store) : Prop :=
  ∀ store, ∃ next, draw store = some next ∧ view next = stamp ink shape (view store)

namespace Stamps

variable {view : Store → Point → Tone} {ink : Tone → Tone} {shape other : Set Point}
  {draw rest : Store → Option Store}

/-- Doing nothing stamps nothing. -/
theorem skip : Stamps view ink ∅ some :=
  fun store => ⟨store, rfl, stamp_empty.symm⟩

/-- A shape may be described differently. -/
theorem congr (h : Stamps view ink shape draw) (hshape : shape = other) :
    Stamps view ink other draw :=
  hshape ▸ h

/-- One operation after another stamps what their two stamps come to. -/
theorem seq {joined : Set Point} (hdraw : Stamps view ink shape draw)
    (hrest : Stamps view ink other rest)
    (h : ∀ picture, stamp ink other (stamp ink shape picture) = stamp ink joined picture) :
    Stamps view ink joined fun store => (draw store).bind rest := by
  intro store
  obtain ⟨middle, hmiddle, hview⟩ := hdraw store
  obtain ⟨next, hnext, hview'⟩ := hrest middle
  exact ⟨next, by simpa [hmiddle] using hnext, by rw [hview', hview, h]⟩

/-- One operation after another whose shapes do not meet stamps both shapes. -/
theorem seq_disjoint (hdraw : Stamps view ink shape draw) (hrest : Stamps view ink other rest)
    (h : Disjoint shape other) :
    Stamps view ink (shape ∪ other) fun store => (draw store).bind rest :=
  hdraw.seq hrest fun _ => stamp_stamp_disjoint h

/-- With an ink that may be applied twice, one operation after another stamps both shapes. -/
theorem seq_idempotent (hink : ∀ tone, ink (ink tone) = ink tone)
    (hdraw : Stamps view ink shape draw) (hrest : Stamps view ink other rest) :
    Stamps view ink (shape ∪ other) fun store => (draw store).bind rest :=
  hdraw.seq hrest fun _ => stamp_stamp_idempotent hink

/-- With an ink that undoes itself, one operation after another stamps where only one of the
shapes is. -/
theorem seq_involutive (hink : ∀ tone, ink (ink tone) = tone)
    (hdraw : Stamps view ink shape draw) (hrest : Stamps view ink other rest) :
    Stamps view ink (symmDiff shape other) fun store => (draw store).bind rest :=
  hdraw.seq hrest fun _ => stamp_stamp_involutive hink

/-- A loop whose shapes do not meet stamps their union. -/
theorem foldlM_disjoint (shapes : Index → Set Point) {body : Store → Index → Option Store}
    (indices : List Index)
    (hbody : ∀ i ∈ indices, Stamps view ink (shapes i) fun store => body store i)
    (h : indices.Pairwise fun i j => Disjoint (shapes i) (shapes j)) :
    Stamps view ink {point | ∃ i ∈ indices, point ∈ shapes i} fun store =>
      indices.foldlM body store := by
  induction indices with
  | nil => exact skip.congr (by simp)
  | cons i indices ih =>
      obtain ⟨hfirst, hothers⟩ := List.pairwise_cons.mp h
      obtain ⟨hbodyFirst, hbodyOthers⟩ := List.forall_mem_cons.mp hbody
      have hapart : Disjoint (shapes i) {point | ∃ j ∈ indices, point ∈ shapes j} := by
        refine Set.disjoint_left.mpr fun point hpoint => ?_
        rintro ⟨j, hj, hother⟩
        exact Set.disjoint_left.mp (hfirst j hj) hpoint hother
      refine (hbodyFirst.seq_disjoint (ih hbodyOthers hothers) hapart).congr ?_
      ext point
      simp

/-- With an ink that may be applied twice, a loop stamps the union of its shapes. -/
theorem foldlM_idempotent (hink : ∀ tone, ink (ink tone) = ink tone) (shapes : Index → Set Point)
    {body : Store → Index → Option Store} (indices : List Index)
    (hbody : ∀ i ∈ indices, Stamps view ink (shapes i) fun store => body store i) :
    Stamps view ink {point | ∃ i ∈ indices, point ∈ shapes i} fun store =>
      indices.foldlM body store := by
  induction indices with
  | nil => exact skip.congr (by simp)
  | cons i indices ih =>
      obtain ⟨hfirst, hothers⟩ := List.forall_mem_cons.mp hbody
      refine (hfirst.seq_idempotent hink (ih hothers)).congr ?_
      ext point
      simp

/-- Where the store is determined by what it shows, two operations that stamp the same shape are
the same. -/
theorem unique (hview : Function.Injective view) (hdraw : Stamps view ink shape draw)
    (hrest : Stamps view ink shape rest) (store : Store) : draw store = rest store := by
  obtain ⟨next, hnext, hshown⟩ := hdraw store
  obtain ⟨other, hother, hshown'⟩ := hrest store
  rw [hnext, hother, hview (hshown.trans hshown'.symm)]

end Stamps

end Drawing
