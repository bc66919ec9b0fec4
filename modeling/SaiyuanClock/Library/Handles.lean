import Mathlib.Data.Finset.Basic
import Mathlib.Data.List.Basic

/-!
# Handles

A handle is acquired, used any number of times, and released. `track` follows the handles that are
open through a list of operations and stops at an operation that its handle does not allow. The
main theorem, `disciplined_iff`, says that operations that can be followed release every handle
once for each time it is acquired exactly if they leave none open.
-/

namespace HandleTracking

/-- An operation on a handle. -/
inductive Op (Handle : Type*) where
  | acquire (handle : Handle)
  | use (handle : Handle)
  | release (handle : Handle)
  deriving DecidableEq, Repr

variable {Handle : Type*} [DecidableEq Handle]

/-- The handles that are open after an operation. A handle that is open is not acquired again,
and one that is not open is neither used nor released. -/
def Op.apply (opened : Finset Handle) : Op Handle → Option (Finset Handle)
  | .acquire handle => if handle ∈ opened then none else some (insert handle opened)
  | .use handle => if handle ∈ opened then some opened else none
  | .release handle => if handle ∈ opened then some (opened.erase handle) else none

/-- The handles that are open after a list of operations. -/
def track : List (Op Handle) → Finset Handle → Option (Finset Handle)
  | [], opened => some opened
  | op :: ops, opened => (op.apply opened).bind (track ops)

/-- Every handle is released once for each time it is acquired, and where it is used or released,
it has been acquired once more than it has been released. -/
structure Disciplined (ops : List (Op Handle)) : Prop where
  released : ∀ handle, ops.count (.release handle) = ops.count (.acquire handle)
  used : ∀ before op after handle, ops = before ++ op :: after →
    op = .use handle ∨ op = .release handle →
    before.count (.acquire handle) = before.count (.release handle) + 1

variable {opened left next : Finset Handle} {ops : List (Op Handle)}

/-- Operations are followed one list after the other. -/
theorem track_append (first rest : List (Op Handle)) (opened : Finset Handle) :
    track (first ++ rest) opened = (track first opened).bind (track rest) := by
  induction first generalizing opened with
  | nil => rfl
  | cons op first ih =>
      show (op.apply opened).bind (track (first ++ rest)) = _
      rw [track, Option.bind_assoc]
      exact congrArg _ (funext ih)

/-- How an operation changes whether a handle is open. -/
theorem Op.apply_count {op : Op Handle} (h : op.apply opened = some next) (handle : Handle) :
    (if op = .acquire handle then 1 else 0) + (if handle ∈ opened then 1 else 0) =
      (if op = .release handle then 1 else 0) + if handle ∈ next then 1 else 0 := by
  cases op with
  | acquire other =>
      obtain ⟨hclosed, rfl⟩ : other ∉ opened ∧ insert other opened = next := by
        simpa [Op.apply] using h
      by_cases hsame : other = handle
      · subst hsame
        simp [hclosed]
      · simp [hsame, Ne.symm hsame]
  | use other =>
      obtain ⟨-, rfl⟩ : other ∈ opened ∧ opened = next := by
        simpa [Op.apply] using h
      simp
  | release other =>
      obtain ⟨hopen, rfl⟩ : other ∈ opened ∧ opened.erase other = next := by
        simpa [Op.apply] using h
      by_cases hsame : other = handle
      · subst hsame
        simp [hopen]
      · simp [hsame, Ne.symm hsame]

/-- A handle that was closed is open exactly if it has been acquired once more than released. -/
theorem track_count (h : track ops opened = some left) (handle : Handle) :
    ops.count (.acquire handle) + (if handle ∈ opened then 1 else 0) =
      ops.count (.release handle) + if handle ∈ left then 1 else 0 := by
  induction ops generalizing opened with
  | nil =>
      obtain rfl := Option.some.inj h
      rfl
  | cons op ops ih =>
      obtain ⟨next, happly, hrest⟩ := Option.bind_eq_some_iff.mp h
      have hcount := Op.apply_count happly handle
      have hlater := ih hrest
      simp only [List.count_cons, beq_iff_eq]
      omega

/-- An operation is applied to a handle that is open. -/
theorem Op.open_of_apply {op : Op Handle} {handle : Handle} (h : op.apply opened = some next)
    (hop : op = .use handle ∨ op = .release handle) : handle ∈ opened := by
  rcases hop with rfl | rfl
  · by_contra hclosed
    simp [Op.apply, hclosed] at h
  · by_contra hclosed
    simp [Op.apply, hclosed] at h

/-- Operations that can be followed from no open handle are disciplined exactly if they leave none
open. -/
theorem disciplined_iff (h : track ops ∅ = some left) : Disciplined ops ↔ left = ∅ := by
  constructor
  · intro hops
    refine Finset.eq_empty_of_forall_notMem ?_
    intro handle hmem
    have hcount := track_count h handle
    have hreleased := hops.released handle
    rw [if_pos hmem] at hcount
    simp at hcount
    omega
  · intro hleft
    subst hleft
    refine ⟨fun handle => by simpa using (track_count h handle).symm, ?_⟩
    intro before op after handle hsplit hop
    rw [hsplit, track_append] at h
    obtain ⟨now, hbefore, hrest⟩ := Option.bind_eq_some_iff.mp h
    obtain ⟨_, happly, -⟩ := Option.bind_eq_some_iff.mp hrest
    simpa [Op.open_of_apply happly hop] using track_count hbefore handle

end HandleTracking
