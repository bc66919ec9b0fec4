import SaiyuanClock.Library.Steps

/-!
# Recurrence

A component of a machine settles, or reaches a goal, within a bounded number of its own actions if
a rank of the states can be found that each of them lowers until it is zero, and that the actions
of the other components never raise. Nothing is assumed about the order of the actions.
-/

namespace LabelledSteps

variable {State Event Action : Type*}

/-- A rank that bounds how many of its own actions a component makes before it settles or reaches
its goal, in the states of an invariant. -/
structure Ranked (machine : Machine Action State Event) (allowed : State → Action → Prop)
    (inv : State → Prop) (own : Action → Bool) (goal : Event → Prop) (rank : State → Nat) :
    Prop where
  /-- The invariant is kept until the goal is reached. -/
  keeps : ∀ state action next emitted, inv state → allowed state action →
    machine action state = some (next, emitted) → (∃ event ∈ emitted, goal event) ∨ inv next
  /-- An action of the component reaches the goal or lowers the rank. -/
  lowers : ∀ state action next emitted, inv state → allowed state action → own action = true →
    machine action state = some (next, emitted) →
      (∃ event ∈ emitted, goal event) ∨ rank next ≤ rank state - 1
  /-- The other actions reach the goal or do not raise the rank. -/
  passes : ∀ state action next emitted, inv state → allowed state action → own action = false →
    machine action state = some (next, emitted) →
      (∃ event ∈ emitted, goal event) ∨ rank next ≤ rank state

variable {machine : Machine Action State Event} {allowed : State → Action → Prop}
  [∀ state action, Decidable (allowed state action)] {inv : State → Prop} {own : Action → Bool}
  {goal : Event → Prop} {rank : State → Nat}

/-- A run reaches the goal or lowers the rank by the number of actions of the component in it. -/
theorem Ranked.settles (h : Ranked machine allowed inv own goal rank) {actions : List Action}
    {start finish : State} {trace : List Event} (hinv : inv start)
    (hrun : execute machine allowed actions start = some (finish, trace)) :
    (∃ event ∈ trace, goal event) ∨ inv finish ∧ rank finish ≤ rank start - actions.countP own := by
  induction actions generalizing start trace with
  | nil =>
      obtain ⟨rfl, rfl⟩ := Prod.mk.inj (Option.some.inj hrun)
      exact .inr ⟨hinv, Nat.le_refl _⟩
  | cons action actions ih =>
      obtain ⟨hallowed, next, emitted, rest, hnext, hrest, rfl⟩ := execute_cons hrun
      have hearly : (∃ event ∈ emitted, goal event) → ∃ event ∈ emitted ++ rest, goal event :=
        fun ⟨event, hmem, hgoal⟩ => ⟨event, List.mem_append_left _ hmem, hgoal⟩
      rcases h.keeps start action next emitted hinv hallowed hnext with hgoal | hkept
      · exact .inl (hearly hgoal)
      rcases ih hkept hrest with ⟨event, hmem, hgoal⟩ | ⟨hfinish, hrank⟩
      · exact .inl ⟨event, List.mem_append_right _ hmem, hgoal⟩
      cases hown : own action with
      | true =>
          rw [List.countP_cons_of_pos hown]
          rcases h.lowers start action next emitted hinv hallowed hown hnext with hgoal | hlower
          · exact .inl (hearly hgoal)
          · exact .inr ⟨hfinish, by omega⟩
      | false =>
          rw [List.countP_cons_of_neg (by rw [hown]; exact Bool.false_ne_true)]
          rcases h.passes start action next emitted hinv hallowed hown hnext with hgoal | hpass
          · exact .inl (hearly hgoal)
          · exact .inr ⟨hfinish, by omega⟩

/-- If no state has rank zero, then among as many actions of the component as the rank there is one
that reaches the goal. -/
theorem Ranked.reaches (h : Ranked machine allowed inv own goal rank)
    (hpositive : ∀ state, 0 < rank state) {actions : List Action} {start finish : State}
    {trace : List Event} (hinv : inv start)
    (hrun : execute machine allowed actions start = some (finish, trace))
    (hlong : rank start ≤ actions.countP own) : ∃ event ∈ trace, goal event := by
  refine (h.settles hinv hrun).resolve_right fun hsettled => ?_
  have hrank := hpositive finish
  omega

end LabelledSteps
