import Mathlib.Data.List.Basic
import Mathlib.Data.List.Induction
import Mathlib.Order.Basic

/-!
# Runs of labelled transitions

`Steps step start trace finish` is a finite run of a transition relation whose steps emit
lists of events; the trace concatenates them. `Steps.invariant` is the induction rule for
facts about a state and the trace that led to it, and `Steps.view` carries a run along an
abstraction that maps every step to an abstract step or to none.

A `Machine` computes the step of a chosen action. `StepOf` is its transition relation under
a restriction on the pairs of state and action, and `execute` runs a list of actions.
`Endless.invariant` is the induction rule for executions that may go on for ever.
-/

namespace LabelledSteps

variable {State Event Action Abstract Observation : Type*}

/-- Finitely many transitions, with the concatenation of the events they emit. -/
inductive Steps (step : State → List Event → State → Prop) :
    State → List Event → State → Prop where
  | refl (state) : Steps step state [] state
  | snoc {start middle finish : State} {trace emitted : List Event} :
      Steps step start trace middle → step middle emitted finish →
      Steps step start (trace ++ emitted) finish

variable {step : State → List Event → State → Prop} {start middle finish : State}
  {trace first rest emitted : List Event}

/-- One transition is a run. -/
theorem Steps.single (h : step start emitted finish) : Steps step start emitted finish := by
  simpa using Steps.snoc (.refl start) h

/-- Runs compose, and so do their traces. -/
theorem Steps.trans (hfirst : Steps step start first middle)
    (hrest : Steps step middle rest finish) : Steps step start (first ++ rest) finish := by
  induction hrest with
  | refl => simpa using hfirst
  | snoc _ hstep ih => simpa using Steps.snoc ih hstep

/-- A run that starts where no step is possible is empty. -/
theorem Steps.eq_nil_of_stuck (hstuck : ∀ emitted next, ¬ step start emitted next)
    (h : Steps step start trace finish) : trace = [] ∧ finish = start := by
  induction h with
  | refl => exact ⟨rfl, rfl⟩
  | snoc _ hstep ih =>
      obtain ⟨-, rfl⟩ := ih
      exact absurd hstep (hstuck _ _)

/-- What holds of the empty run and is kept by every step holds of every run. -/
theorem Steps.invariant (inv : State → List Event → Prop)
    (hinit : inv start [])
    (hstep : ∀ trace state emitted next, Steps step start trace state → inv state trace →
      step state emitted next → inv next (trace ++ emitted))
    (h : Steps step start trace finish) : inv finish trace := by
  induction h with
  | refl => exact hinit
  | snoc hrun hnext ih => exact hstep _ _ _ _ hrun ih hnext

/-- A quantity that no step lowers is not lowered by a run. -/
theorem Steps.monotone {Quantity : Type*} [Preorder Quantity] (measure : State → Quantity)
    (hstep : ∀ state emitted next, step state emitted next → measure state ≤ measure next)
    (h : Steps step start trace finish) : measure start ≤ measure finish := by
  induction h with
  | refl => exact le_refl _
  | snoc _ hnext ih => exact le_trans ih (hstep _ _ _ hnext)

/-- An element of a concatenation lies in its first or in its second part. -/
theorem append_cons_cases {before after front back : List Event} {event : Event}
    (h : before ++ event :: after = front ++ back) :
    (∃ middle, front = before ++ event :: middle ∧ after = middle ++ back) ∨
      ∃ middle, before = front ++ middle ∧ back = middle ++ event :: after := by
  rcases List.append_eq_append_iff.mp h with ⟨middle, rfl, hmiddle⟩ | ⟨middle, rfl, rfl⟩
  · cases middle with
    | nil => exact .inr ⟨[], by simp, by simpa using hmiddle.symm⟩
    | cons first middle =>
        obtain ⟨rfl, rfl⟩ := List.cons.inj hmiddle
        exact .inl ⟨middle, rfl, rfl⟩
  · exact .inr ⟨middle, rfl, rfl⟩

/-- An event of a trace was emitted by a step of the run. -/
theorem Steps.split {before after : List Event} {event : Event}
    (h : Steps step start (before ++ event :: after) finish) :
    ∃ past state front back next future, Steps step start past state ∧
      step state (front ++ event :: back) next ∧ Steps step next future finish ∧
      before = past ++ front ∧ after = back ++ future := by
  generalize htrace : before ++ event :: after = trace at h
  induction h generalizing after with
  | refl => simp at htrace
  | @snoc middle last trace emitted hprefix hstep ih =>
      rcases append_cons_cases htrace with ⟨rest, hrest, rfl⟩ | ⟨front, rfl, rfl⟩
      · obtain ⟨past, state, front, back, next, future, hpast, hemit, hfuture, hbefore, rfl⟩ :=
          ih hrest.symm
        exact ⟨past, state, front, back, next, future ++ emitted, hpast, hemit,
          hfuture.snoc hstep, hbefore, List.append_assoc _ _ _⟩
      · exact ⟨trace, middle, front, after, last, [], hprefix, hstep, .refl _, rfl, by simp⟩

/-- If every step is a step of the abstract relation or is invisible to it, then every run is
a run of the abstract relation with the observable part of the trace. -/
theorem Steps.view {abstractStep : Abstract → List Observation → Abstract → Prop}
    (view : State → Abstract) (observe : Event → Option Observation)
    (hstep : ∀ state emitted next, step state emitted next →
      abstractStep (view state) (emitted.filterMap observe) (view next) ∨
        view next = view state ∧ emitted.filterMap observe = [])
    (h : Steps step start trace finish) :
    Steps abstractStep (view start) (trace.filterMap observe) (view finish) := by
  induction h with
  | refl => exact .refl _
  | snoc _ hnext ih =>
      rw [List.filterMap_append]
      rcases hstep _ _ _ hnext with habstract | ⟨hview, hsilent⟩
      · exact ih.snoc habstract
      · rw [hview, hsilent, List.append_nil]
        exact ih

/-- What one action does to a state and which events it emits; `none` when it is not enabled. -/
abbrev Machine (Action State Event : Type*) := Action → State → Option (State × List Event)

/-- The transitions of a machine by actions that `allowed` admits in the state before the step. -/
def StepOf (machine : Machine Action State Event) (allowed : State → Action → Prop)
    (start : State) (emitted : List Event) (finish : State) : Prop :=
  ∃ action, allowed start action ∧ machine action start = some (finish, emitted)

variable {machine : Machine Action State Event} {allowed : State → Action → Prop}

/-- Execute a list of actions, each admitted by `allowed`; any other action stops the run. -/
def execute (machine : Machine Action State Event) (allowed : State → Action → Prop)
    [∀ state action, Decidable (allowed state action)] :
    List Action → State → Option (State × List Event)
  | [], state => some (state, [])
  | action :: actions, state =>
      if allowed state action then
        match machine action state with
        | none => none
        | some (next, emitted) =>
            (execute machine allowed actions next).map fun (final, trace) =>
              (final, emitted ++ trace)
      else none

/-- An endless execution: the actions are done one after the other until a final state is reached,
in which the machine stays. -/
structure Endless (machine : Machine Action State Event) (final : State → Prop)
    (actions : Nat → Action) (states : Nat → State) : Prop where
  step : ∀ n, ¬ final (states n) →
    ∃ emitted, machine (actions n) (states n) = some (states (n + 1), emitted)
  stay : ∀ n, final (states n) → states (n + 1) = states n

/-- What holds at the start and is kept by every step to a state that is not final holds until a
final state is reached. -/
theorem Endless.invariant {final : State → Prop} {actions : Nat → Action} {states : Nat → State}
    (h : Endless machine final actions states) (inv : Nat → State → Prop)
    (hinit : inv 0 (states 0))
    (hstep : ∀ n emitted, ¬ final (states n) → inv n (states n) →
      machine (actions n) (states n) = some (states (n + 1), emitted) →
      ¬ final (states (n + 1)) → inv (n + 1) (states (n + 1)))
    (n : Nat) (hrunning : ¬ final (states n)) : inv n (states n) := by
  induction n with
  | zero => exact hinit
  | succ n ih =>
      have hbefore : ¬ final (states n) := by
        intro hfinal
        rw [h.stay n hfinal] at hrunning
        exact hrunning hfinal
      obtain ⟨emitted, hnext⟩ := h.step n hbefore
      exact hstep n emitted hbefore (ih hbefore) hnext hrunning

variable [∀ state action, Decidable (allowed state action)]

/-- An executed list of actions starts with an admitted action, and the rest is executed from the
state that it leads to. -/
theorem execute_cons {action : Action} {actions : List Action}
    (h : execute machine allowed (action :: actions) start = some (finish, trace)) :
    allowed start action ∧ ∃ next emitted rest, machine action start = some (next, emitted) ∧
      execute machine allowed actions next = some (finish, rest) ∧ trace = emitted ++ rest := by
  simp only [execute] at h
  split at h
  · next hallowed =>
    cases hnext : machine action start with
    | none => simp [hnext] at h
    | some result =>
        obtain ⟨next, emitted⟩ := result
        simp only [hnext, Option.map_eq_some_iff, Prod.exists, Prod.mk.injEq] at h
        obtain ⟨_, rest, hrest, rfl, rfl⟩ := h
        exact ⟨hallowed, next, emitted, rest, rfl, hrest, rfl⟩
  · simp at h

/-- Where no action is enabled, only the empty list of actions is executed. -/
theorem execute_stuck {actions : List Action} (hstuck : ∀ action, machine action start = none)
    (h : execute machine allowed actions start = some (finish, trace)) :
    actions = [] ∧ finish = start ∧ trace = [] := by
  cases actions with
  | nil =>
      obtain ⟨rfl, rfl⟩ := Prod.mk.inj (Option.some.inj h)
      exact ⟨rfl, rfl, rfl⟩
  | cons action actions =>
      obtain ⟨-, next, emitted, rest, hnext, -⟩ := execute_cons h
      rw [hstuck action] at hnext
      cases hnext

/-- An executed list of actions is a run. -/
theorem execute_steps {actions : List Action}
    (h : execute machine allowed actions start = some (finish, trace)) :
    Steps (StepOf machine allowed) start trace finish := by
  induction actions generalizing start trace with
  | nil =>
      simp only [execute, Option.some.injEq, Prod.mk.injEq] at h
      obtain ⟨rfl, rfl⟩ := h
      exact .refl _
  | cons action actions ih =>
      obtain ⟨hallowed, next, emitted, rest, hnext, hrest, rfl⟩ := execute_cons h
      exact (Steps.single ⟨action, hallowed, hnext⟩).trans (ih hrest)

/-- An executed list of actions is a run, of whose end and trace `observe` reads off a part. -/
theorem execute_observe {Part : Type*} (observe : State × List Event → Part) {part : Part}
    {actions : List Action} (h : (execute machine allowed actions start).map observe = some part) :
    ∃ trace finish, Steps (StepOf machine allowed) start trace finish ∧
      observe (finish, trace) = part := by
  obtain ⟨⟨finish, trace⟩, hrun, rfl⟩ := Option.map_eq_some_iff.mp h
  exact ⟨trace, finish, execute_steps hrun, rfl⟩

/-- An executed trace belongs to some run. -/
theorem execute_trace {actions : List Action}
    (h : (execute machine allowed actions start).map Prod.snd = some trace) :
    ∃ finish, Steps (StepOf machine allowed) start trace finish := by
  obtain ⟨⟨finish, emitted⟩, hrun, rfl⟩ := Option.map_eq_some_iff.mp h
  exact ⟨finish, execute_steps hrun⟩

/-- Two lists of actions, the second executed from the state `resume middle` when the first has led
to `middle`, are two runs, of whose ends `observe` reads off a part. -/
theorem execute_resume {Part : Type*} (resume : State → State)
    (observe : State → State → Part) {part : Part} {actions more : List Action}
    (h : ((execute machine allowed actions start).bind fun (middle, past) =>
      (execute machine allowed more (resume middle)).map fun (finish, future) =>
        (observe middle finish, past, future)) = some (part, first, rest)) :
    ∃ middle finish, Steps (StepOf machine allowed) start first middle ∧
      Steps (StepOf machine allowed) (resume middle) rest finish ∧
      observe middle finish = part := by
  obtain ⟨⟨middle, past⟩, hfirst, h⟩ := Option.bind_eq_some_iff.mp h
  obtain ⟨⟨finish, future⟩, hrest, heq⟩ := Option.map_eq_some_iff.mp h
  obtain ⟨rfl, rfl, rfl⟩ := by simpa using heq
  exact ⟨middle, finish, execute_steps hfirst, execute_steps hrest, rfl⟩

/-- Two lists of actions executed one after the other are two runs that meet in a state, of which
`observe` reads off a part. -/
theorem execute_split {Part : Type*} (observe : State → Part) {part : Part}
    {actions more : List Action}
    (h : ((execute machine allowed actions start).bind fun (state, past) =>
      (execute machine allowed more state).map fun (_, future) =>
        (observe state, past, future)) = some (part, first, rest)) :
    ∃ middle finish, Steps (StepOf machine allowed) start first middle ∧
      observe middle = part ∧ Steps (StepOf machine allowed) middle rest finish := by
  obtain ⟨middle, finish, hfirst, hrest, hpart⟩ :=
    execute_resume id (fun middle _ => observe middle) h
  exact ⟨middle, finish, hfirst, hpart, hrest⟩

/-- Two lists of actions in one are executed one after the other. -/
theorem execute_append {actions more : List Action}
    (h : execute machine allowed (actions ++ more) start = some (finish, trace)) :
    ∃ middle past future, execute machine allowed actions start = some (middle, past) ∧
      execute machine allowed more middle = some (finish, future) ∧ trace = past ++ future := by
  induction actions generalizing start trace with
  | nil => exact ⟨start, [], trace, rfl, h, rfl⟩
  | cons action actions ih =>
      obtain ⟨hallowed, next, emitted, rest, hnext, hrest, rfl⟩ := execute_cons h
      obtain ⟨middle, past, future, hpast, hfuture, rfl⟩ := ih hrest
      refine ⟨middle, emitted ++ past, future, ?_, hfuture, (List.append_assoc _ _ _).symm⟩
      simp [execute, hallowed, hnext, hpast]

/-- One action more. -/
theorem execute_snoc {action : Action} {actions : List Action}
    (h : execute machine allowed actions start = some (middle, trace))
    (hallowed : allowed middle action)
    (hnext : machine action middle = some (finish, emitted)) :
    execute machine allowed (actions ++ [action]) start = some (finish, trace ++ emitted) := by
  induction actions generalizing start trace with
  | nil =>
      obtain ⟨rfl, rfl⟩ := Prod.mk.inj (Option.some.inj h)
      simp [execute, hallowed, hnext]
  | cons first actions ih =>
      obtain ⟨hfirst, next, before, rest, hbefore, hrest, rfl⟩ := execute_cons h
      simp [execute, hfirst, hbefore, ih hrest]

/-- What holds before the first action and is kept by every action holds of every execution: a fact
about the actions done, the state that they lead to, and the trace. -/
theorem execute_invariant (inv : List Action → State → List Event → Prop) (hinit : inv [] start [])
    (hstep : ∀ actions action state next trace emitted,
      execute machine allowed actions start = some (state, trace) → inv actions state trace →
      allowed state action → machine action state = some (next, emitted) →
      inv (actions ++ [action]) next (trace ++ emitted)) {actions : List Action}
    (h : execute machine allowed actions start = some (finish, trace)) :
    inv actions finish trace := by
  induction actions using List.reverseRecOn generalizing finish trace with
  | nil =>
      obtain ⟨rfl, rfl⟩ := Prod.mk.inj (Option.some.inj h)
      exact hinit
  | append_singleton actions action ih =>
      obtain ⟨middle, past, future, hpast, hlast, rfl⟩ := execute_append h
      obtain ⟨hallowed, next, emitted, rest, hnext, hrest, rfl⟩ := execute_cons hlast
      obtain ⟨rfl, rfl⟩ := Prod.mk.inj (Option.some.inj hrest)
      rw [List.append_nil]
      exact hstep actions action middle _ past emitted hpast (ih hpast) hallowed hnext

/-- An event of an execution is emitted by one of its actions. -/
theorem execute_emitted {actions : List Action} {event : Event}
    (h : execute machine allowed actions start = some (finish, trace)) (hmem : event ∈ trace) :
    ∃ before action after state next past emitted, actions = before ++ action :: after ∧
      execute machine allowed before start = some (state, past) ∧ allowed state action ∧
      machine action state = some (next, emitted) ∧ event ∈ emitted := by
  refine execute_invariant (fun actions _ trace => event ∈ trace →
    ∃ before action after state next past emitted, actions = before ++ action :: after ∧
      execute machine allowed before start = some (state, past) ∧ allowed state action ∧
      machine action state = some (next, emitted) ∧ event ∈ emitted) (by simp) ?_ h hmem
  intro actions action state next trace emitted hrun hinv hallowed hnext hmem
  rcases List.mem_append.mp hmem with hearlier | hnow
  · obtain ⟨before, first, after, middle, following, past, out, rfl, hrest⟩ := hinv hearlier
    exact ⟨before, first, after ++ [action], middle, following, past, out, by simp, hrest⟩
  · exact ⟨actions, action, [], state, next, trace, emitted, rfl, hrun, hallowed, hnext, hnow⟩

/-- A list of actions executed under a further restriction from where another list has led, a state
of which `observe` holds. -/
theorem execute_further {further : State → Action → Prop}
    [∀ state action, Decidable (further state action)] (observe : State → Bool)
    {actions more : List Action}
    (h : ((execute machine allowed actions start).bind fun past =>
      (execute machine further more past.1).map fun _ => observe past.1) = some true) :
    ∃ middle past, Steps (StepOf machine allowed) start past middle ∧ observe middle = true ∧
      ∃ finish trace, execute machine further more middle = some (finish, trace) := by
  obtain ⟨⟨middle, past⟩, hpast, h⟩ := Option.bind_eq_some_iff.mp h
  obtain ⟨⟨finish, trace⟩, hrun, hobserve⟩ := Option.map_eq_some_iff.mp h
  exact ⟨middle, past, execute_steps hpast, hobserve, finish, trace, hrun⟩

end LabelledSteps
