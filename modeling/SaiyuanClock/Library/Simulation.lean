import Mathlib.Data.List.Basic

/-!
# Simulation of commands

An interpreter executes commands on a concrete state and may fail. A meaning says what the same
commands are for, as total functions on an abstract state, and which of them an abstract state
accepts. If every accepted command succeeds and keeps the relation between the two states, then so
does every list of commands that is accepted one after the other.
-/

namespace CommandSimulation

variable {Command Concrete Abstract : Type*}

/-- The abstract state accepts the commands, each one after those before it. -/
def AcceptsAll (accepts : Abstract → Command → Prop) (meaning : Abstract → Command → Abstract) :
    Abstract → List Command → Prop
  | _, [] => True
  | state, command :: commands =>
      accepts state command ∧ AcceptsAll accepts meaning (meaning state command) commands

/-- An interpreter simulates a meaning: an accepted command succeeds and keeps the relation. -/
def Simulates (rel : Concrete → Abstract → Prop) (accepts : Abstract → Command → Prop)
    (execute : Concrete → Command → Option Concrete) (meaning : Abstract → Command → Abstract) :
    Prop :=
  ∀ concrete abstract command, rel concrete abstract → accepts abstract command →
    ∃ next, execute concrete command = some next ∧ rel next (meaning abstract command)

variable {rel : Concrete → Abstract → Prop} {accepts : Abstract → Command → Prop}
  {execute : Concrete → Command → Option Concrete} {meaning : Abstract → Command → Abstract}
  {commands : List Command} {abstract : Abstract} {concrete : Concrete}

/-- Commands that every state accepts are accepted one after the other. -/
theorem AcceptsAll.of_forall (h : ∀ command ∈ commands, ∀ state, accepts state command) :
    AcceptsAll accepts meaning abstract commands := by
  induction commands generalizing abstract with
  | nil => trivial
  | cons command commands ih =>
      obtain ⟨hcommand, hcommands⟩ := List.forall_mem_cons.mp h
      exact ⟨hcommand abstract, ih hcommands⟩

/-- A list of accepted commands succeeds and keeps the relation. -/
theorem Simulates.foldlM (h : Simulates rel accepts execute meaning) (hrel : rel concrete abstract)
    (haccepts : AcceptsAll accepts meaning abstract commands) :
    ∃ next, commands.foldlM execute concrete = some next ∧
      rel next (commands.foldl meaning abstract) := by
  induction commands generalizing concrete abstract with
  | nil => exact ⟨concrete, rfl, hrel⟩
  | cons command commands ih =>
      obtain ⟨hcommand, hcommands⟩ := haccepts
      obtain ⟨middle, hmiddle, hkept⟩ := h concrete abstract command hrel hcommand
      obtain ⟨next, hnext, hlast⟩ := ih hkept hcommands
      exact ⟨next, by rw [List.foldlM_cons, hmiddle]; exact hnext, hlast⟩

end CommandSimulation
