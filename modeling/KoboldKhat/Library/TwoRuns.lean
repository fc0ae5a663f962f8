import KoboldKhat.Library.Execution

/-!
# Two runs of one program

A relation between states that every operation respects (`Semantics.Respects`: from related states
it gives the same reply, or stops with the same fault, and leaves related states) is respected by
every program (`exec_alike`), under every bound on nested calls. This is the rule behind statements
about pairs of runs: what the relation leaves open does not influence what it fixes.
-/

set_option autoImplicit false
set_option relaxedAutoImplicit false

namespace KoboldKhat.Library

namespace Outcome

variable {ε σ α β : Type} {related : σ → σ → Prop}

/-- Two outcomes that returned the same value, or stopped with the same fault, in related
states. -/
inductive Alike (related : σ → σ → Prop) : Outcome ε σ α → Outcome ε σ α → Prop
  | returned (value : α) {first second : σ} (states : related first second) :
      Alike related (.returned value first) (.returned value second)
  | stopped (reason : ε) {first second : σ} (states : related first second) :
      Alike related (.stopped reason first) (.stopped reason second)

/-- The states of alike outcomes are related. -/
theorem Alike.state {first second : Outcome ε σ α} (halike : first.Alike related second) :
    related first.state second.state := by
  cases halike with
  | returned value states => exact states
  | stopped reason states => exact states

/-- Alike outcomes continued alike are alike. -/
theorem Alike.bind {first second : Outcome ε σ α} {continuation other : α → σ → Outcome ε σ β}
    (halike : first.Alike related second)
    (hrest : ∀ value {left right}, related left right →
      (continuation value left).Alike related (other value right)) :
    (first.bind continuation).Alike related (second.bind other) := by
  cases halike with
  | returned value states => exact hrest value states
  | stopped reason states => exact .stopped reason states

end Outcome

namespace Semantics

variable {signature : Signature} {σ α : Type} {semantics : Semantics signature σ}
  {related : σ → σ → Prop}

/-- Every operation gives alike outcomes from related states. -/
def Respects (semantics : Semantics signature σ) (related : σ → σ → Prop) : Prop :=
  ∀ operation {first second}, related first second →
    (semantics.perform operation first).Alike related (semantics.perform operation second)

/-- A program gives alike outcomes if the operations and the calls do. -/
theorem run_alike {enter : signature.Procedure → σ → Outcome signature.Fault σ Unit}
    (hrespects : semantics.Respects related)
    (henter : ∀ procedure {first second}, related first second →
      (enter procedure first).Alike related (enter procedure second))
    (program : Program signature α) {first second : σ} (hrelated : related first second) :
    (program.run semantics.perform enter first).Alike related
      (program.run semantics.perform enter second) := by
  induction program generalizing first second with
  | done value => exact .returned value hrelated
  | fault reason => exact .stopped reason hrelated
  | act operation next ih =>
    exact (hrespects operation hrelated).bind fun reply _ _ hafter ↦ ih reply hafter
  | call procedure next ih =>
    exact (henter procedure hrelated).bind fun _ _ _ hafter ↦ ih hafter

/-- A call gives alike outcomes if the operations do. -/
theorem enter_alike (hrespects : semantics.Respects related) (depth : ℕ)
    (procedure : signature.Procedure) {first second : σ} (hrelated : related first second) :
    (semantics.enter depth procedure first).Alike related
      (semantics.enter depth procedure second) := by
  induction depth generalizing procedure first second with
  | zero => exact .stopped _ hrelated
  | succ depth ih =>
    exact run_alike hrespects (fun procedure _ _ ↦ ih procedure) (semantics.body procedure) hrelated

/-- A program gives alike outcomes from related states if every operation does. -/
theorem exec_alike (hrespects : semantics.Respects related) (depth : ℕ)
    (program : Program signature α) {first second : σ} (hrelated : related first second) :
    (semantics.exec depth program first).Alike related (semantics.exec depth program second) :=
  run_alike hrespects (fun procedure _ _ ↦ enter_alike hrespects depth procedure) program hrelated

end Semantics

end KoboldKhat.Library
