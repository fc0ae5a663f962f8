import KoboldKhat.Library.Program
import Mathlib.Data.Nat.Notation
import Mathlib.Tactic.Common

/-!
# Running a program by one thread

A `Semantics` gives every operation a deterministic effect on a state, and every procedure a body.
`exec` runs a program to its end under a bound on the depth of nested procedure calls: the outcome
is a value with the final state, or the fault that stopped the program with the state at that
moment. A call nested deeper than the bound stops with the fault `exhausted`, and `exec_refines`
shows that no other outcome depends on the bound.

The rules used by the developments on top: `exec_bind` (a sequence runs its parts in order), and
`Outcome.Satisfies` with `satisfies_bind` (a postcondition for normal ends and one for stops).
-/

set_option autoImplicit false
set_option relaxedAutoImplicit false

namespace KoboldKhat.Library

/-- The end of a run: a value, or the fault that stopped the run, each with the state at the
end. -/
inductive Outcome (ε σ α : Type) : Type
  | returned (value : α) (state : σ)
  | stopped (reason : ε) (state : σ)

namespace Outcome

variable {ε σ α β : Type}

/-- The state at the end of a run, whether it returned or stopped. -/
def state : Outcome ε σ α → σ
  | returned _ state => state
  | stopped _ state => state

/-- Continue a run that returned; a stopped run stays stopped. -/
def bind : Outcome ε σ α → (α → σ → Outcome ε σ β) → Outcome ε σ β
  | returned value state, continuation => continuation value state
  | stopped reason state, _ => stopped reason state

@[simp] theorem state_returned (value : α) (state : σ) :
    (returned value state : Outcome ε σ α).state = state :=
  rfl

@[simp] theorem state_stopped (reason : ε) (state : σ) :
    (stopped reason state : Outcome ε σ α).state = state :=
  rfl

@[simp] theorem bind_returned (value : α) (state : σ)
    (continuation : α → σ → Outcome ε σ β) :
    (returned value state).bind continuation = continuation value state :=
  rfl

@[simp] theorem bind_stopped (reason : ε) (state : σ) (continuation : α → σ → Outcome ε σ β) :
    (stopped reason state : Outcome ε σ α).bind continuation = stopped reason state :=
  rfl

/-- A sequence returned exactly when its first part returned and the rest returned from there. -/
theorem bind_eq_returned_iff {first : Outcome ε σ α} {continuation : α → σ → Outcome ε σ β}
    {value : β} {final : σ} :
    first.bind continuation = returned value final ↔
      ∃ middleValue middle, first = returned middleValue middle ∧
        continuation middleValue middle = returned value final := by
  cases first with
  | returned middleValue middle =>
    simp only [bind_returned, returned.injEq]
    exact ⟨fun hrest ↦ ⟨_, _, ⟨rfl, rfl⟩, hrest⟩, by rintro ⟨_, _, ⟨rfl, rfl⟩, hrest⟩; exact hrest⟩
  | stopped reason middle => simp

/-- The outcome meets one condition if it returned and another if it stopped. -/
def Satisfies (onReturn : α → σ → Prop) (onStop : ε → σ → Prop) : Outcome ε σ α → Prop
  | returned value state => onReturn value state
  | stopped reason state => onStop reason state

variable {onReturn : α → σ → Prop} {onStop : ε → σ → Prop}

@[simp] theorem satisfies_returned (value : α) (state : σ) :
    (returned value state : Outcome ε σ α).Satisfies onReturn onStop ↔ onReturn value state :=
  Iff.rfl

@[simp] theorem satisfies_stopped (reason : ε) (state : σ) :
    (stopped reason state : Outcome ε σ α).Satisfies onReturn onStop ↔ onStop reason state :=
  Iff.rfl

/-- Rule of composition for outcomes. -/
theorem satisfies_bind {first : Outcome ε σ α} {continuation : α → σ → Outcome ε σ β}
    {onEnd : β → σ → Prop} (hfirst : first.Satisfies onReturn onStop)
    (hcontinuation : ∀ value state, onReturn value state →
      (continuation value state).Satisfies onEnd onStop) :
    (first.bind continuation).Satisfies onEnd onStop := by
  cases first with
  | returned value state => exact hcontinuation value state hfirst
  | stopped reason state => exact hfirst

/-- What never returns is not continued. -/
theorem satisfies_bind_of_stops {first : Outcome ε σ α} {continuation : α → σ → Outcome ε σ β}
    {onEnd : β → σ → Prop} (hfirst : first.Satisfies (fun _ _ ↦ False) onStop) :
    (first.bind continuation).Satisfies onEnd onStop :=
  satisfies_bind hfirst fun _ _ hreturned ↦ hreturned.elim

/-- Rule of consequence for outcomes. -/
theorem Satisfies.mono {outcome : Outcome ε σ α} {weakerReturn : α → σ → Prop}
    {weakerStop : ε → σ → Prop} (houtcome : outcome.Satisfies onReturn onStop)
    (hreturn : ∀ value state, onReturn value state → weakerReturn value state)
    (hstop : ∀ reason state, onStop reason state → weakerStop reason state) :
    outcome.Satisfies weakerReturn weakerStop := by
  cases outcome with
  | returned value state => exact hreturn value state houtcome
  | stopped reason state => exact hstop reason state houtcome

end Outcome

/-- What the operations do and which bodies the procedures have. `exhausted` is the fault that
stands for a call nested deeper than the bound of a run. -/
structure Semantics (signature : Signature) (σ : Type) where
  /-- The effect of an operation. -/
  perform : (operation : signature.Operation) → σ →
    Outcome signature.Fault σ (signature.Reply operation)
  /-- The body of a procedure. -/
  body : signature.Procedure → Program signature Unit
  /-- The fault of a call that exceeds the bound on nested calls. -/
  exhausted : signature.Fault

section Run

variable {signature : Signature} {σ α β : Type}

/-- Run a program, with the effect of operations and of procedure calls given. -/
def Program.run
    (perform : (operation : signature.Operation) → σ →
      Outcome signature.Fault σ (signature.Reply operation))
    (enter : signature.Procedure → σ → Outcome signature.Fault σ Unit) :
    Program signature α → σ → Outcome signature.Fault σ α
  | .done value, state => .returned value state
  | .fault reason, state => .stopped reason state
  | .act operation next, state =>
    (perform operation state).bind fun reply after ↦ (next reply).run perform enter after
  | .call procedure next, state =>
    (enter procedure state).bind fun _ after ↦ next.run perform enter after

namespace Semantics

variable (semantics : Semantics signature σ)

/-- The effect of a procedure call under a bound on nested calls. -/
def enter : ℕ → signature.Procedure → σ → Outcome signature.Fault σ Unit
  | 0, _, state => .stopped semantics.exhausted state
  | depth + 1, procedure, state =>
    (semantics.body procedure).run semantics.perform (enter depth) state

/-- Run a program under a bound on nested calls. -/
def exec (depth : ℕ) (program : Program signature α) (state : σ) :
    Outcome signature.Fault σ α :=
  program.run semantics.perform (semantics.enter depth) state

variable {semantics} (depth : ℕ) (state : σ)

@[simp] theorem exec_pure (value : α) :
    semantics.exec depth (pure value) state = .returned value state :=
  rfl

@[simp] theorem exec_fault (reason : signature.Fault) :
    semantics.exec depth (.fault reason : Program signature α) state = .stopped reason state :=
  rfl

/-- Performing one operation has the effect the semantics gives it. -/
theorem exec_perform (operation : signature.Operation) :
    semantics.exec depth (Program.perform operation) state = semantics.perform operation state := by
  show (semantics.perform operation state).bind (fun reply after ↦ .returned reply after) = _
  cases semantics.perform operation state <;> rfl

/-- A call at bound zero is exhausted. -/
@[simp] theorem exec_invoke_zero (procedure : signature.Procedure) :
    semantics.exec 0 (Program.invoke procedure) state = .stopped semantics.exhausted state :=
  rfl

/-- A call runs the body of the procedure under a bound smaller by one. -/
theorem exec_invoke_succ (procedure : signature.Procedure) :
    semantics.exec (depth + 1) (Program.invoke procedure) state =
      semantics.exec depth (semantics.body procedure) state := by
  show (semantics.exec depth (semantics.body procedure) state).bind
    (fun _ after ↦ .returned () after) = _
  cases semantics.exec depth (semantics.body procedure) state <;> rfl

/-- A sequence runs its first part and continues from where that returned. -/
theorem exec_bind (program : Program signature α) (continuation : α → Program signature β) :
    semantics.exec depth (program >>= continuation) state =
      (semantics.exec depth program state).bind fun value after ↦
        semantics.exec depth (continuation value) after := by
  rw [Program.bind_eq]
  induction program generalizing state with
  | done value => rfl
  | fault reason => rfl
  | act operation next ih =>
    show (semantics.perform operation state).bind _ =
      ((semantics.perform operation state).bind _).bind _
    cases semantics.perform operation state with
    | returned reply after => exact ih reply after
    | stopped reason after => rfl
  | call procedure next ih =>
    show (semantics.enter depth procedure state).bind _ =
      ((semantics.enter depth procedure state).bind _).bind _
    cases semantics.enter depth procedure state with
    | returned reply after => exact ih after
    | stopped reason after => rfl

/-- A conditional runs the branch its condition selects. -/
theorem exec_ite (condition : Prop) [Decidable condition]
    (positive negative : Program signature α) :
    semantics.exec depth (if condition then positive else negative) state =
      if condition then semantics.exec depth positive state
      else semantics.exec depth negative state := by
  split <;> rfl

/-! ### The bound on nested calls -/

/-- A run that another run of larger bound agrees with, unless it was exhausted. -/
def Refines (exhausted : signature.Fault) (first second : Outcome signature.Fault σ α) : Prop :=
  first = second ∨ ∃ state, first = .stopped exhausted state

/-- Calls that agree unless exhausted give runs that agree unless exhausted. -/
theorem run_refines {first second : signature.Procedure → σ → Outcome signature.Fault σ Unit}
    (hcalls : ∀ procedure state, Refines semantics.exhausted (first procedure state)
      (second procedure state)) (program : Program signature α) :
    Refines semantics.exhausted (program.run semantics.perform first state)
      (program.run semantics.perform second state) := by
  induction program generalizing state with
  | done value => exact Or.inl rfl
  | fault reason => exact Or.inl rfl
  | act operation next ih =>
    simp only [Program.run]
    cases semantics.perform operation state with
    | returned reply after => exact ih reply after
    | stopped reason after => exact Or.inl rfl
  | call procedure next ih =>
    simp only [Program.run]
    obtain hsame | ⟨after, hexhausted⟩ := hcalls procedure state
    · rw [hsame]
      cases second procedure state with
      | returned reply after => exact ih after
      | stopped reason after => exact Or.inl rfl
    · rw [hexhausted]
      exact Or.inr ⟨after, rfl⟩

/-- One more nested call changes no call that was not exhausted. -/
theorem enter_refines_succ (procedure : signature.Procedure) :
    Refines semantics.exhausted (semantics.enter depth procedure state)
      (semantics.enter (depth + 1) procedure state) := by
  induction depth generalizing procedure state with
  | zero => exact Or.inr ⟨state, rfl⟩
  | succ depth ih => exact run_refines state (fun callee after ↦ ih after callee) _

/-- A run that was not exhausted is the same under every larger bound. -/
theorem exec_refines {larger : ℕ} (hle : depth ≤ larger) (program : Program signature α) :
    Refines semantics.exhausted (semantics.exec depth program state)
      (semantics.exec larger program state) := by
  induction hle with
  | refl => exact Or.inl rfl
  | @step larger _ ih =>
    obtain hsame | ⟨after, hexhausted⟩ := ih
    · rw [hsame]
      exact run_refines state (fun callee after ↦ enter_refines_succ larger after callee) program
    · exact Or.inr ⟨after, hexhausted⟩

/-- The program ends, by a value or a fault of its own, under some bound on nested calls. -/
def Terminates (semantics : Semantics signature σ) (program : Program signature α) (state : σ) :
    Prop :=
  ∃ depth, ∀ after, semantics.exec depth program state ≠ .stopped semantics.exhausted after

/-- A program terminates when one of its runs ends without having been exhausted. -/
theorem Terminates.of_satisfies {program : Program signature α} {onReturn : α → σ → Prop}
    (hsatisfies : (semantics.exec depth program state).Satisfies onReturn
      fun reason _ ↦ reason ≠ semantics.exhausted) : semantics.Terminates program state := by
  refine ⟨depth, fun after hexhausted ↦ ?_⟩
  rw [hexhausted] at hsatisfies
  exact hsatisfies rfl

/-- A program all of whose runs are exhausted does not terminate. -/
theorem not_terminates_of_satisfies {program : Program signature α}
    (hsatisfies : ∀ depth, (semantics.exec depth program state).Satisfies (fun _ _ ↦ False)
      fun reason _ ↦ reason = semantics.exhausted) : ¬ semantics.Terminates program state := by
  rintro ⟨depth, hends⟩
  have hdepth := hsatisfies depth
  cases houtcome : semantics.exec depth program state with
  | returned value after =>
    rw [houtcome] at hdepth
    exact hdepth
  | stopped reason after =>
    rw [houtcome] at hdepth
    rw [houtcome, show reason = semantics.exhausted from hdepth] at hends
    exact hends after rfl

end Semantics

end Run

end KoboldKhat.Library
