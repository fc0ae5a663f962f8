import KoboldKhat.Library.Linearization
import Mathlib.Logic.Relation

/-!
# Threads that use an object

Threads that make calls of an object and have a state of their own (`Users`). What they do depends
on the object only by what the calls return, and by what can be looked up in it without a call. So
they can be run over an implementation, whose calls take many steps, or over the object itself,
whose calls take effect at one moment each: both are a `Service`.

A service matches another one if the other can do what it does, with the same to be seen and to be
looked up (`Service.Matches`). Users cannot tell them apart: whatever they come to over the one,
they come to over the other (`Users.reaches`). A linearizable implementation matches its object
(`Linearizes.matches`), so what users are shown to do over the object they do over the
implementation.
-/

set_option autoImplicit false
set_option relaxedAutoImplicit false

namespace KoboldKhat.Library

variable {signature : Signature} {ι σ τ γ Call View State S T : Type} {Result : Call → Type}

/-! ### Services -/

/-- What answers calls. -/
structure Service (ι Call : Type) (Result : Call → Type) (View S : Type) where
  /-- A step, with what is seen of it. -/
  step : S → List (Visible ι Call Result) → S → Prop
  /-- What can be looked up. -/
  view : S → View

/-- The object itself, of whose state something can be looked up. -/
def Object.service [DecidableEq ι] (object : Object Call Result σ) (view : σ → View) :
    Service ι Call Result View (InUse σ ι Call Result) where
  step := object.Step
  view inUse := view inUse.items

/-- An implementation, of whose shared state something can be looked up. -/
def Implementation.service [DecidableEq ι]
    (implementation : Implementation signature ι τ Call Result) (view : τ → View) :
    Service ι Call Result View (Implementation.Config signature ι τ Call Result) where
  step := implementation.Step
  view config := view config.state

/-- The second service can do what the first one does, with the same to be seen, or does nothing if
there is nothing to be seen; and the same can be looked up in both. -/
structure Service.Matches (first : Service ι Call Result View S)
    (second : Service ι Call Result View T) (related : S → T → Prop) : Prop where
  /-- The same can be looked up. -/
  view : ∀ {state other}, related state other → first.view state = second.view other
  /-- The second follows a step of the first. -/
  step : ∀ {state after seen other}, related state other → first.step state seen after →
    ∃ next, related after next ∧ (seen = [] ∧ next = other ∨ second.step other seen next)

/-- A linearizable implementation matches its object, if what can be looked up in the shared state
is what can be looked up in that of the object. -/
theorem Linearizes.matches [DecidableEq ι]
    {implementation : Implementation signature ι τ Call Result}
    {object : Object Call Result σ} {discipline : Discipline signature γ}
    {stage : γ → Stage Call Result} {returns : (call : Call) → Result call → γ → Prop}
    {invariant : τ → σ → (ι → γ) → Prop}
    (hlinearizes : Linearizes implementation object discipline stage returns invariant)
    {shared : τ → View} {view : σ → View}
    (hview : ∀ {state items contexts}, invariant state items contexts → shared state = view items) :
    (implementation.service shared).Matches (object.service view)
      (Linearizes.Related discipline stage returns invariant) where
  view := fun hrelated ↦ by
    obtain ⟨contexts, hinvariant, -, -⟩ := hrelated
    exact hview hinvariant
  step := fun hrelated hstep ↦ hlinearizes.simulates hstep hrelated

/-! ### Users -/

/-- Threads that make calls and have a state of their own. -/
structure Users (ι Call : Type) (Result : Call → Type) (View State : Type) where
  /-- A step of their own, by what can be looked up at this moment. -/
  act : State → View → State → Prop
  /-- One of them makes a call, or its call returns. -/
  observe : State → Visible ι Call Result → State → Prop

namespace Users

/-- One step of the users and of what answers their calls. -/
inductive Step (users : Users ι Call Result View State) (service : Service ι Call Result View S) :
    State × S → State × S → Prop
  /-- The users take a step of their own. -/
  | act {own next : State} {served : S} (acts : users.act own (service.view served) next) :
      Step users service (own, served) (next, served)
  /-- A step of which nothing is seen. -/
  | serve {own : State} {served after : S} (steps : service.step served [] after) :
      Step users service (own, served) (own, after)
  /-- A call is made or returns. -/
  | observe {own next : State} {served after : S} {action : Visible ι Call Result}
      (steps : service.step served [action] after) (observes : users.observe own action next) :
      Step users service (own, served) (next, after)

variable {users : Users ι Call Result View State} {concrete : Service ι Call Result View S}
  {abstract : Service ι Call Result View T} {related : S → T → Prop}

/-- What the users do in one step over a service, they do over another one that it matches. -/
theorem Step.matched {before after : State × S} (hstep : users.Step concrete before after)
    (hmatches : concrete.Matches abstract related) {other : T} (hrelated : related before.2 other) :
    ∃ next, related after.2 next ∧
      ((after.1, next) = (before.1, other) ∨
        users.Step abstract (before.1, other) (after.1, next)) := by
  cases hstep with
  | act acts =>
    rw [hmatches.view hrelated] at acts
    exact ⟨other, hrelated, Or.inr (.act acts)⟩
  | serve steps =>
    obtain ⟨next, hnext, ⟨-, rfl⟩ | hstep⟩ := hmatches.step hrelated steps
    · exact ⟨next, hnext, Or.inl rfl⟩
    · exact ⟨next, hnext, Or.inr (.serve hstep)⟩
  | observe steps observes =>
    obtain ⟨next, hnext, ⟨hnone, -⟩ | hstep⟩ := hmatches.step hrelated steps
    · cases hnone
    · exact ⟨next, hnext, Or.inr (.observe hstep observes)⟩

/-- Whatever the users come to over a service, they come to over another one that it matches. -/
theorem reaches (hmatches : concrete.Matches abstract related) {before after : State × S}
    (hsteps : Relation.ReflTransGen (users.Step concrete) before after) {other : T}
    (hrelated : related before.2 other) :
    ∃ next, related after.2 next ∧
      Relation.ReflTransGen (users.Step abstract) (before.1, other) (after.1, next) := by
  induction hsteps with
  | refl => exact ⟨other, hrelated, .refl⟩
  | tail earlier hstep ih =>
    obtain ⟨middle, hmiddle, hreached⟩ := ih
    obtain ⟨next, hnext, hsame | hlast⟩ := hstep.matched hmatches hmiddle
    · exact ⟨next, hnext, hsame ▸ hreached⟩
    · exact ⟨next, hnext, hreached.tail hlast⟩

end Users

end KoboldKhat.Library
