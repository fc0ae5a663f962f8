import KoboldKhat.Library.TwoRuns
import KoboldKhat.Server.History
import Mathlib.Data.List.Forall2

/-!
# Two runs of the server

Two runs from one state that get the same events, up to the texts of some messages (`TwoEnds`).
`Indistinguishable hidden` relates two states that agree on everything but the chunks of completed
reads and the lines written to hidden sessions. Every operation of the server respects it
(`respects_indistinguishable`), so two runs stay indistinguishable as long as the messages that
differ are handled indistinguishably (`TwoEnds.indistinguishable`). The setting is arbitrary.
-/

set_option autoImplicit false
set_option relaxedAutoImplicit false

namespace KoboldKhat.Server

open Library

/-! ### Indistinguishable states -/

/-- The registry without the completed reads. -/
def Registry.withoutReads (registry : Registry) : Registry :=
  { registry with readyReads := [] }

/-- Two writes to one session, with the same outcome unless the session is hidden. -/
structure Attempt.Agrees (hidden : Set SessionId) (first second : Attempt) : Prop where
  client : first.client = second.client
  visible : first.client ∉ hidden → first = second

/-- Two states that differ at most in what the completed reads carry and in what has been written
to hidden sessions. -/
structure Indistinguishable (hidden : Set SessionId) (first second : State) : Prop where
  registry : first.withoutReads = second.withoutReads
  held : first.held = second.held
  attempts : List.Forall₂ (Attempt.Agrees hidden) first.attempts second.attempts

/-- An operation on the registry does not look at the completed reads. -/
theorem registryStep_alike (pastEnd : Option SessionId) (operation : RegistryOperation)
    {first second : Registry} (hsame : first.withoutReads = second.withoutReads) :
    (registryStep pastEnd operation first).Alike
      (fun left right ↦ left.withoutReads = right.withoutReads)
      (registryStep pastEnd operation second) := by
  have hsecond : second = { first with readyReads := second.readyReads } := by
    rcases first
    rcases second
    simp only [Registry.withoutReads, Registry.mk.injEq] at hsame ⊢
    tauto
  rw [hsecond]
  cases operation with
  | dereference slot =>
    simp only [registryStep]
    cases first.clients[slot]?.or pastEnd with
    | some client => exact .returned _ rfl
    | none => exact .stopped _ rfl
  | _ => exact .returned _ rfl

section Indistinguishability

variable {hidden : Set SessionId} {first second : State}

theorem Attempt.Agrees.refl (attempt : Attempt) : attempt.Agrees hidden attempt :=
  ⟨rfl, fun _ ↦ rfl⟩

theorem Indistinguishable.refl (state : State) : Indistinguishable hidden state state :=
  ⟨rfl, rfl, List.forall₂_same.mpr fun attempt _ ↦ .refl attempt⟩

variable (hsame : Indistinguishable hidden first second)

include hsame

theorem Indistinguishable.clients : first.clients = second.clients :=
  (congrArg Registry.clients hsame.registry :)

theorem Indistinguishable.username : first.username = second.username :=
  (congrArg Registry.username hsame.registry :)

theorem Indistinguishable.isOpen : first.isOpen = second.isOpen :=
  (congrArg Registry.isOpen hsame.registry :)

/-- The same write is attempted with the same outcome. -/
theorem Indistinguishable.attempt (network : Network) (client : SessionId) (message : Bytes) :
    first.attempt network client message = second.attempt network client message := by
  rw [State.attempt, State.attempt, hsame.isOpen, hsame.attempts.length_eq]

/-- Writes that agree leave indistinguishable states. -/
theorem Indistinguishable.record {attempt other : Attempt} (hagrees : attempt.Agrees hidden other) :
    Indistinguishable hidden (first.record [attempt]) (second.record [other]) :=
  ⟨hsame.registry, hsame.held, List.rel_append hsame.attempts (.cons hagrees .nil)⟩

/-- Visible sessions have been sent the same bytes. -/
theorem Indistinguishable.outgoing {client : SessionId} (hvisible : client ∉ hidden) :
    first.outgoing client = second.outgoing client := by
  have hattempts := hsame.attempts
  rw [State.outgoing, State.outgoing]
  generalize first.attempts = attempts at hattempts ⊢
  generalize second.attempts = otherAttempts at hattempts ⊢
  induction hattempts with
  | nil => rfl
  | @cons attempt other rest others hagrees hrest ih =>
    rw [List.filter_cons, List.filter_cons, ← hagrees.client]
    by_cases hclient : attempt.client = client
    · have hequal : attempt = other := hagrees.visible (hclient ▸ hvisible)
      rw [if_pos (by simpa using hclient), if_pos (by simpa using hclient), List.flatMap_cons,
        List.flatMap_cons, ih, hequal]
    · rw [if_neg (by simpa using hclient), if_neg (by simpa using hclient)]
      exact ih

end Indistinguishability

/-- No operation of the server tells indistinguishable states apart. -/
theorem respects_indistinguishable (setting : Setting) (hidden : Set SessionId) :
    (semantics setting).Respects (Indistinguishable hidden) := by
  intro operation first second hsame
  cases operation with
  | lock =>
    show (perform setting .lock first).Alike _ (perform setting .lock second)
    simp only [perform, hsame.held]
    split_ifs
    · exact .stopped _ hsame
    · exact .returned _ ⟨hsame.registry, rfl, hsame.attempts⟩
  | unlock => exact .returned _ ⟨hsame.registry, congrArg (· - 1) hsame.held, hsame.attempts⟩
  | write client message =>
    have hattempt := hsame.attempt setting.network client message
    have hwrite : ∀ state, perform setting (.write client message) state =
        .returned (state.attempt setting.network client message).ok
          (state.record [state.attempt setting.network client message]) := fun _ ↦ rfl
    show (perform setting (.write client message) first).Alike _
      (perform setting (.write client message) second)
    rw [hwrite, hwrite, hattempt]
    exact .returned _ (hsame.record (.refl _))
  | remoteEndpoint client => exact .returned _ hsame
  | enterHandleMessage jsonMessage client =>
    exact .returned _ ⟨hsame.registry, hsame.held, hsame.attempts⟩
  | registry operation =>
    have hstep := registryStep_alike setting.pastEnd operation hsame.registry
    show (perform setting (.registry operation) first).Alike _
      (perform setting (.registry operation) second)
    simp only [perform]
    generalize registryStep _ operation first.toRegistry = left at hstep ⊢
    generalize registryStep _ operation second.toRegistry = right at hstep ⊢
    cases hstep with
    | returned reply registries => exact .returned _ ⟨registries, hsame.held, hsame.attempts⟩
    | stopped reason registries => exact .stopped _ ⟨registries, hsame.held, hsame.attempts⟩

/-! ### Two runs -/

/-- Which chunks two runs may hand to the read handler of a session in place of each other, in the
two states they have reached. -/
abbrev Variation :=
  State → State → SessionId → Bytes → Bytes → Prop

/-- Two events that are the same up to the bytes of a read. The bytes that are handled vary only as
permitted. -/
inductive Corresponds (varies : Variation) (first second : State) : Event → Event → Prop
  | same (event : Event) : Corresponds varies first second event event
  | completed (client : SessionId) (chunk other : Bytes) :
      Corresponds varies first second (.readCompletes client (.data chunk))
        (.readCompletes client (.data other))
  | handled {client : SessionId} {chunk other : Bytes}
      (permitted : varies first second client chunk other) :
      Corresponds varies first second (.runRead client (.data chunk))
        (.runRead client (.data other))

/-- Two runs from one state whose events correspond and all return. -/
inductive TwoRuns (setting : Setting) (depth : ℕ) (parse : Bytes → Option Json)
    (varies : Variation) (start : State) : List Event → State → List Event → State → Prop
  | nil : TwoRuns setting depth parse varies start [] start [] start
  | snoc {events others : List Event} {first second after afterOther : State}
      {event other : Event}
      (runs : TwoRuns setting depth parse varies start events first others second)
      (corresponds : Corresponds varies first second event other)
      (enabled : event.Enabled first) (enabledOther : other.Enabled second)
      (returned : stepAt setting depth parse event first = .returned () after)
      (returnedOther : stepAt setting depth parse other second = .returned () afterOther) :
      TwoRuns setting depth parse varies start (events ++ [event]) after (others ++ [other])
        afterOther

/-- Two runs from one state whose events correspond. Their last events may have stopped. -/
inductive TwoEnds (setting : Setting) (depth : ℕ) (parse : Bytes → Option Json)
    (varies : Variation) (start : State) : List Event → State → List Event → State → Prop
  | returned {events others : List Event} {first second : State}
      (runs : TwoRuns setting depth parse varies start events first others second) :
      TwoEnds setting depth parse varies start events first others second
  | last {events others : List Event} {first second : State} {event other : Event}
      (runs : TwoRuns setting depth parse varies start events first others second)
      (corresponds : Corresponds varies first second event other)
      (enabled : event.Enabled first) (enabledOther : other.Enabled second) :
      TwoEnds setting depth parse varies start (events ++ [event])
        (stepAt setting depth parse event first).state (others ++ [other])
        (stepAt setting depth parse other second).state

/-- Handling chunks that vary leaves indistinguishable states indistinguishable. -/
def Variation.Concealed (varies : Variation) (setting : Setting) (depth : ℕ)
    (parse : Bytes → Option Json) (hidden : Set SessionId) : Prop :=
  ∀ {first second client chunk other}, Indistinguishable hidden first second →
    varies first second client chunk other →
    (stepAt setting depth parse (.runRead client (.data chunk)) first).Alike
      (Indistinguishable hidden)
      (stepAt setting depth parse (.runRead client (.data other)) second)

section Simulation

variable {setting : Setting} {depth : ℕ} {parse : Bytes → Option Json} {varies : Variation}
  {hidden : Set SessionId} {start first second : State} {events others : List Event}

/-- What happens before the code of corresponding events runs leaves indistinguishable states
indistinguishable. -/
theorem Indistinguishable.prepare (hsame : Indistinguishable hidden first second)
    {event other : Event} (hcorresponds : Corresponds varies first second event other) :
    Indistinguishable hidden (event.prepare first) (other.prepare second) := by
  refine ⟨?_, hsame.held, hsame.attempts⟩
  have hregistry := hsame.registry
  show (event.arrive first.toRegistry).withoutReads = (other.arrive second.toRegistry).withoutReads
  generalize first.toRegistry = left at hregistry ⊢
  generalize second.toRegistry = right at hregistry ⊢
  rcases left
  rcases right
  simp only [Registry.withoutReads, Registry.mk.injEq] at hregistry
  obtain ⟨rfl, rfl, rfl, rfl, rfl, rfl, rfl, rfl, rfl, rfl, -⟩ := hregistry
  cases hcorresponds with
  | same event =>
    cases event with
    | runAccept result => cases result <;> rfl
    | _ => rfl
  | completed client chunk other => rfl
  | handled permitted => rfl

/-- Corresponding events keep states indistinguishable if the chunks that vary are concealed. -/
theorem stepAt_alike (hconcealed : varies.Concealed setting depth parse hidden)
    (hsame : Indistinguishable hidden first second) {event other : Event}
    (hcorresponds : Corresponds varies first second event other) :
    (stepAt setting depth parse event first).Alike (Indistinguishable hidden)
      (stepAt setting depth parse other second) := by
  have hprepared := hsame.prepare hcorresponds
  cases hcorresponds with
  | same event =>
    have hprogram :
        event.program parse first.toRegistry = event.program parse second.toRegistry := by
      have haccepted : first.accepted = second.accepted :=
        (congrArg Registry.accepted hsame.registry :)
      cases event with
      | runAccept result => exact congrArg (acceptHandler · result) haccepted
      | _ => rfl
    rw [stepAt, stepAt, hprogram]
    exact Semantics.exec_alike (respects_indistinguishable setting hidden) depth _ hprepared
  | completed client chunk other => exact .returned () hprepared
  | handled permitted => exact hconcealed hsame permitted

/-- Two runs stay indistinguishable if the chunks that vary are concealed. -/
theorem TwoRuns.indistinguishable (hconcealed : varies.Concealed setting depth parse hidden)
    (hruns : TwoRuns setting depth parse varies start events first others second) :
    Indistinguishable hidden first second := by
  induction hruns with
  | nil => exact .refl start
  | snoc runs corresponds enabled enabledOther returned returnedOther ih =>
    have halike := stepAt_alike hconcealed ih corresponds
    rw [returned, returnedOther] at halike
    exact halike.state

/-- The ends of two runs are indistinguishable if the chunks that vary are concealed. -/
theorem TwoEnds.indistinguishable (hconcealed : varies.Concealed setting depth parse hidden)
    (hends : TwoEnds setting depth parse varies start events first others second) :
    Indistinguishable hidden first second := by
  cases hends with
  | returned runs => exact runs.indistinguishable hconcealed
  | last runs corresponds enabled enabledOther =>
    exact (stepAt_alike hconcealed (runs.indistinguishable hconcealed) corresponds).state

end Simulation

/-! ### The setting of the source -/

section Sides

variable {parse : Bytes → Option Json} {network : Network} {varies : Variation}
  {start first second : State} {events others : List Event}

/-- A run is two runs with the same events. -/
theorem Run.twoRuns (hrun : Run parse network start events first) :
    TwoRuns (standard network) 4 parse varies start events first events first := by
  induction hrun with
  | nil => exact .nil
  | snoc run enabled returned ih => exact ih.snoc (.same _) enabled enabled returned returned

/-- Two runs are runs. -/
theorem TwoRuns.sides
    (hruns : TwoRuns (standard network) 4 parse varies start events first others second) :
    Run parse network start events first ∧ Run parse network start others second := by
  induction hruns with
  | nil => exact ⟨.nil _, .nil _⟩
  | snoc runs corresponds enabled enabledOther returned returnedOther ih =>
    exact ⟨ih.1.snoc enabled returned, ih.2.snoc enabledOther returnedOther⟩

/-- One more event ends a run, whether it returns or stops. -/
theorem Run.ends_step (hrun : Run parse network start events first) {event : Event}
    (henabled : event.Enabled first) :
    Ends parse network start (events ++ [event]) (step parse network event first).state := by
  cases hstep : step parse network event first with
  | returned value after => exact .returned (hrun.snoc henabled hstep)
  | stopped fault after => exact .stopped hrun henabled hstep

/-- The two sides of two runs whose last events may have stopped are such runs. -/
theorem TwoEnds.sides
    (hends : TwoEnds (standard network) 4 parse varies start events first others second) :
    Ends parse network start events first ∧ Ends parse network start others second := by
  cases hends with
  | returned runs => exact ⟨.returned runs.sides.1, .returned runs.sides.2⟩
  | last runs corresponds enabled enabledOther =>
    exact ⟨runs.sides.1.ends_step enabled, runs.sides.2.ends_step enabledOther⟩

end Sides

end KoboldKhat.Server
