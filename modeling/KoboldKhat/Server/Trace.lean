import KoboldKhat.Library.Trace
import KoboldKhat.Server.History

/-!
# What the server does in a run

A run of the server with its deeds: everything its code does, one operation or call after the other,
each with the event it belongs to (`Traced`). The setting is arbitrary, and the last event may have
stopped (`TracedEnds`). In the setting of the source these are the runs of `Server.State`
(`ends_iff_exists_deeds`), and the writes among the deeds are the writes recorded in the state
(`TracedEnds.written`).

`broadcasts` picks out the calls of `broadcastMessage` with what each of them is for. It is told
from the code that makes the call: `removeClient` announces a departure, and the handler of a
message announces a new name to every session, or relays the message to all but the sender.
-/

set_option autoImplicit false
set_option relaxedAutoImplicit false

namespace KoboldKhat.Server

open Library

/-- One moment of a run, with the event it belongs to. -/
structure Deed where
  /-- The event whose code does it. -/
  event : Event
  /-- What is done, in which state, and inside which calls. -/
  moment : Moment signature State

/-- What the code of an event does. -/
def deedsAt (setting : Setting) (depth : ℕ) (parse : Bytes → Option Json) (event : Event)
    (state : State) : List Deed :=
  ((semantics setting).trace depth [] (event.program parse state.toRegistry)
    (event.prepare state)).map (Deed.mk event)

/-- A sequence of events that all returned, with their deeds and the states at its ends. -/
inductive Traced (setting : Setting) (depth : ℕ) (parse : Bytes → Option Json) :
    State → List Event → List Deed → State → Prop
  | nil (state : State) : Traced setting depth parse state [] [] state
  | snoc {first middle last : State} {events : List Event} {deeds : List Deed} {event : Event}
      (run : Traced setting depth parse first events deeds middle)
      (enabled : event.Enabled middle)
      (returned : stepAt setting depth parse event middle = .returned () last) :
      Traced setting depth parse first (events ++ [event])
        (deeds ++ deedsAt setting depth parse event middle) last

/-- A sequence of events whose last one may have stopped, with their deeds. -/
inductive TracedEnds (setting : Setting) (depth : ℕ) (parse : Bytes → Option Json) :
    State → List Event → List Deed → State → Prop
  | returned {first last : State} {events : List Event} {deeds : List Deed}
      (run : Traced setting depth parse first events deeds last) :
      TracedEnds setting depth parse first events deeds last
  | stopped {first middle last : State} {events : List Event} {deeds : List Deed} {event : Event}
      {fault : Fault} (run : Traced setting depth parse first events deeds middle)
      (enabled : event.Enabled middle)
      (stops : stepAt setting depth parse event middle = .stopped fault last) :
      TracedEnds setting depth parse first (events ++ [event])
        (deeds ++ deedsAt setting depth parse event middle) last

/-- The deeds of events and the state after them, if each is enabled in its turn and returns. -/
def playAt (setting : Setting) (depth : ℕ) (parse : Bytes → Option Json) :
    List Event → State → Option (List Deed × State)
  | [], state => some ([], state)
  | event :: events, state =>
    if event.Enabled state then
      match stepAt setting depth parse event state with
      | .returned _ after => (playAt setting depth parse events after).map fun played ↦
          (deedsAt setting depth parse event state ++ played.1, played.2)
      | .stopped _ _ => none
    else none

section Runs

variable {setting : Setting} {depth : ℕ} {parse : Bytes → Option Json} {network : Network}
  {first middle last : State} {events past : List Event} {deeds done : List Deed}

/-- Events that are played one after the other are a run. -/
theorem traced_of_playAt (hpast : Traced setting depth parse first past done middle)
    (hplay : playAt setting depth parse events middle = some (deeds, last)) :
    Traced setting depth parse first (past ++ events) (done ++ deeds) last := by
  induction events generalizing past done middle deeds with
  | nil =>
    rw [playAt, Option.some.injEq, Prod.mk.injEq] at hplay
    obtain ⟨rfl, rfl⟩ := hplay
    rw [List.append_nil, List.append_nil]
    exact hpast
  | cons event events ih =>
    rw [playAt] at hplay
    split_ifs at hplay with henabled
    cases hstep : stepAt setting depth parse event middle with
    | returned value after =>
      rw [hstep] at hplay
      obtain ⟨⟨later, final⟩, hlater, hboth⟩ := Option.map_eq_some_iff.mp hplay
      obtain ⟨rfl, rfl⟩ := Prod.mk.inj hboth
      rw [List.append_cons, ← List.append_assoc]
      exact ih (hpast.snoc henabled hstep) hlater
    | stopped fault after =>
      rw [hstep] at hplay
      cases hplay

/-- The events that can be played from a state make a run from it. -/
theorem traced_playAt (hsome : (playAt setting depth parse events first).isSome = true) :
    Traced setting depth parse first events ((playAt setting depth parse events first).get hsome).1
      ((playAt setting depth parse events first).get hsome).2 := by
  have hrun := traced_of_playAt (.nil first) (Option.some_get hsome).symm
  rw [List.nil_append, List.nil_append] at hrun
  exact hrun

/-- What every event adds to the deeds so far, the end of a run has of all of them. -/
theorem TracedEnds.preserves (invariant : List Deed → State → Prop) (hfirst : invariant [] first)
    (hevent : ∀ {deeds : List Deed} {before : State} (event : Event), invariant deeds before →
      invariant (deeds ++ deedsAt setting depth parse event before)
        (stepAt setting depth parse event before).state)
    (hends : TracedEnds setting depth parse first events deeds last) : invariant deeds last := by
  have hruns : ∀ {events deeds middle}, Traced setting depth parse first events deeds middle →
      invariant deeds middle := by
    intro events deeds middle hrun
    induction hrun with
    | nil => exact hfirst
    | @snoc middle last events deeds event run enabled returned ih =>
      have hafter := hevent event ih
      rw [returned] at hafter
      exact hafter
  cases hends with
  | returned run => exact hruns run
  | @stopped middle _ events deeds event fault run enabled stops =>
    have hafter := hevent event (hruns run)
    rw [stops] at hafter
    exact hafter

/-! ### The setting of the source -/

/-- In the setting of the source a run with its deeds is a run. -/
theorem Traced.run (hrun : Traced (standard network) 4 parse first events deeds last) :
    Run parse network first events last := by
  induction hrun with
  | nil => exact .nil _
  | snoc run enabled returned ih => exact ih.snoc enabled returned

/-- Every run has deeds. -/
theorem Run.exists_deeds (hrun : Run parse network first events last) :
    ∃ deeds, Traced (standard network) 4 parse first events deeds last := by
  induction hrun with
  | nil => exact ⟨[], .nil _⟩
  | snoc run enabled returned ih =>
    obtain ⟨deeds, hdeeds⟩ := ih
    exact ⟨_, hdeeds.snoc enabled returned⟩

/-- In the setting of the source the runs with their deeds are the runs. -/
theorem ends_iff_exists_deeds : Ends parse network first events last ↔
    ∃ deeds, TracedEnds (standard network) 4 parse first events deeds last := by
  constructor
  · intro hends
    cases hends with
    | returned run =>
      obtain ⟨deeds, hdeeds⟩ := run.exists_deeds
      exact ⟨deeds, .returned hdeeds⟩
    | stopped run enabled stops =>
      obtain ⟨deeds, hdeeds⟩ := run.exists_deeds
      exact ⟨_, .stopped hdeeds enabled stops⟩
  · rintro ⟨deeds, hends⟩
    cases hends with
    | returned run => exact .returned run.run
    | stopped run enabled stops => exact .stopped run.run enabled stops

/-! ### Writes -/

/-- The sessions and the lines of the writes recorded in a state. -/
def State.written (state : State) : List (SessionId × Bytes) :=
  state.attempts.map fun attempt ↦ (attempt.client, attempt.message)

/-- The session and the line of a write. -/
def Operation.writes : Operation → List (SessionId × Bytes)
  | write client message => [(client, message)]
  | _ => []

/-- The session and the line of a write. -/
def Deed.writes (deed : Deed) : List (SessionId × Bytes) :=
  match deed.moment.action with
  | .perform operation => operation.writes
  | .call _ => []

/-- An operation records a write exactly if it is one. -/
theorem written_perform (operation : Operation) (state : State) :
    (perform setting operation state).state.written = state.written ++ operation.writes := by
  have hsame : ∀ {after : State}, after.attempts = state.attempts →
      after.written = state.written ++ [] := by
    intro after hattempts
    rw [State.written, hattempts, List.append_nil]
    rfl
  cases operation with
  | lock =>
    simp only [perform]
    split_ifs <;> exact hsame rfl
  | unlock => exact hsame rfl
  | write client message =>
    show (state.attempts ++ [attemptOf setting.network state.attempts.length (state.isOpen client)
      client message]).map _ = _
    rw [List.map_append, List.map_singleton, attemptOf_client, attemptOf_message]
    rfl
  | remoteEndpoint client => exact hsame rfl
  | enterHandleMessage jsonMessage client => exact hsame rfl
  | registry operation =>
    simp only [perform]
    cases registryStep _ operation state.toRegistry <;> exact hsame rfl

/-- The writes among the deeds are those recorded on the way. -/
theorem written_linked (event : Event) {moments : List (Moment signature State)}
    (hlinked : Semantics.Linked (semantics setting) first moments last) :
    last.written = first.written ++ (moments.map (Deed.mk event)).flatMap Deed.writes := by
  induction hlinked with
  | nil => simp
  | @perform callers operation state final rest linked ih =>
    have hhead : ((semantics setting).perform operation state).state.written = _ :=
      written_perform operation state
    rw [ih, hhead, List.map_cons, List.flatMap_cons, List.append_assoc]
    rfl
  | call linked ih =>
    rw [ih, List.map_cons, List.flatMap_cons]
    rfl

/-- The writes recorded at the end of a run are those among its deeds. -/
theorem TracedEnds.written (hends : TracedEnds setting depth parse first events deeds last) :
    last.written = first.written ++ deeds.flatMap Deed.writes := by
  refine hends.preserves (fun deeds state ↦ state.written = first.written ++
    deeds.flatMap Deed.writes) (List.append_nil _).symm fun {deeds before} event hbefore ↦ ?_
  have hlinked := written_linked event (@Semantics.trace_linked _ _ _ (semantics setting) depth []
    (event.prepare before) (event.program parse before.toRegistry))
  have hprepare : (event.prepare before).written = before.written := rfl
  rw [List.flatMap_append, ← List.append_assoc, ← hbefore, ← hprepare]
  exact hlinked

/-- A deed of a run belongs to one of its events. -/
theorem event_mem_of_deed (hends : TracedEnds setting depth parse first events deeds last)
    {deed : Deed} (hdeed : deed ∈ deeds) : deed.event ∈ events := by
  have hat : ∀ {event : Event} {state : State},
      deed ∈ deedsAt setting depth parse event state → deed.event = event := by
    intro event state hmember
    obtain ⟨moment, -, rfl⟩ := List.mem_map.mp hmember
    rfl
  have hruns : ∀ {events deeds last}, Traced setting depth parse first events deeds last →
      deed ∈ deeds → deed.event ∈ events := by
    intro events deeds last hrun
    induction hrun with
    | nil => exact fun hnone ↦ absurd hnone List.not_mem_nil
    | snoc run enabled returned ih =>
      intro hmember
      rcases List.mem_append.mp hmember with hearlier | hlast
      · exact List.mem_append_left _ (ih hearlier)
      · exact List.mem_append_right _ (List.mem_singleton.mpr (hat hlast))
  cases hends with
  | returned run => exact hruns run hdeed
  | stopped run enabled stops =>
    rcases List.mem_append.mp hdeed with hearlier | hlast
    · exact List.mem_append_left _ (hruns run hearlier)
    · exact List.mem_append_right _ (List.mem_singleton.mpr (hat hlast))

end Runs

/-! ### Broadcasts -/

/-- What a broadcast is for. -/
inductive Purpose
  /-- A call from outside. -/
  | external
  /-- The announcement of the name of a session. -/
  | joined (client : SessionId)
  /-- The relay of a message of a session. -/
  | relayed (client : SessionId)
  /-- The announcement of the departure of a session. -/
  | departed (client : SessionId)
  deriving DecidableEq

/-- What a call of `broadcastMessage` is for, by the event it belongs to, the calls around it and
its excluded socket. -/
def purposeOf : Event → List Procedure → Option SessionId → Option Purpose
  | _, .removeClient client :: _, _ => some (.departed client)
  | .broadcast _ _, [], _ => some .external
  | .runRead client _, [], none => some (.joined client)
  | .runRead client _, [], some _ => some (.relayed client)
  | _, _, _ => none

/-- The purpose and the line of a call of `broadcastMessage`. -/
def Deed.broadcast (deed : Deed) : Option (Purpose × Bytes) :=
  match deed.moment.action with
  | .call (.broadcastMessage message excludeSocket) =>
    (purposeOf deed.event deed.moment.callers excludeSocket).map fun purpose ↦ (purpose, message)
  | _ => none

/-- The broadcasts started among the deeds, in their order. -/
def broadcasts (deeds : List Deed) : List (Purpose × Bytes) :=
  deeds.filterMap Deed.broadcast

end KoboldKhat.Server
