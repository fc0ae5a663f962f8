import KoboldKhat.Server.Sessions

/-!
# What a run leaves behind

The records of a run, whether all its events returned or its last one stopped (`Ends`). The calls of
`handleMessage` for a session are one for each chunk that a read handler of the session was given
and that is not blank, in the order of the handlers (`Ends.callsFrom`). The writes to a session are
each the beginning of a line, and the whole of it when the write returned (`Ends.faithful`), so a
session whose writes all returned has been sent the concatenation of its lines
(`outgoing_eq_flatten`).
-/

set_option autoImplicit false
set_option relaxedAutoImplicit false

namespace KoboldKhat.Server

open Library

/-- A run whose last event may have stopped. -/
inductive Ends (parse : Bytes → Option Json) (network : Network) :
    State → List Event → State → Prop
  | returned {first last : State} {events : List Event}
      (run : Run parse network first events last) : Ends parse network first events last
  | stopped {first middle last : State} {events : List Event} {event : Event} {fault : Fault}
      (run : Run parse network first events middle) (enabled : event.Enabled middle)
      (stops : step parse network event middle = .stopped fault last) :
      Ends parse network first (events ++ [event]) last

section Runs

variable {parse : Bytes → Option Json} {network : Network} {state after first last : State}
  {event : Event} {events : List Event}

/-- What every effect and every halt says about the events so far, the end of a run says about all
of them. -/
theorem Ends.preserves (invariant : List Event → State → Prop) (hfree : first.held = 0)
    (hfirst : invariant [] first)
    (heffect : ∀ {earlier : List Event} {before after : State} {event : Event},
      Run parse network first earlier before → event.Enabled before →
      Effect parse network before event after → invariant earlier before →
      invariant (earlier ++ [event]) after)
    (hhalt : ∀ {earlier : List Event} {before after : State} {event : Event} {fault : Fault},
      Run parse network first earlier before → event.Enabled before →
      Halt parse network before event fault after → invariant earlier before →
      invariant (earlier ++ [event]) after)
    (hends : Ends parse network first events last) : invariant events last := by
  have hruns : ∀ {earlier middle}, Run parse network first earlier middle →
      invariant earlier middle := by
    intro earlier middle hrun
    induction hrun with
    | nil => exact hfirst
    | snoc run enabled returned ih =>
      exact heffect run enabled (effect_of_returned (run.held hfree) returned) ih
  cases hends with
  | returned run => exact hruns run
  | stopped run enabled stops =>
    exact hhalt run enabled (halt_of_stopped (run.held hfree) stops) (hruns run)

/-! ### Calls of `handleMessage` -/

/-- The call of `handleMessage` an event makes. -/
def Event.callOf (parse : Bytes → Option Json) : Event → List (SessionId × Json)
  | runRead client (.data chunk) =>
    if IsBlankChunk chunk then [] else [(client, parsedMessage parse chunk)]
  | _ => []

/-- The handling of a message makes no further call. -/
theorem MessageEffect.handled {message newUsername : Bytes} {client : SessionId}
    (heffect : MessageEffect network state message newUsername client after) :
    after.handled = state.handled := by
  cases heffect with
  | direct receiver command found => rfl
  | register command unnamed sent => rfl
  | chat command named sent => rfl

theorem MessageHalt.handled {message newUsername : Bytes} {client : SessionId} {fault : Fault}
    (hhalt : MessageHalt network state message newUsername client fault after) :
    after.handled = state.handled := by
  cases hhalt with
  | notFound command none => rfl
  | register command unnamed failed => rfl
  | chat command named failed => rfl

/-- An event that returned added its call. -/
theorem Effect.handled (heffect : Effect parse network state event after) :
    after.handled = state.handled ++ event.callOf parse := by
  cases heffect with
  | blank client chunk isBlank =>
    rw [Event.callOf, if_pos isBlank, List.append_nil]
    rfl
  | message client chunk message newUsername middle notBlank fields effect =>
    rw [Event.callOf, if_neg notBlank]
    exact effect.handled
  | acceptError => exact (List.append_nil _).symm
  | acceptCompletes result => exact (List.append_nil _).symm
  | readCompletes client result => exact (List.append_nil _).symm
  | _ => exact (List.append_nil _).symm

/-- An event that stopped added its call. -/
theorem Halt.handled {fault : Fault} (hhalt : Halt parse network state event fault after) :
    after.handled = state.handled ++ event.callOf parse := by
  cases hhalt with
  | fields client chunk fault notBlank fields =>
    rw [Event.callOf, if_neg notBlank]
    rfl
  | message client chunk message newUsername fault middle notBlank fields halt =>
    rw [Event.callOf, if_neg notBlank]
    exact halt.handled
  | _ => exact (List.append_nil _).symm

/-- The calls of a run are those of its events. -/
theorem Ends.handled (hends : Ends parse network first events last) (hfree : first.held = 0) :
    last.handled = first.handled ++ events.flatMap (Event.callOf parse) := by
  refine Ends.preserves (fun events state ↦ state.handled = first.handled ++
    events.flatMap (Event.callOf parse)) hfree ?_ ?_ ?_ hends
  · exact (List.append_nil _).symm
  · intro earlier before after event _ _ heffect hbefore
    rw [heffect.handled, hbefore, List.flatMap_append, List.flatMap_singleton, List.append_assoc]
  · intro earlier before after event fault _ _ hhalt hbefore
    rw [hhalt.handled, hbefore, List.flatMap_append, List.flatMap_singleton, List.append_assoc]

/-- The chunk a read handler of the session is given by an event. -/
def Event.chunkOf (client : SessionId) : Event → List Bytes
  | runRead reader (.data chunk) => if reader = client then [chunk] else []
  | _ => []

/-- The chunks the read handlers of the session are given, in the order of the handlers. -/
def chunksRead (client : SessionId) (events : List Event) : List Bytes :=
  events.flatMap (Event.chunkOf client)

/-- The fields read, or the fault met instead, in the call of `handleMessage` for a chunk. There is
none for a blank chunk. -/
def chunkCall (parse : Bytes → Option Json) (chunk : Bytes) : List (Except Fault (Bytes × Bytes)) :=
  if IsBlankChunk chunk then [] else [messageFields (parsedMessage parse chunk)]

/-- The fields read, or the faults met instead, in the calls of `handleMessage` for a session. -/
def State.callsFrom (state : State) (client : SessionId) : List (Except Fault (Bytes × Bytes)) :=
  (state.handled.filter fun call ↦ call.1 = client).map fun call ↦ messageFields call.2

/-- The calls for a session are those for the chunks read from it. -/
theorem Ends.callsFrom (hends : Ends parse network first events last) (hfree : first.held = 0)
    (hnone : first.handled = []) (client : SessionId) :
    last.callsFrom client = (chunksRead client events).flatMap (chunkCall parse) := by
  rw [State.callsFrom, hends.handled hfree, hnone, List.nil_append, chunksRead]
  clear hends
  induction events with
  | nil => rfl
  | cons event events ih =>
    have hevent : ((event.callOf parse).filter fun call ↦ call.1 = client).map
        (fun call ↦ messageFields call.2) = (event.chunkOf client).flatMap (chunkCall parse) := by
      unfold Event.callOf Event.chunkOf
      split
      · split_ifs with hblank hreader <;> simp_all [chunkCall]
      · rfl
    rw [List.flatMap_cons, List.flatMap_cons, List.filter_append, List.map_append, ih, hevent,
      List.flatMap_append]

/-! ### Sizes of reads -/

/-- The chunks that completed reads carry fit the buffer and are not empty. -/
def Registry.FitsBuffer (registry : Registry) : Prop :=
  ∀ client chunk, (client, ReadResult.data chunk) ∈ registry.readyReads →
    1 ≤ chunk.length ∧ chunk.length ≤ 1024

/-- Completed reads carry chunks that fit the buffer, at the end of every event. -/
theorem Effect.fitsBuffer (heffect : Effect parse network state event after)
    (henabled : event.Enabled state) (hfits : state.FitsBuffer) : after.FitsBuffer := by
  cases heffect with
  | readCompletes client result =>
    intro reader chunk hmember
    rcases List.mem_append.mp hmember with hold | hnew
    · exact hfits reader chunk hold
    · obtain ⟨rfl, rfl⟩ : reader = client ∧ .data chunk = result := by
        simpa using List.mem_singleton.mp hnew
      exact henabled.2.2
  | depart client sent =>
    exact fun reader chunk hmember ↦ hfits reader chunk (List.mem_of_mem_erase hmember)
  | blank client chunk isBlank =>
    exact fun reader other hmember ↦ hfits reader other (List.mem_of_mem_erase hmember)
  | message client chunk message newUsername middle notBlank fields effect =>
    intro reader other hmember
    have hmiddle : (reader, ReadResult.data other) ∈ middle.readyReads := hmember
    rw [effect.sameSessions.registry] at hmiddle
    exact hfits reader other (List.mem_of_mem_erase hmiddle)
  | _ => exact hfits

/-- In a run from the start, the read handlers are given chunks that fit the buffer and are not
empty. -/
theorem Ends.chunksRead_length {maxClients : ℕ}
    (hends : Ends parse network (initial maxClients) events last) (client : SessionId) :
    ∀ chunk ∈ chunksRead client events, 1 ≤ chunk.length ∧ chunk.length ≤ 1024 := by
  have hfits : ∀ {earlier : List Event} {state : State},
      Run parse network (initial maxClients) earlier state → state.FitsBuffer := by
    intro earlier state hrun
    exact hrun.preserves (fun _ henabled heffect hbefore ↦ heffect.fitsBuffer henabled hbefore)
      rfl nofun
  have hevent : ∀ {earlier : List Event} {state : State} {event : Event},
      Run parse network (initial maxClients) earlier state → event.Enabled state →
        ∀ chunk ∈ event.chunkOf client, 1 ≤ chunk.length ∧ chunk.length ≤ 1024 := by
    intro earlier state event hrun henabled chunk hchunk
    unfold Event.chunkOf at hchunk
    split at hchunk
    · split_ifs at hchunk with hreader
      · rw [List.mem_singleton.mp hchunk]
        exact hfits hrun _ _ henabled
      · cases hchunk
    · cases hchunk
  refine Ends.preserves (fun events _ ↦ ∀ chunk ∈ chunksRead client events,
    1 ≤ chunk.length ∧ chunk.length ≤ 1024) rfl nofun ?_ ?_ hends
  · intro earlier before after event hrun henabled _ hbefore chunk hchunk
    rw [chunksRead, List.flatMap_append, List.flatMap_singleton] at hchunk
    exact (List.mem_append.mp hchunk).elim (hbefore chunk) (hevent hrun henabled chunk)
  · intro earlier before after event fault hrun henabled _ hbefore chunk hchunk
    rw [chunksRead, List.flatMap_append, List.flatMap_singleton] at hchunk
    exact (List.mem_append.mp hchunk).elim (hbefore chunk) (hevent hrun henabled chunk)

/-! ### Writes -/

/-- The writes of a broadcast are faithful. -/
theorem sendUntilFailure_faithful (network : Network) (isOpen : SessionId → Bool) (message : Bytes)
    (number : ℕ) (targets : List SessionId) :
    ∀ attempt ∈ sendUntilFailure network isOpen message number targets, attempt.Faithful := by
  induction targets generalizing number with
  | nil => exact nofun
  | cons client rest ih =>
    intro attempt hmember
    rcases List.mem_cons.mp hmember with rfl | hlater
    · exact attemptOf_faithful network number _ client message
    · split_ifs at hlater
      · exact ih (number + 1) attempt hlater
      · cases hlater

/-- All writes recorded in the state are faithful. -/
def State.Faithful (state : State) : Prop :=
  ∀ attempt ∈ state.attempts, attempt.Faithful

/-- More faithful writes keep the records faithful. -/
theorem State.Faithful.append {attempts : List Attempt} (hfaithful : state.Faithful)
    (hmore : ∀ attempt ∈ attempts, attempt.Faithful)
    (hattempts : after.attempts = state.attempts ++ attempts) : after.Faithful := by
  intro attempt hmember
  rw [hattempts] at hmember
  exact (List.mem_append.mp hmember).elim (hfaithful attempt) (hmore attempt)

theorem broadcastAttempts_faithful (network : Network) (state : State) (message : Bytes)
    (excludeSocket : Option SessionId) :
    ∀ attempt ∈ state.broadcastAttempts network message excludeSocket, attempt.Faithful :=
  sendUntilFailure_faithful network _ message _ _

theorem departureAttempts_faithful (network : Network) (state : State) (client : SessionId) :
    ∀ attempt ∈ state.departureAttempts network client, attempt.Faithful := by
  unfold State.departureAttempts
  split_ifs
  · exact nofun
  · exact broadcastAttempts_faithful network state _ _

theorem attempt_faithful (network : Network) (state : State) (client : SessionId)
    (message : Bytes) :
    ∀ attempt ∈ [state.attempt network client message], attempt.Faithful := by
  intro attempt hmember
  rw [List.mem_singleton.mp hmember]
  exact attemptOf_faithful network _ _ client message

theorem MessageEffect.faithful {message newUsername : Bytes} {client : SessionId}
    (heffect : MessageEffect network state message newUsername client after)
    (hfaithful : state.Faithful) : after.Faithful := by
  cases heffect with
  | direct receiver command found => exact hfaithful.append (attempt_faithful network _ _ _) rfl
  | register command unnamed sent =>
    exact hfaithful.append (broadcastAttempts_faithful network state _ _) rfl
  | chat command named sent =>
    exact hfaithful.append (broadcastAttempts_faithful network state _ _) rfl

theorem MessageHalt.faithful {message newUsername : Bytes} {client : SessionId} {fault : Fault}
    (hhalt : MessageHalt network state message newUsername client fault after)
    (hfaithful : state.Faithful) : after.Faithful := by
  cases hhalt with
  | notFound command none => exact hfaithful.append (attempt_faithful network state _ _) rfl
  | register command unnamed failed =>
    exact hfaithful.append (broadcastAttempts_faithful network state _ _) rfl
  | chat command named failed =>
    exact hfaithful.append (broadcastAttempts_faithful network state _ _) rfl

/-- An event that returned made faithful writes. -/
theorem Effect.faithful (heffect : Effect parse network state event after)
    (hfaithful : state.Faithful) : after.Faithful := by
  cases heffect with
  | depart client sent =>
    exact hfaithful.append (departureAttempts_faithful network state client) rfl
  | message client chunk message newUsername middle notBlank fields effect =>
    exact effect.faithful hfaithful
  | broadcast message excludeSocket sent =>
    exact hfaithful.append (broadcastAttempts_faithful network state _ _) rfl
  | acceptError => exact hfaithful
  | _ => exact hfaithful

/-- An event that stopped made faithful writes. -/
theorem Halt.faithful {fault : Fault} (hhalt : Halt parse network state event fault after)
    (hfaithful : state.Faithful) : after.Faithful := by
  cases hhalt with
  | depart client failed =>
    exact hfaithful.append (departureAttempts_faithful network state client) rfl
  | message client chunk message newUsername fault middle notBlank fields halt =>
    exact halt.faithful hfaithful
  | broadcast message excludeSocket failed =>
    exact hfaithful.append (broadcastAttempts_faithful network state _ _) rfl
  | _ => exact hfaithful

/-- The writes of a run are faithful. -/
theorem Ends.faithful (hends : Ends parse network first events last) (hfree : first.held = 0)
    (hfirst : first.Faithful) : last.Faithful :=
  Ends.preserves (fun _ state ↦ state.Faithful) hfree hfirst
    (fun _ _ heffect hbefore ↦ heffect.faithful hbefore)
    (fun _ _ hhalt hbefore ↦ hhalt.faithful hbefore) hends

/-- The lines the server has written, or tried to write, to a session. -/
def State.linesTo (state : State) (client : SessionId) : List Bytes :=
  (state.attempts.filter fun attempt ↦ attempt.client = client).map Attempt.message

/-- All writes to the session returned. -/
def State.WritesReturned (state : State) (client : SessionId) : Prop :=
  ∀ attempt ∈ state.attempts, attempt.client = client → attempt.ok = true

/-- A session to which all writes returned has been sent its lines, one after the other. -/
theorem outgoing_eq_flatten (hfaithful : state.Faithful) {client : SessionId}
    (hreturned : state.WritesReturned client) :
    state.outgoing client = (state.linesTo client).flatten := by
  unfold State.outgoing State.linesTo
  rw [List.flatMap_def]
  congr 1
  refine List.map_congr_left fun attempt hmember ↦ ?_
  obtain ⟨hattempt, hclient⟩ := List.mem_filter.mp hmember
  exact (hfaithful attempt hattempt).whole (hreturned attempt hattempt (by simpa using hclient))

end Runs

end KoboldKhat.Server
