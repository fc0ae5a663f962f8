import KoboldKhat.Server.Execution

/-!
# What one event can do

The outcome of every event in the setting of the source, said once. `Effect` lists the states in
which an event can return, and `Halt` the ways in which it can stop; `step_effect_or_halt` says
that in a state whose mutex is free nothing else happens. The invariants of the runs are derived
from these lists and not from the programs.

A read handler that was given a message returns in one of the ways of `MessageEffect`: it sent a
direct message, stored and announced a name, or relayed the message.
-/

set_option autoImplicit false
set_option relaxedAutoImplicit false

namespace KoboldKhat.Server

open Library

/-- The state after a read is started on a session. -/
def State.startRead (state : State) (client : SessionId) : State :=
  { state with waitingReads := state.waitingReads ++ [client] }

/-- The state after an accept is started. -/
def State.startAccept (state : State) : State :=
  { state with waitingAccepts := state.waitingAccepts + 1 }

/-- The state after a session's socket is closed. -/
def State.closeSocket (state : State) (client : SessionId) : State :=
  { state with isOpen := Function.update state.isOpen client false }

/-- The state after `shutdown`. -/
def State.shutDown (state : State) : State :=
  { state with
    running := false
    isOpen := fun client ↦ state.isOpen client && client ∉ state.clients
    clients := []
    acceptorOpen := false }

/-- The writes `removeClient` makes: the departure of a session without a name is not announced. -/
def State.departureAttempts (network : Network) (state : State) (client : SessionId) :
    List Attempt :=
  if state.username client = [] then []
  else state.broadcastAttempts network (disconnectedLine (state.username client)) (some client)

/-- The ways in which `handleMessage` can return, after its call is recorded and its fields are
read. -/
inductive MessageEffect (network : Network) (state : State) (message newUsername : Bytes)
    (client : SessionId) : State → Prop
  /-- A direct message was written to the first session with the recipient's name. -/
  | direct (receiver : SessionId) (command : dmCommand.isPrefixOf message = true)
      (found : state.firstNamed (parseDirectMessage message).1 = some receiver) :
      MessageEffect network state message newUsername client
        (state.record [state.attempt network receiver
          (directLine (state.username client) (parseDirectMessage message).2)])
  /-- A name was stored for the session and announced to all sessions. -/
  | register (command : dmCommand.isPrefixOf message = false)
      (unnamed : state.username client = [])
      (sent : (state.broadcastAttempts network (joinedLine newUsername) none).all Attempt.ok =
        true) :
      MessageEffect network state message newUsername client
        ((state.rename client newUsername).record
          (state.broadcastAttempts network (joinedLine newUsername) none))
  /-- The message was relayed under the stored name to the other sessions. -/
  | chat (command : dmCommand.isPrefixOf message = false) (named : state.username client ≠ [])
      (sent : (state.broadcastAttempts network (chatLine (state.username client) message)
        (some client)).all Attempt.ok = true) :
      MessageEffect network state message newUsername client
        (state.record (state.broadcastAttempts network
          (chatLine (state.username client) message) (some client)))

/-- The ways in which an event can return. -/
inductive Effect (parse : Bytes → Option Json) (network : Network) (state : State) :
    Event → State → Prop
  | start : Effect parse network state .start ({ state with running := true }.startAccept)
  | acceptCompletes (result : AcceptResult) :
      Effect parse network state (.acceptCompletes result)
        ((Event.acceptCompletes result).prepare state)
  | readCompletes (client : SessionId) (result : ReadResult) :
      Effect parse network state (.readCompletes client result)
        ((Event.readCompletes client result).prepare state)
  /-- The accept handler was given an error. -/
  | acceptError :
      Effect parse network state (.runAccept .error) ((Event.runAccept .error).prepare state)
  /-- The accept handler rejected the connection at capacity. -/
  | reject (full : state.maxClients ≤ state.clients.length) :
      Effect parse network state (.runAccept .success)
        (((Event.runAccept .success).prepare state).closeSocket state.accepted).startAccept
  /-- The accept handler published a new session. -/
  | publish (room : state.clients.length < state.maxClients)
      (known : network.peerKnown state.accepted = true) :
      Effect parse network state (.runAccept .success)
        ((((Event.runAccept .success).prepare state).publish state.accepted).startRead
          state.accepted).startAccept
  /-- The read handler was given an error and removed the session. -/
  | depart (client : SessionId)
      (sent : (state.departureAttempts network client).all Attempt.ok = true) :
      Effect parse network state (.runRead client .error)
        ((((Event.runRead client .error).prepare state).record
          (state.departureAttempts network client)).discard client)
  /-- The read handler was given a blank chunk. -/
  | blank (client : SessionId) (chunk : Bytes) (isBlank : IsBlankChunk chunk) :
      Effect parse network state (.runRead client (.data chunk))
        (((Event.runRead client (.data chunk)).prepare state).startRead client)
  /-- The read handler was given a message, which was handled. -/
  | message (client : SessionId) (chunk message newUsername : Bytes) (after : State)
      (notBlank : ¬ IsBlankChunk chunk)
      (fields : messageFields (parsedMessage parse chunk) = .ok (message, newUsername))
      (effect : MessageEffect network
        (((Event.runRead client (.data chunk)).prepare state).noteCall client
          (parsedMessage parse chunk)) message newUsername client after) :
      Effect parse network state (.runRead client (.data chunk)) (after.startRead client)
  | broadcast (message : Bytes) (excludeSocket : Option SessionId)
      (sent : (state.broadcastAttempts network message excludeSocket).all Attempt.ok = true) :
      Effect parse network state (.broadcast message excludeSocket)
        (state.record (state.broadcastAttempts network message excludeSocket))
  | shutdown : Effect parse network state .shutdown state.shutDown

/-- The ways in which `handleMessage` can stop after its call is recorded and its fields are
read. -/
inductive MessageHalt (network : Network) (state : State) (message newUsername : Bytes)
    (client : SessionId) : Fault → State → Prop
  /-- Nobody has the recipient's name, and the log reads through the end iterator. -/
  | notFound (command : dmCommand.isPrefixOf message = true)
      (none : state.firstNamed (parseDirectMessage message).1 = none) :
      MessageHalt network state message newUsername client .invalidAccess
        ((state.record [state.attempt network client
          (notFoundLine (parseDirectMessage message).1)]).holding 1)
  /-- A write of the announcement failed. -/
  | register (command : dmCommand.isPrefixOf message = false)
      (unnamed : state.username client = [])
      (failed : (state.broadcastAttempts network (joinedLine newUsername) none).all Attempt.ok =
        false) :
      MessageHalt network state message newUsername client .relocked
        (((state.rename client newUsername).record
          (state.broadcastAttempts network (joinedLine newUsername) none)).holding 1)
  /-- A write of the relayed message failed. -/
  | chat (command : dmCommand.isPrefixOf message = false) (named : state.username client ≠ [])
      (failed : (state.broadcastAttempts network (chatLine (state.username client) message)
        (some client)).all Attempt.ok = false) :
      MessageHalt network state message newUsername client .relocked
        ((state.record (state.broadcastAttempts network
          (chatLine (state.username client) message) (some client))).holding 1)

/-- The ways in which an event can stop. -/
inductive Halt (parse : Bytes → Option Json) (network : Network) (state : State) :
    Event → Fault → State → Prop
  /-- The peer of a new session was gone when the accept handler asked for its address. -/
  | peerGone (room : state.clients.length < state.maxClients)
      (unknown : network.peerKnown state.accepted = false) :
      Halt parse network state (.runAccept .success) .exception
        (((Event.runAccept .success).prepare state).publish state.accepted)
  /-- A write of the announcement of a departure failed. -/
  | depart (client : SessionId)
      (failed : (state.departureAttempts network client).all Attempt.ok = false) :
      Halt parse network state (.runRead client .error) .relocked
        ((((Event.runRead client .error).prepare state).record
          (state.departureAttempts network client)).holding 1)
  /-- The fields of the message could not be read. -/
  | fields (client : SessionId) (chunk : Bytes) (fault : Fault) (notBlank : ¬ IsBlankChunk chunk)
      (fields : messageFields (parsedMessage parse chunk) = .error fault) :
      Halt parse network state (.runRead client (.data chunk)) fault
        (((Event.runRead client (.data chunk)).prepare state).noteCall client
          (parsedMessage parse chunk))
  /-- The handling of the message stopped. -/
  | message (client : SessionId) (chunk message newUsername : Bytes) (fault : Fault)
      (after : State) (notBlank : ¬ IsBlankChunk chunk)
      (fields : messageFields (parsedMessage parse chunk) = .ok (message, newUsername))
      (halt : MessageHalt network
        (((Event.runRead client (.data chunk)).prepare state).noteCall client
          (parsedMessage parse chunk)) message newUsername client fault after) :
      Halt parse network state (.runRead client (.data chunk)) fault after
  | broadcast (message : Bytes) (excludeSocket : Option SessionId)
      (failed : (state.broadcastAttempts network message excludeSocket).all Attempt.ok = false) :
      Halt parse network state (.broadcast message excludeSocket) .relocked
        ((state.record (state.broadcastAttempts network message excludeSocket)).holding 1)

section Classification

variable (parse : Bytes → Option Json) (network : Network) (state : State)

/-- The end of a run of `handleMessage` past its fields, by the lists of its effects and halts. -/
theorem handleMessage_classified (depth : ℕ) (hfree : state.held = 0) {jsonMessage : Json}
    {message newUsername : Bytes}
    (hfields : messageFields jsonMessage = .ok (message, newUsername)) (client : SessionId) :
    ((semantics (standard network)).exec (depth + 3) (handleMessage jsonMessage client)
      state).Satisfies
        (fun _ after ↦ MessageEffect network (state.noteCall client jsonMessage) message
          newUsername client after)
        (fun fault after ↦ MessageHalt network (state.noteCall client jsonMessage) message
          newUsername client fault after) := by
  rw [exec_handleMessage_of_ok _ _ _ hfields]
  generalize hnoted : state.noteCall client jsonMessage = noted
  have hfreeNoted : noted.held = 0 := by rw [← hnoted]; exact hfree
  by_cases hcommand : dmCommand.isPrefixOf message = true
  · rw [if_pos hcommand]
    cases hfound : noted.firstNamed (parseDirectMessage message).1 with
    | none =>
      rw [exec_handleDirectMessage_of_notFound _ _ _ (Or.inr hfreeNoted) rfl _ _ hfound, hfreeNoted]
      exact MessageHalt.notFound hcommand hfound
    | some receiver =>
      rw [exec_handleDirectMessage_of_found _ _ _ (Or.inr hfreeNoted) _ _ _ hfound]
      exact MessageEffect.direct receiver hcommand hfound
  · rw [if_neg hcommand]
    rw [Bool.not_eq_true] at hcommand
    by_cases hnamed : noted.username client = []
    · rw [exec_handleChatMessage_of_unnamed _ _ _ _ _ _ hnamed,
        exec_callBroadcastMessage network depth (noted.rename client newUsername) hfreeNoted]
      split_ifs with hall
      · exact MessageEffect.register hcommand hnamed hall
      · exact MessageHalt.register hcommand hnamed (Bool.eq_false_iff.mpr hall)
    · rw [exec_handleChatMessage_of_named _ _ _ _ _ _ hnamed,
        exec_callBroadcastMessage network depth noted hfreeNoted]
      split_ifs with hall
      · exact MessageEffect.chat hcommand hnamed hall
      · exact MessageHalt.chat hcommand hnamed (by simpa using hall)

/-- The end of a run of the read handler on data. -/
theorem step_runRead_data_classified (hfree : state.held = 0) (client : SessionId)
    (chunk : Bytes) :
    (step parse network (.runRead client (.data chunk)) state).Satisfies
      (fun _ after ↦ Effect parse network state (.runRead client (.data chunk)) after)
      (fun fault after ↦ Halt parse network state (.runRead client (.data chunk)) fault after) := by
  rw [step, stepAt, Event.program]
  generalize hprepared : (Event.runRead client (.data chunk)).prepare state = prepared
  have hfreePrepared : prepared.held = 0 := by rw [← hprepared]; exact hfree
  by_cases hblank : IsBlankChunk chunk
  · rw [exec_readHandler_of_blank _ _ _ _ _ hblank, ← hprepared]
    exact Effect.blank client chunk hblank
  · rw [exec_readHandler_of_not_blank _ _ _ _ _ hblank]
    cases hfields : messageFields (parsedMessage parse chunk) with
    | error fault =>
      rw [exec_handleMessage_of_error _ _ _ hfields, Outcome.bind_stopped, ← hprepared]
      exact Halt.fields client chunk fault hblank hfields
    | ok fields =>
      obtain ⟨message, newUsername⟩ := fields
      have hmessage := handleMessage_classified network prepared 1 hfreePrepared hfields client
      cases houtcome : (semantics (standard network)).exec 4
          (handleMessage (parsedMessage parse chunk) client) prepared with
      | returned value after =>
        rw [houtcome] at hmessage
        subst hprepared
        exact Effect.message client chunk message newUsername after hblank hfields hmessage
      | stopped fault after =>
        rw [houtcome] at hmessage
        subst hprepared
        exact Halt.message client chunk message newUsername fault after hblank hfields hmessage

/-- The removal of a session, by a thread that does not hold the mutex. -/
theorem exec_callRemoveClient (depth : ℕ) (hfree : state.held = 0) (client : SessionId) :
    (semantics (standard network)).exec (depth + 4) (callRemoveClient client) state =
      if (state.departureAttempts network client).all Attempt.ok then
        .returned () ((state.record (state.departureAttempts network client)).discard client)
      else .stopped .relocked
        ((state.record (state.departureAttempts network client)).holding 1) := by
  by_cases hunnamed : state.username client = []
  · rw [exec_callRemoveClient_of_unnamed (depth + 3) _ state (Or.inr hfree) client hunnamed,
      State.departureAttempts, if_pos hunnamed, record_nil]
    rfl
  · rw [exec_callRemoveClient_of_named network depth state hfree client hunnamed,
      State.departureAttempts, if_neg hunnamed]

/-- The end of a run of the read handler on an error. -/
theorem step_runRead_error_classified (hfree : state.held = 0) (client : SessionId) :
    (step parse network (.runRead client .error) state).Satisfies
      (fun _ after ↦ Effect parse network state (.runRead client .error) after)
      (fun fault after ↦ Halt parse network state (.runRead client .error) fault after) := by
  have hexec : step parse network (.runRead client .error) state = _ :=
    exec_callRemoveClient network ((Event.runRead client .error).prepare state) 0 hfree client
  rw [hexec]
  split_ifs with hall
  · exact Effect.depart client hall
  · exact Halt.depart client (Bool.not_eq_true _ ▸ hall)

/-- The end of a run of the accept handler on a new connection. -/
theorem step_runAccept_success_classified (hfree : state.held = 0) :
    (step parse network (.runAccept .success) state).Satisfies
      (fun _ after ↦ Effect parse network state (.runAccept .success) after)
      (fun fault after ↦ Halt parse network state (.runAccept .success) fault after) := by
  have hfreePrepared : ((Event.runAccept .success).prepare state).held = 0 := hfree
  by_cases hfull : state.maxClients ≤ state.clients.length
  · rw [step, stepAt, Event.program,
      exec_acceptHandler_of_full 4 _ (standard network) state.accepted hfreePrepared hfull]
    exact Effect.reject hfull
  · have hroom : state.clients.length < state.maxClients := Nat.lt_of_not_le hfull
    rw [step, stepAt, Event.program,
      exec_acceptHandler_of_room 4 _ (standard network) state.accepted hfreePrepared hroom]
    split_ifs with hknown
    · exact Effect.publish hroom hknown
    · exact Halt.peerGone hroom (by simpa using hknown)

/-- In a state whose mutex is free, an event returns in one of the ways of `Effect` or stops in one
of the ways of `Halt`. -/
theorem step_effect_or_halt (hfree : state.held = 0) (event : Event) :
    (step parse network event state).Satisfies
      (fun _ after ↦ Effect parse network state event after)
      (fun fault after ↦ Halt parse network state event fault after) := by
  cases event with
  | start => exact Effect.start
  | acceptCompletes result => exact Effect.acceptCompletes result
  | readCompletes client result => exact Effect.readCompletes client result
  | runAccept result =>
    cases result with
    | error => exact Effect.acceptError
    | success => exact step_runAccept_success_classified parse network state hfree
  | runRead client result =>
    cases result with
    | error => exact step_runRead_error_classified parse network state hfree client
    | data chunk => exact step_runRead_data_classified parse network state hfree client chunk
  | broadcast message excludeSocket =>
    have hexec : step parse network (.broadcast message excludeSocket) state = _ :=
      exec_callBroadcastMessage network 1 state hfree message excludeSocket
    rw [hexec]
    split_ifs with hall
    · exact Effect.broadcast message excludeSocket hall
    · exact Halt.broadcast message excludeSocket (by simpa using hall)
  | shutdown =>
    have hexec : step parse network .shutdown state = _ :=
      exec_shutdown 4 state (standard network) hfree
    rw [hexec]
    exact Effect.shutdown

variable {parse network state} {event : Event}

/-- An event that returned did so in one of the ways of `Effect`. -/
theorem effect_of_returned {after : State} (hfree : state.held = 0)
    (hreturned : step parse network event state = .returned () after) :
    Effect parse network state event after := by
  have hclassified := step_effect_or_halt parse network state hfree event
  rw [hreturned] at hclassified
  exact hclassified

/-- An event that stopped did so in one of the ways of `Halt`. -/
theorem halt_of_stopped {fault : Fault} {after : State} (hfree : state.held = 0)
    (hstopped : step parse network event state = .stopped fault after) :
    Halt parse network state event fault after := by
  have hclassified := step_effect_or_halt parse network state hfree event
  rw [hstopped] at hclassified
  exact hclassified

/-- No halt is due to the bound on nested calls. -/
theorem Halt.ne_exhausted {fault : Fault} {after : State}
    (hhalt : Halt parse network state event fault after) : fault ≠ .exhausted := by
  cases hhalt with
  | fields client chunk fault notBlank fields =>
    obtain rfl | rfl := messageFields_error fields <;> simp
  | message client chunk message newUsername fault after notBlank fields halt =>
    cases halt <;> simp
  | _ => simp

/-- The bound on nested calls does not matter: every larger one gives the same step. -/
theorem stepAt_eq_step (hfree : state.held = 0) {depth : ℕ} (hdepth : 4 ≤ depth) :
    stepAt (standard network) depth parse event state = step parse network event state := by
  have hrefines := @Semantics.exec_refines _ _ _ (semantics (standard network)) 4
    (event.prepare state) _ hdepth (event.program parse state.toRegistry)
  obtain hsame | ⟨after, hexhausted⟩ := hrefines
  · exact hsame.symm
  · exact absurd rfl (halt_of_stopped hfree hexhausted).ne_exhausted

end Classification

end KoboldKhat.Server
