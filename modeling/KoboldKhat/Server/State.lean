import KoboldKhat.Library.Execution
import KoboldKhat.Server.Program
import Mathlib.Logic.Function.Basic

/-!
# The state of the server and its runs by one thread

`Registry` is the data the operations of the server work on, and `registryStep` what each of them
does. Outstanding asynchronous operations are bags: an accept or a read is waiting until the
reactor completes it, then ready until `io_context::run` runs its handler. A completion can carry
success only while the acceptor or the socket is open, but a ready completion keeps what it carries
when they are closed before its handler runs.

`State` adds what one thread needs: how often it holds `m_clientsMutex`, and the records of the
writes attempted and of the calls of `handleMessage`. What a write does is decided by a `Network`,
per attempt and session, so every pattern of failures is some network; a write to a closed socket
fails with nothing sent. A write of nothing does not reach the socket and returns. The mutex is the
`std::mutex` of the source or, where a statement says so, re-entrant.

`Event` lists what can happen between two handlers, `step` is the run of one event to its end, and
`Run` chains the steps that return, as `io_context::run` does. A step that stops ends the run.
-/

set_option autoImplicit false
set_option relaxedAutoImplicit false

namespace KoboldKhat.Server

open Library

/-! ### The registry -/

/-- The data of the server and of the asynchronous operations it has started. -/
structure Registry where
  /-- `m_maxClients`. -/
  maxClients : ℕ
  /-- `m_running`. -/
  running : Bool := false
  /-- `m_clients`. -/
  clients : List SessionId := []
  /-- The user name stored in each session. -/
  username : SessionId → Bytes := fun _ ↦ []
  /-- The socket of each session is open. -/
  isOpen : SessionId → Bool := fun _ ↦ false
  /-- The acceptor is open. -/
  acceptorOpen : Bool := true
  /-- The number of connections handed to an accept handler so far. -/
  accepted : ℕ := 0
  /-- The number of accepts the reactor has not completed. -/
  waitingAccepts : ℕ := 0
  /-- The completed accepts whose handlers have not run. -/
  readyAccepts : List AcceptResult := []
  /-- The sessions of the reads the reactor has not completed, one entry a read. -/
  waitingReads : List SessionId := []
  /-- The completed reads whose handlers have not run. -/
  readyReads : List (SessionId × ReadResult) := []

/-- The number of accepts started whose handlers have not run. -/
def Registry.outstandingAccepts (registry : Registry) : ℕ :=
  registry.waitingAccepts + registry.readyAccepts.length

/-- The number of reads started on a session whose handlers have not run. -/
def Registry.outstandingReads (registry : Registry) (client : SessionId) : ℕ :=
  registry.waitingReads.count client + (registry.readyReads.map Prod.fst).count client

/-- The effect of an operation on the registry. A read past the end of `m_clients` is undefined,
unless it is taken to give some session. -/
def registryStep (pastEnd : Option SessionId) : (operation : RegistryOperation) → Registry →
    Outcome Fault Registry operation.Reply
  | .clients, state => .returned state.clients state
  | .dereference slot, state =>
    match state.clients[slot]?.or pastEnd with
    | some client => .returned client state
    | none => .stopped .invalidAccess state
  | .pushBack client, state => .returned () { state with clients := state.clients ++ [client] }
  | .erase slot, state => .returned () { state with clients := state.clients.eraseIdx slot }
  | .clear, state => .returned () { state with clients := [] }
  | .maxClients, state => .returned state.maxClients state
  | .username client, state => .returned (state.username client) state
  | .setUsername client username, state =>
    .returned () { state with username := Function.update state.username client username }
  | .isOpen client, state => .returned (state.isOpen client) state
  | .close client, state =>
    .returned () { state with isOpen := Function.update state.isOpen client false }
  | .asyncReadSome client, state =>
    .returned () { state with waitingReads := state.waitingReads ++ [client] }
  | .asyncAccept, state => .returned () { state with waitingAccepts := state.waitingAccepts + 1 }
  | .closeAcceptor, state => .returned () { state with acceptorOpen := false }
  | .setRunning value, state => .returned () { state with running := value }

/-! ### The state of one thread -/

/-- One call of `asio::write`: what was to be written, what was, and whether the call returned. -/
structure Attempt where
  /-- The session written to. -/
  client : SessionId
  /-- The line to be written. -/
  message : Bytes
  /-- The bytes of it that were sent. -/
  sent : Bytes
  /-- The call returned, rather than threw. -/
  ok : Bool
  deriving DecidableEq

/-- The state of the server when one thread runs it. -/
structure State extends Registry where
  /-- How often the thread holds `m_clientsMutex`. -/
  held : ℕ := 0
  /-- The writes attempted so far. -/
  attempts : List Attempt := []
  /-- The calls of `handleMessage` so far. -/
  handled : List (SessionId × Json) := []

/-- The state with more writes recorded. -/
def State.record (state : State) (attempts : List Attempt) : State :=
  { state with attempts := state.attempts ++ attempts }

/-- The state in which the thread holds the mutex a number of times. -/
def State.holding (state : State) (held : ℕ) : State :=
  { state with held := held }

/-- The state after a session's socket is closed and the session is erased from `m_clients`. -/
def State.discard (state : State) (client : SessionId) : State :=
  { state with
    isOpen := Function.update state.isOpen client false
    clients := state.clients.erase client }

/-- The state after the user name of a session is assigned. -/
def State.rename (state : State) (client : SessionId) (username : Bytes) : State :=
  { state with username := Function.update state.username client username }

/-- The state after a call of `handleMessage` is recorded. -/
def State.noteCall (state : State) (client : SessionId) (jsonMessage : Json) : State :=
  { state with handled := state.handled ++ [(client, jsonMessage)] }

/-- The first session in `m_clients` with a user name. -/
def Registry.firstNamed (registry : Registry) (username : Bytes) : Option SessionId :=
  registry.clients.find? fun client ↦ decide (registry.username client = username)

section Fields

variable (state : State) (attempts : List Attempt) (held : ℕ) (client : SessionId)

@[simp] theorem record_toRegistry : (state.record attempts).toRegistry = state.toRegistry := rfl

@[simp] theorem record_held : (state.record attempts).held = state.held := rfl

@[simp] theorem record_attempts : (state.record attempts).attempts = state.attempts ++ attempts :=
  rfl

@[simp] theorem record_handled : (state.record attempts).handled = state.handled := rfl

@[simp] theorem holding_toRegistry : (state.holding held).toRegistry = state.toRegistry := rfl

@[simp] theorem holding_held : (state.holding held).held = held := rfl

@[simp] theorem holding_attempts : (state.holding held).attempts = state.attempts := rfl

@[simp] theorem holding_handled : (state.holding held).handled = state.handled := rfl

@[simp] theorem discard_clients : (state.discard client).clients = state.clients.erase client := rfl

@[simp] theorem discard_isOpen :
    (state.discard client).isOpen = Function.update state.isOpen client false := rfl

@[simp] theorem discard_username : (state.discard client).username = state.username := rfl

@[simp] theorem discard_held : (state.discard client).held = state.held := rfl

@[simp] theorem discard_attempts : (state.discard client).attempts = state.attempts := rfl

@[simp] theorem discard_handled : (state.discard client).handled = state.handled := rfl

@[simp] theorem rename_clients (username : Bytes) :
    (state.rename client username).clients = state.clients := rfl

@[simp] theorem rename_isOpen (username : Bytes) :
    (state.rename client username).isOpen = state.isOpen := rfl

@[simp] theorem rename_username (username : Bytes) :
    (state.rename client username).username = Function.update state.username client username :=
  rfl

@[simp] theorem rename_held (username : Bytes) :
    (state.rename client username).held = state.held := rfl

@[simp] theorem rename_attempts (username : Bytes) :
    (state.rename client username).attempts = state.attempts := rfl

@[simp] theorem rename_handled (username : Bytes) :
    (state.rename client username).handled = state.handled := rfl

@[simp] theorem noteCall_toRegistry (jsonMessage : Json) :
    (state.noteCall client jsonMessage).toRegistry = state.toRegistry := rfl

@[simp] theorem noteCall_held (jsonMessage : Json) :
    (state.noteCall client jsonMessage).held = state.held := rfl

@[simp] theorem noteCall_attempts (jsonMessage : Json) :
    (state.noteCall client jsonMessage).attempts = state.attempts := rfl

@[simp] theorem noteCall_handled (jsonMessage : Json) :
    (state.noteCall client jsonMessage).handled = state.handled ++ [(client, jsonMessage)] := rfl

end Fields

@[simp] theorem record_nil (state : State) : state.record [] = state := by
  simp [State.record]

@[simp] theorem record_record (state : State) (first second : List Attempt) :
    (state.record first).record second = state.record (first ++ second) := by
  simp [State.record]

@[simp] theorem holding_holding (state : State) (first second : ℕ) :
    (state.holding first).holding second = state.holding second :=
  rfl

@[simp] theorem record_holding (state : State) (held : ℕ) (attempts : List Attempt) :
    (state.holding held).record attempts = (state.record attempts).holding held :=
  rfl

@[simp] theorem discard_holding (state : State) (held : ℕ) (client : SessionId) :
    (state.holding held).discard client = (state.discard client).holding held :=
  rfl

/-- A state that is not held is the state held zero times. -/
theorem holding_eq_self (state : State) {held : ℕ} (hheld : state.held = held) :
    state.holding held = state := by
  rw [← hheld]
  rfl

/-- The bytes written to the socket of a session so far. -/
def State.outgoing (state : State) (client : SessionId) : Bytes :=
  (state.attempts.filter fun attempt ↦ attempt.client = client).flatMap Attempt.sent

/-- The server before `start`. -/
def initial (maxClients : ℕ) : State :=
  { maxClients := maxClients }

/-- The answers of the network: to each write, by its number and its session, and to
`remote_endpoint`. -/
structure Network where
  /-- The answer to the write with a number to an open socket. -/
  write : ℕ → SessionId → WriteAnswer
  /-- `remote_endpoint` returns for the session, rather than throws. -/
  peerKnown : SessionId → Bool

/-- The write with a number of a message to a session. The loop of `asio::write` ends at once when
there is nothing to write, and a write of something to a closed socket sends nothing. -/
def attemptOf (network : Network) (number : ℕ) (isOpen : Bool) (client : SessionId)
    (message : Bytes) : Attempt :=
  if message = [] then ⟨client, message, [], true⟩
  else if isOpen then
    let answer := network.write number client
    ⟨client, message, answer.sent message, answer.returns⟩
  else ⟨client, message, [], false⟩

@[simp] theorem attemptOf_client (network : Network) (number : ℕ) (isOpen : Bool)
    (client : SessionId) (message : Bytes) :
    (attemptOf network number isOpen client message).client = client := by
  unfold attemptOf
  split_ifs <;> rfl

@[simp] theorem attemptOf_message (network : Network) (number : ℕ) (isOpen : Bool)
    (client : SessionId) (message : Bytes) :
    (attemptOf network number isOpen client message).message = message := by
  unfold attemptOf
  split_ifs <;> rfl

/-- The attempt sent the beginning of its line, and the whole of it if it returned. It returned if
there was nothing to write. -/
structure Attempt.Faithful (attempt : Attempt) : Prop where
  beginning : attempt.sent <+: attempt.message
  whole : attempt.ok = true → attempt.sent = attempt.message
  nothing : attempt.message = [] → attempt.ok = true

/-- A write of nothing returns. -/
theorem attemptOf_nil (network : Network) (number : ℕ) (isOpen : Bool) (client : SessionId) :
    attemptOf network number isOpen client [] = ⟨client, [], [], true⟩ :=
  rfl

/-- A write of something to an open socket does what the network answers. -/
theorem attemptOf_open (network : Network) (number : ℕ) (client : SessionId) {message : Bytes}
    (hmessage : message ≠ []) :
    attemptOf network number true client message =
      ⟨client, message, (network.write number client).sent message,
        (network.write number client).returns⟩ :=
  if_neg hmessage

/-- A write of something to a closed socket sends nothing and fails. -/
theorem attemptOf_closed (network : Network) (number : ℕ) (client : SessionId) {message : Bytes}
    (hmessage : message ≠ []) :
    attemptOf network number false client message = ⟨client, message, [], false⟩ :=
  if_neg hmessage

/-- Every attempt is faithful. -/
theorem attemptOf_faithful (network : Network) (number : ℕ) (isOpen : Bool) (client : SessionId)
    (message : Bytes) : (attemptOf network number isOpen client message).Faithful := by
  by_cases hmessage : message = []
  · rw [hmessage, attemptOf_nil]
    exact ⟨List.nil_prefix, fun _ ↦ rfl, fun _ ↦ rfl⟩
  cases isOpen with
  | false =>
    rw [attemptOf_closed network number client hmessage]
    exact ⟨List.nil_prefix, nofun, fun hnothing ↦ absurd hnothing hmessage⟩
  | true =>
    rw [attemptOf_open network number client hmessage]
    exact ⟨WriteAnswer.sent_isPrefix message _, fun hok ↦ WriteAnswer.sent_of_returns hok message,
      fun hnothing ↦ absurd hnothing hmessage⟩

/-- No write to a closed socket sends anything. -/
@[simp] theorem attemptOf_sent_closed (network : Network) (number : ℕ) (client : SessionId)
    (message : Bytes) : (attemptOf network number false client message).sent = [] := by
  by_cases hmessage : message = []
  · rw [hmessage, attemptOf_nil]
  · rw [attemptOf_closed network number client hmessage]

/-- An attempt that sends something has an open socket. -/
theorem isOpen_of_attemptOf_sent {network : Network} {number : ℕ} {isOpen : Bool}
    {client : SessionId} {message : Bytes}
    (hsent : (attemptOf network number isOpen client message).sent ≠ []) : isOpen = true := by
  by_contra hclosed
  rw [Bool.not_eq_true] at hclosed
  rw [hclosed, attemptOf_sent_closed] at hsent
  exact hsent rfl

/-- What locking does when the thread holds the mutex already. -/
inductive Mutex
  /-- `std::mutex`: the thread blocks on itself. -/
  | standard
  /-- The mutex is taken once more. -/
  | reentrant
  deriving DecidableEq

/-- The choices that fix what the operations of one thread do. -/
structure Setting where
  /-- The kind of `m_clientsMutex`. -/
  mutex : Mutex
  /-- How a loop over `m_clients` continues after an erasure. -/
  walk : Walk
  /-- The answers of the network. -/
  network : Network
  /-- The session that a read past the end of `m_clients` gives, where such a read is taken to be
  safe. -/
  pastEnd : Option SessionId := none

/-- The effect of an operation when one thread runs the server. -/
def perform (setting : Setting) : (operation : Operation) → State →
    Outcome Fault State operation.Reply
  | .lock, state =>
    if setting.mutex = .standard ∧ state.held ≠ 0 then .stopped .relocked state
    else .returned () { state with held := state.held + 1 }
  | .unlock, state => .returned () { state with held := state.held - 1 }
  | .write client message, state =>
    let attempt := attemptOf setting.network state.attempts.length (state.isOpen client) client
      message
    .returned attempt.ok { state with attempts := state.attempts ++ [attempt] }
  | .remoteEndpoint client, state => .returned (setting.network.peerKnown client) state
  | .enterHandleMessage jsonMessage client, state =>
    .returned () (state.noteCall client jsonMessage)
  | .registry operation, state =>
    match registryStep setting.pastEnd operation state.toRegistry with
    | .returned reply registry => .returned reply { state with toRegistry := registry }
    | .stopped reason registry => .stopped reason { state with toRegistry := registry }

/-- The semantics of the server's programs for one thread. -/
def semantics (setting : Setting) : Semantics signature State where
  perform := perform setting
  body := procedureBody setting.walk
  exhausted := Fault.exhausted

/-! ### Runs -/

/-- What can happen between two handlers: a call from outside, the completion of an asynchronous
operation by the reactor, or the run of the handler of a completed one. -/
inductive Event
  | start
  | acceptCompletes (result : AcceptResult)
  | readCompletes (client : SessionId) (result : ReadResult)
  | runAccept (result : AcceptResult)
  | runRead (client : SessionId) (result : ReadResult)
  | broadcast (message : Bytes) (excludeSocket : Option SessionId)
  | shutdown

/-- A read can complete with an error at any time, and with data only from an open socket and into
a buffer of 1024 bytes. -/
def Registry.CanDeliver (registry : Registry) (client : SessionId) : ReadResult → Prop
  | .error => True
  | .data chunk => registry.isOpen client = true ∧ 1 ≤ chunk.length ∧ chunk.length ≤ 1024

/-- The event can happen. -/
def Registry.Enables (registry : Registry) : Event → Prop
  | .acceptCompletes result =>
    0 < registry.waitingAccepts ∧ (result = .success → registry.acceptorOpen = true)
  | .readCompletes client result =>
    client ∈ registry.waitingReads ∧ registry.CanDeliver client result
  | .runAccept result => result ∈ registry.readyAccepts
  | .runRead client result => (client, result) ∈ registry.readyReads
  | _ => True

instance (registry : Registry) (client : SessionId) :
    (result : ReadResult) → Decidable (registry.CanDeliver client result)
  | .error => inferInstanceAs (Decidable True)
  | .data chunk => inferInstanceAs
    (Decidable (registry.isOpen client = true ∧ 1 ≤ chunk.length ∧ chunk.length ≤ 1024))

instance (registry : Registry) : (event : Event) → Decidable (registry.Enables event)
  | .acceptCompletes result => inferInstanceAs (Decidable
    (0 < registry.waitingAccepts ∧ (result = .success → registry.acceptorOpen = true)))
  | .readCompletes client result => inferInstanceAs
    (Decidable (client ∈ registry.waitingReads ∧ registry.CanDeliver client result))
  | .runAccept result => inferInstanceAs (Decidable (result ∈ registry.readyAccepts))
  | .runRead client result => inferInstanceAs (Decidable ((client, result) ∈ registry.readyReads))
  | .start => inferInstanceAs (Decidable True)
  | .broadcast _ _ => inferInstanceAs (Decidable True)
  | .shutdown => inferInstanceAs (Decidable True)

/-- What an event does to the registry before the server's code runs. An accept handler that is
given a connection is given the next number for it, and its socket is open. -/
def Event.arrive (registry : Registry) : Event → Registry
  | acceptCompletes result =>
    { registry with
      waitingAccepts := registry.waitingAccepts - 1
      readyAccepts := registry.readyAccepts ++ [result] }
  | readCompletes client result =>
    { registry with
      waitingReads := registry.waitingReads.erase client
      readyReads := registry.readyReads ++ [(client, result)] }
  | runAccept .error => { registry with readyAccepts := registry.readyAccepts.erase .error }
  | runAccept .success =>
    { registry with
      readyAccepts := registry.readyAccepts.erase .success
      accepted := registry.accepted + 1
      isOpen := Function.update registry.isOpen registry.accepted true }
  | runRead client result =>
    { registry with readyReads := registry.readyReads.erase (client, result) }
  | _ => registry

/-- Taking a completed accept leaves one accept less in flight. -/
theorem outstandingAccepts_arrive_runAccept {registry : Registry} {result : AcceptResult}
    (hready : result ∈ registry.readyAccepts) :
    ((Event.runAccept result).arrive registry).outstandingAccepts + 1 =
      registry.outstandingAccepts := by
  have hpositive : 0 < registry.readyAccepts.length := List.length_pos_of_mem hready
  have hlength := List.length_erase_of_mem hready
  cases result <;> simp only [Event.arrive, Registry.outstandingAccepts, hlength] <;> omega

/-- Completing an accept leaves the number of accepts in flight as it is. -/
theorem outstandingAccepts_arrive_acceptCompletes {registry : Registry} {result : AcceptResult}
    (henabled : registry.Enables (.acceptCompletes result)) :
    ((Event.acceptCompletes result).arrive registry).outstandingAccepts =
      registry.outstandingAccepts := by
  have hpositive : 0 < registry.waitingAccepts := henabled.1
  simp only [Event.arrive, Registry.outstandingAccepts, List.length_append, List.length_cons,
    List.length_nil]
  omega

/-- The code of the server an event runs. -/
def Event.program (parse : Bytes → Option Json) (registry : Registry) : Event → ServerProgram Unit
  | start => Server.start
  | acceptCompletes _ => pure ()
  | readCompletes _ _ => pure ()
  | runAccept result => acceptHandler registry.accepted result
  | runRead client result => readHandler parse client result
  | broadcast message excludeSocket => callBroadcastMessage message excludeSocket
  | shutdown => Server.shutdown

/-- The event can happen in the state. -/
def Event.Enabled (state : State) (event : Event) : Prop :=
  state.Enables event

instance (state : State) (event : Event) : Decidable (event.Enabled state) :=
  inferInstanceAs (Decidable (state.Enables event))

/-- The state in which the code of an event starts. -/
def Event.prepare (state : State) (event : Event) : State :=
  { state with toRegistry := event.arrive state.toRegistry }

/-- The run of one event to its end under a bound on nested calls. -/
def stepAt (setting : Setting) (depth : ℕ) (parse : Bytes → Option Json) (event : Event)
    (state : State) : Outcome Fault State Unit :=
  (semantics setting).exec depth (event.program parse state.toRegistry) (event.prepare state)

/-- The setting of the source: a `std::mutex`, and a range-for that walks the slots. -/
def standard (network : Network) : Setting :=
  { mutex := .standard, walk := .slots, network }

/-- The run of one event in the setting of the source. Four nested calls are enough there, as a
fifth one would lock a mutex its thread holds. -/
def step (parse : Bytes → Option Json) (network : Network) (event : Event) (state : State) :
    Outcome Fault State Unit :=
  stepAt (standard network) 4 parse event state

/-- A sequence of events that all returned, with the states at its ends. -/
inductive Run (parse : Bytes → Option Json) (network : Network) :
    State → List Event → State → Prop
  | nil (state : State) : Run parse network state [] state
  | snoc {first middle last : State} {events : List Event} {event : Event}
      (run : Run parse network first events middle) (enabled : event.Enabled middle)
      (returned : step parse network event middle = .returned () last) :
      Run parse network first (events ++ [event]) last

/-- The state can be reached from a server before `start`. -/
def Reachable (parse : Bytes → Option Json) (network : Network) (state : State) : Prop :=
  ∃ maxClients events, Run parse network (initial maxClients) events state

/-- The state after the events, if each is enabled in its turn and returns. -/
def play (parse : Bytes → Option Json) (network : Network) : List Event → State → Option State
  | [], state => some state
  | event :: events, state =>
    if event.Enabled state then
      match step parse network event state with
      | .returned _ after => play parse network events after
      | .stopped _ _ => none
    else none

section Play

variable {parse : Bytes → Option Json} {network : Network}

theorem play_eq_run {first middle last : State} {past events : List Event}
    (hpast : Run parse network first past middle)
    (hplay : play parse network events middle = some last) :
    Run parse network first (past ++ events) last := by
  induction events generalizing past middle with
  | nil =>
    rw [play, Option.some.injEq] at hplay
    rw [List.append_nil, ← hplay]
    exact hpast
  | cons event events ih =>
    rw [play] at hplay
    split_ifs at hplay with henabled
    cases hstep : step parse network event middle with
    | returned value after =>
      rw [hstep] at hplay
      rw [List.append_cons]
      exact ih (hpast.snoc henabled hstep) hplay
    | stopped fault after =>
      rw [hstep] at hplay
      cases hplay

/-- What events lead to from a server before `start` is reachable. -/
theorem reachable_of_play {maxClients : ℕ} {events : List Event} {state : State}
    (hplay : play parse network events (initial maxClients) = some state) :
    Reachable parse network state :=
  ⟨maxClients, events, play_eq_run (.nil _) hplay⟩

end Play

/-- A network on which no write fails and every peer is known. -/
def reliable : Network :=
  ⟨fun _ _ ↦ .whole, fun _ ↦ true⟩

end KoboldKhat.Server
