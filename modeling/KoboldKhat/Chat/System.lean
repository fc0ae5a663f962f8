import KoboldKhat.Client.Stream
import KoboldKhat.Library.Automaton
import KoboldKhat.Server.Delivery

/-!
# The whole chat

The server of `server/main.cpp` and any number of client applications over TCP, in every
interleaving. `main` of the server starts it and runs the reactor, and neither broadcasts nor shuts
down. A client application connects once, under the name its user typed, and from then on its two
threads take their steps. Both sides use the serializer and the parser of the library.

The client of a session is the one at the other end of its connection. It may have written before
the server accepted the connection, and the server may have accepted it before the client wrote its
first message. TCP delivers the bytes of each direction in order and cut anywhere: what has been
read is always the beginning of what has been written. Writes of both sides fail as the network
pleases.

A server that threw, or did what the language does not define, is not run any further; its clients
are.
-/

set_option autoImplicit false
set_option relaxedAutoImplicit false

namespace KoboldKhat.Chat

open Library Server

/-- The server and the clients. -/
structure System where
  /-- The server. -/
  server : Server.State
  /-- How the thread of the server ended, if it has. -/
  fault : Option Fault := none
  /-- The events of the server so far. -/
  events : List Server.Event := []
  /-- `m_client` of each client application. There is none before its user connects. -/
  client : SessionId → Option Client.State := fun _ ↦ none
  /-- The messages each client was given to send, in their order. -/
  said : SessionId → List Bytes := fun _ ↦ []

namespace System

/-- The bytes the client of a session has written. -/
def outgoing (system : System) (session : SessionId) : Bytes :=
  ((system.client session).map Client.State.outgoing).getD []

/-- The name the user of the client of a session typed. -/
def name (system : System) (session : SessionId) : Bytes :=
  ((system.client session).map Client.State.username).getD []

/-- The system with the client of a session in a new state, after it was given messages to send. -/
def withClient (system : System) (session : SessionId) (client : Client.State)
    (messages : List Bytes) : System :=
  { system with
    client := Function.update system.client session (some client)
    said := Function.update system.said session (system.said session ++ messages) }

/-- The system after an event of the server. -/
def served (system : System) (event : Server.Event) (after : Server.State)
    (fault : Option Fault) : System :=
  { system with server := after, fault, events := system.events ++ [event] }

end System

/-- The event can happen under `main`, which starts the server and runs the reactor. -/
def OfMain : Server.Event → Prop
  | .broadcast _ _ => False
  | .shutdown => False
  | _ => True

instance : (event : Server.Event) → Decidable (OfMain event)
  | .broadcast _ _ => inferInstanceAs (Decidable False)
  | .shutdown => inferInstanceAs (Decidable False)
  | .start => inferInstanceAs (Decidable True)
  | .acceptCompletes _ => inferInstanceAs (Decidable True)
  | .readCompletes _ _ => inferInstanceAs (Decidable True)
  | .runAccept _ => inferInstanceAs (Decidable True)
  | .runRead _ _ => inferInstanceAs (Decidable True)

/-- A read of the server completes with the next bytes that the client has written. -/
def System.CarriesUp (system : System) : Server.Event → Prop
  | .readCompletes session result =>
    (delivered session system.events ++ result.chunks).flatten <+: system.outgoing session
  | _ => True

instance (system : System) : (event : Server.Event) → Decidable (system.CarriesUp event)
  | .readCompletes session result => inferInstanceAs (Decidable
    ((delivered session system.events ++ result.chunks).flatten <+: system.outgoing session))
  | .broadcast _ _ => inferInstanceAs (Decidable True)
  | .shutdown => inferInstanceAs (Decidable True)
  | .start => inferInstanceAs (Decidable True)
  | .acceptCompletes _ => inferInstanceAs (Decidable True)
  | .runAccept _ => inferInstanceAs (Decidable True)
  | .runRead _ _ => inferInstanceAs (Decidable True)

/-- A step of the client leaves it with the first bytes that the server has written to it. -/
def System.CarriesDown (system : System) (session : SessionId) (after : Client.State) : Prop :=
  after.received.flatten <+: system.server.outgoing session

instance (system : System) (session : SessionId) (after : Client.State) :
    Decidable (system.CarriesDown session after) :=
  inferInstanceAs (Decidable (_ <+: _))

/-- What can happen in the chat. -/
inductive Move
  /-- An event of the server. -/
  | serve (event : Server.Event)
  /-- A user types a name and connects. -/
  | connect (session : SessionId) (username : Bytes) (answer : WriteAnswer)
  /-- A step of a client. -/
  | act (session : SessionId) (event : Client.Event)

section Step

variable (strtod : Bytes → Double) (toChars : Double → Bytes) (network : Network)

/-- The chat after a move, if the move can be made. -/
def System.step (system : System) : Move → Option System
  | .serve event =>
    if system.fault = none ∧ OfMain event ∧ system.CarriesUp event ∧
        event.Enabled system.server then
      match Server.step (Parser.parse strtod) network event system.server with
      | .returned _ after => some (system.served event after none)
      | .stopped fault after => some (system.served event after (some fault))
    else none
  | .connect session username answer =>
    match system.client session with
    | some _ => none
    | none => some (system.withClient session
        (Client.connect (Serializer.dump toChars) true answer (Client.created username)) [username])
  | .act session event =>
    match system.client session with
    | none => none
    | some client =>
      match Client.step (Serializer.dump toChars) client event with
      | none => none
      | some after =>
        if system.CarriesDown session after then
          some (system.withClient session after event.said)
        else none

/-- The chat, from a server that has not been started and before anybody has connected. -/
def chat : Automaton System Move where
  initial system := ∃ maxClients, system = { server := initial maxClients }
  step := System.step strtod toChars network

/-- What each move that can be made does. -/
inductive Stepped (system : System) : Move → System → Prop
  | returned (event : Server.Event) (after : Server.State) (alive : system.fault = none)
      (ofMain : OfMain event) (carries : system.CarriesUp event)
      (enabled : event.Enabled system.server)
      (returns : Server.step (Parser.parse strtod) network event system.server =
        .returned () after) :
      Stepped system (.serve event) (system.served event after none)
  | stopped (event : Server.Event) (after : Server.State) (fault : Fault)
      (alive : system.fault = none) (ofMain : OfMain event) (carries : system.CarriesUp event)
      (enabled : event.Enabled system.server)
      (stops : Server.step (Parser.parse strtod) network event system.server =
        .stopped fault after) :
      Stepped system (.serve event) (system.served event after (some fault))
  | connect (session : SessionId) (username : Bytes) (answer : WriteAnswer)
      (absent : system.client session = none) :
      Stepped system (.connect session username answer) (system.withClient session
        (Client.connect (Serializer.dump toChars) true answer (Client.created username)) [username])
  | act (session : SessionId) (event : Client.Event) (client after : Client.State)
      (present : system.client session = some client)
      (steps : Client.step (Serializer.dump toChars) client event = some after)
      (carries : system.CarriesDown session after) :
      Stepped system (.act session event) (system.withClient session after event.said)

variable {strtod toChars network} {system after : System} {move : Move}

/-- A move that is made is one of these. -/
theorem stepped_of_step (hstep : system.step strtod toChars network move = some after) :
    Stepped strtod toChars network system move after := by
  cases move with
  | serve event =>
    simp only [System.step] at hstep
    split_ifs at hstep with henabled
    obtain ⟨halive, hmain, hcarries, henabled⟩ := henabled
    cases houtcome : Server.step (Parser.parse strtod) network event system.server with
    | returned value state =>
      rw [houtcome] at hstep
      obtain rfl := Option.some.inj hstep
      exact .returned event state halive hmain hcarries henabled houtcome
    | stopped fault state =>
      rw [houtcome] at hstep
      obtain rfl := Option.some.inj hstep
      exact .stopped event state fault halive hmain hcarries henabled houtcome
  | connect session username answer =>
    cases hclient : system.client session with
    | some client => simp [System.step, hclient] at hstep
    | none =>
      simp only [System.step, hclient, Option.some.injEq] at hstep
      rw [← hstep]
      exact .connect session username answer hclient
  | act session event =>
    cases hclient : system.client session with
    | none => simp [System.step, hclient] at hstep
    | some client =>
      cases hstate : Client.step (Serializer.dump toChars) client event with
      | none => simp [System.step, hclient, hstate] at hstep
      | some state =>
        simp only [System.step, hclient, hstate] at hstep
        split_ifs at hstep with hcarries
        obtain rfl := Option.some.inj hstep
        exact .act session event client state hclient hstate hcarries

end Step

end KoboldKhat.Chat
