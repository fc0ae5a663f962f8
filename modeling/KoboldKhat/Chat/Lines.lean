import KoboldKhat.Chat.Calls
import KoboldKhat.Server.Identity

/-!
# What the clients are told

Every line that the server of the whole chat writes, or tries to write, comes from the clients
(`FromClients`): it announces the name a user typed, relays a message a client was given to send
under this name, carries the text of a direct message, reports its recipient as not found, or
announces a departure. No message is put into the mouth of another client, and nobody is told the
own words or the own departure. What a client has read is the beginning of what was sent of these
lines (`linesFromClients`).
-/

set_option autoImplicit false
set_option relaxedAutoImplicit false

namespace KoboldKhat.Chat

open Library Server

/-- The line for the session comes from the clients. -/
inductive FromClients (system : System) (target : SessionId) : Bytes → Prop
  /-- A client has said something that is not a direct message, and its name is announced. -/
  | joined (session : SessionId) (message : Bytes) (given : message ∈ system.said session)
      (plain : dmCommand.isPrefixOf message = false) :
      FromClients system target (joinedLine (system.name session))
  /-- A message of another client that is not a direct one. -/
  | relayed (session : SessionId) (message : Bytes) (given : message ∈ system.said session)
      (plain : dmCommand.isPrefixOf message = false) (named : system.name session ≠ [])
      (other : session ≠ target) :
      FromClients system target (chatLine (system.name session) message)
  /-- The departure of another client. -/
  | departed (session : SessionId) (named : system.name session ≠ []) (other : session ≠ target) :
      FromClients system target (disconnectedLine (system.name session))
  /-- A direct message of a client, which may not have told its name yet. -/
  | direct (session : SessionId) (message sender : Bytes) (given : message ∈ system.said session)
      (command : dmCommand.isPrefixOf message = true)
      (sent : sender = [] ∨ sender = system.name session) :
      FromClients system target (directLine sender (parseDirectMessage message).2)
  /-- The recipient of a direct message of this client was not found. -/
  | notFound (message : Bytes) (given : message ∈ system.said target)
      (command : dmCommand.isPrefixOf message = true) :
      FromClients system target (notFoundLine (parseDirectMessage message).1)

section Lines

variable {setting : Setting} {depth : ℕ} {parse : Bytes → Option Json} {first last : Server.State}
  {events : List Server.Event} {deeds : List Deed} {strtod : Bytes → Double}
  {toChars : Double → Bytes} {network : Network} {system : System} {event : Server.Event}
  {session target : SessionId} {message newUsername line : Bytes} {names : SessionId → Bytes}

/-- A message that an event of the chat brings was given to its client to send, and comes with the
name that was typed. -/
theorem System.Consistent.brings (hconsistent : system.Consistent strtod network)
    (hevent : event ∈ system.events)
    (hbrings : event.Brings (Parser.parse strtod) session message newUsername) :
    message ∈ system.said session ∧ newUsername = system.name session := by
  obtain ⟨chunk, rfl, hblank, hfields⟩ := hbrings
  obtain ⟨maxClients, hends⟩ := hconsistent.served.ends
  have hread : chunk ∈ chunksRead session system.events :=
    List.mem_flatMap.mpr ⟨_, hevent, by rw [Event.chunkOf, if_pos rfl]; exact List.mem_cons_self⟩
  have hcall : Except.ok (message, newUsername) ∈ system.server.callsFrom session := by
    rw [hends.callsFrom rfl rfl session]
    refine List.mem_flatMap.mpr ⟨chunk, hread, ?_⟩
    rw [chunkCall, if_neg hblank, hfields]
    exact List.mem_cons_self
  obtain ⟨handled, ended, hsaid, -, hcalls, hended⟩ := hconsistent.calls session
  rw [hcalls] at hcall
  rcases List.mem_append.mp hcall with hhandled | herror
  · obtain ⟨given, hgiven, hsame⟩ := List.mem_map.mp hhandled
    obtain ⟨rfl, rfl⟩ := Prod.mk.inj (Except.ok.inj hsame)
    exact ⟨hsaid.subset hgiven, rfl⟩
  · rcases hended with rfl | ⟨rfl, -⟩
    · cases herror
    · cases List.mem_singleton.mp herror

/-- A name that the server has stored is the one that was typed. -/
theorem System.Consistent.named (hconsistent : system.Consistent strtod network)
    (hnamed : system.server.username session ≠ []) :
    system.server.username session = system.name session := by
  obtain ⟨maxClients, hends⟩ := hconsistent.served.ends
  obtain ⟨handled, ended, -, -, hcalls, hended⟩ := hconsistent.calls session
  have hname := @nameAfter_handled (system.name session) handled ended (hended.imp_right And.left)
  rw [← hcalls, ← hends.username session] at hname
  rw [hname] at hnamed ⊢
  split_ifs at hnamed ⊢ with hall
  · exact absurd rfl hnamed
  · rfl

/-- What the code of an event of the chat writes comes from the clients, if the names are those
stored at the end. -/
theorem System.Consistent.fromClients (hconsistent : system.Consistent strtod network)
    (hevent : event ∈ system.events) {callers : List Procedure}
    (hnames : ∀ session, names session ≠ [] → names session = system.name session)
    (hwrites : Writes (Parser.parse strtod) event names callers target line) :
    FromClients system target line := by
  cases hwrites with
  | told client message excludeSocket rest opened included =>
    cases opened with
    | external message excludeSocket isBroadcast =>
      have hmain := hconsistent.ofMain event hevent
      rw [isBroadcast] at hmain
      exact hmain.elim
    | joined session message brings notCommand =>
      obtain ⟨hsaid, hname⟩ := hconsistent.brings hevent brings
      rw [hname]
      exact .joined session message hsaid notCommand
    | relayed session message newUsername brings notCommand named =>
      obtain ⟨hsaid, -⟩ := hconsistent.brings hevent brings
      have hname := hnames session named
      rw [hname] at named ⊢
      exact .relayed session message hsaid notCommand named fun hsame ↦
        included (congrArg some hsame)
    | departed session rest opened named =>
      have hname := hnames session named
      rw [hname] at named ⊢
      exact .departed session named fun hsame ↦ included (congrArg some hsame)
  | direct session receiver message newUsername brings command =>
    obtain ⟨hsaid, -⟩ := hconsistent.brings hevent brings
    by_cases hnamed : names session = []
    · exact .direct session message _ hsaid command (Or.inl hnamed)
    · exact .direct session message _ hsaid command (Or.inr (hnames session hnamed))
  | notFound session message newUsername brings command =>
    obtain ⟨hsaid, -⟩ := hconsistent.brings hevent brings
    exact .notFound message hsaid command

/-- In every state of the chat: every line that the server has written, or tried to write, to a
session comes from the clients. What the client of the session has read is the beginning of what was
sent of these lines, and of the lines themselves if all writes to it returned. -/
theorem linesFromClients (hreachable : (chat strtod toChars network).Reachable system)
    (session : SessionId) :
    (∀ line ∈ system.server.linesTo session, FromClients system session line) ∧
      ∀ client, system.client session = some client →
        client.received.flatten <+: system.server.outgoing session ∧
        (system.server.WritesReturned session →
          client.received.flatten <+: (system.server.linesTo session).flatten) := by
  have hconsistent := consistent_of_reachable hreachable
  obtain ⟨maxClients, hends⟩ := hconsistent.served.ends
  refine ⟨fun line hline ↦ ?_, fun client hclient ↦ ?_⟩
  · obtain ⟨attempt, hattempt, rfl⟩ := List.mem_map.mp hline
    obtain ⟨hrecorded, hclient⟩ := List.mem_filter.mp hattempt
    obtain rfl := of_decide_eq_true hclient
    obtain ⟨deeds, hdeeds⟩ := ends_iff_exists_deeds.mp hends
    have hwritten : (attempt.client, attempt.message) ∈ deeds.flatMap Deed.writes := by
      have hmember : (attempt.client, attempt.message) ∈ system.server.written :=
        List.mem_map_of_mem hrecorded
      rw [hdeeds.written] at hmember
      exact hmember
    obtain ⟨deed, hdeed, hwrite⟩ := List.mem_flatMap.mp hwritten
    obtain ⟨-, final, hfinal, hlast⟩ :=
      identified_chronicle.ends (identified_initial maxClients) hdeeds
    refine hconsistent.fromClients (event_mem_of_deed hdeeds hdeed) ?_ (hdeeds.writes hdeed hwrite)
    intro speaker hnamed
    have hconstant := hfinal.constant deed hdeed speaker hnamed
    rw [hconstant, ← hlast] at hnamed ⊢
    exact hconsistent.named hnamed
  · have hcarried := hconsistent.carriedDown session client hclient
    refine ⟨hcarried, fun hreturned ↦ ?_⟩
    rw [← outgoing_eq_flatten (hends.faithful rfl nofun) hreturned]
    exact hcarried

end Lines

/-- Ben is told of himself and of what Ann says, and reads it after a message of his could not be
written. -/
theorem linesFromClients_of_greeting :
    (chat (fun _ ↦ 0) (fun _ ↦ []) reliable).Reachable greeted ∧
      greeted.server.linesTo 1 = [joinedLine (ascii "ben"), chatLine (ascii "ann") (ascii "hi")] ∧
      (greeted.client 1).map (fun client ↦ (client.connected, client.received)) =
        some (false, [joinedLine (ascii "ben") ++ chatLine (ascii "ann") (ascii "hi")]) ∧
      (∀ line ∈ greeted.server.linesTo 1, FromClients greeted 1 line) ∧
      ∀ client, greeted.client 1 = some client →
        client.received.flatten <+: greeted.server.outgoing 1 ∧
        (greeted.server.WritesReturned 1 →
          client.received.flatten <+: (greeted.server.linesTo 1).flatten) :=
  ⟨reachable_greeted, by decide, by decide, linesFromClients reachable_greeted 1⟩

end KoboldKhat.Chat
