import KoboldKhat.Library.Framing
import KoboldKhat.Server.History
import KoboldKhat.Server.ClientInput
import KoboldKhat.Client.Receiving
import KoboldKhat.Parser.Documents

/-!
# Messages and lines over TCP

Neither direction of the chat marks where a message ends: the client writes JSON documents one after
the other, the server writes lines one after the other, and the other side takes every chunk it
reads for one message. TCP delivers the bytes in order but cuts them anywhere.

From the client to the server, `handleMessage` is called once for each chunk that is not blank, and
its calls carry the messages sent exactly when each read delivered one whole document
(`clientToServer_framing`). From the server to the client, the entries pushed are the chunks read,
and they are the lines exactly when each read delivered one whole line (`serverToClient_framing`).
-/

set_option autoImplicit false
set_option relaxedAutoImplicit false

namespace KoboldKhat

open Library

/-! ### From the client to the server -/

/-- The bytes are a complete document for a JSON value: the parser reads the value from them, and
from no part that begins them. -/
structure IsComplete (parse : Bytes → Option Json) (value : Json) (document : Bytes) : Prop where
  parses : parse document = some value
  incomplete : ∀ part, part <+: document → part ≠ document → parse part = none

/-- The bytes are the one complete document for a JSON object: the parser also rejects them when
they are continued by what begins like another object. -/
structure IsDocument (parse : Bytes → Option Json) (value : Json) (document : Bytes) : Prop
    extends IsComplete parse value document where
  opens : document.head? = some 123
  trailing : ∀ extra, extra.head? = some 123 → parse (document ++ extra) = none

section ClientToServer

variable {parse : Bytes → Option Json} {username : Bytes}

/-- What begins with a brace is not blank. -/
theorem not_isBlankChunk_of_head {chunk : Bytes} (hhead : chunk.head? = some 123) :
    ¬ Server.IsBlankChunk chunk := by
  intro hblank
  have hbrace := hblank 123 (List.mem_of_mem_head? hhead)
  revert hbrace
  decide

/-- The call for a chunk that the parser rejects carries nothing. -/
theorem chunkCall_of_rejected {chunk : Bytes} (hhead : chunk.head? = some 123)
    (hrejected : parse chunk = none) : Server.chunkCall parse chunk = [.error .exception] := by
  unfold Server.chunkCall Server.parsedMessage
  rw [if_neg (not_isBlankChunk_of_head hhead), hrejected]
  rfl

/-- The call for a document carries its message. -/
theorem chunkCall_document {message document : Bytes}
    (hdocument : IsDocument parse (envelope username message) document) :
    Server.chunkCall parse document = [.ok (message, username)] := by
  unfold Server.chunkCall Server.parsedMessage
  rw [if_neg (not_isBlankChunk_of_head hdocument.opens), hdocument.parses, Option.getD_some,
    messageFields_envelope]

/-- The first byte of a part of a sequence of documents opens one. -/
theorem head?_of_documents {messages documents : List Bytes}
    (hdocuments : List.Forall₂ (fun message document ↦
      IsDocument parse (envelope username message) document) messages documents) {part : Bytes}
    (hpart : part ≠ []) (hbeginning : part <+: documents.flatten) : part.head? = some 123 := by
  cases hdocuments with
  | nil => exact absurd (List.prefix_nil.mp hbeginning) hpart
  | @cons _ document _ documents hfirst _ =>
    obtain ⟨rest, hrest⟩ := hbeginning
    have hhead := congrArg List.head? hrest
    rw [List.flatten_cons, List.head?_append_of_ne_nil _ hpart, List.head?_append, hfirst.opens]
      at hhead
    exact hhead

/-- The server reads the documents of a client apart only if each comes in a chunk of its own. -/
theorem delimited_documents {messages documents : List Bytes}
    (hdocuments : List.Forall₂ (fun message document ↦
      IsDocument parse (envelope username message) document) messages documents) :
    Delimited (Server.chunkCall parse) documents
      (messages.map fun message ↦ .ok (message, username)) := by
  induction hdocuments with
  | nil => exact .nil
  | @cons message document messages documents hfirst hrest ih =>
    refine .cons (chunkCall_document hfirst) ?_ ih
    intro chunk hchunk hne hbeginning
    have hhead : chunk.head? = some 123 :=
      head?_of_documents (.cons hfirst hrest) hchunk hbeginning
    refine ⟨.error .exception, nofun, chunkCall_of_rejected hhead ?_⟩
    rcases List.prefix_or_prefix_of_prefix hbeginning (List.prefix_append document _) with
      hpart | hlonger
    · exact hfirst.incomplete chunk hpart hne
    · obtain ⟨extra, rfl⟩ := hlonger
      rw [List.prefix_append_right_inj] at hbeginning
      have hextra : extra ≠ [] := by
        rintro rfl
        exact hne (List.append_nil document)
      exact hfirst.trailing extra (head?_of_documents hrest hextra hbeginning)

end ClientToServer

/-- At every time of every run of the server: `handleMessage` has been called once for each chunk of
the client that is not blank; the calls so far carry the first of the client's messages exactly when
the chunks so far are the first of its documents; and they carry all of them exactly when the chunks
are the documents. -/
theorem clientToServer_framing {parse : Bytes → Option Json} {dump : Json → Option Bytes}
    {client : Client.State} (hconnected : client.connected = true) (hfresh : client.outgoing = [])
    {messages documents : List Bytes}
    (hdump : List.Forall₂ (fun message document ↦
      dump (envelope client.username message) = some document) messages documents)
    (hdocuments : List.Forall₂ (fun message document ↦
      IsDocument parse (envelope client.username message) document) messages documents)
    {network : Server.Network} {maxClients : ℕ} {events : List Server.Event}
    {server : Server.State}
    (hends : Server.Ends parse network (Server.initial maxClients) events server)
    {session : Server.SessionId}
    (hstream : (Server.chunksRead session events).flatten <+:
      (Client.sendAll dump messages client).outgoing) :
    server.callsFrom session =
        (Server.chunksRead session events).flatMap (Server.chunkCall parse) ∧
      (server.callsFrom session <+: messages.map (fun message ↦ .ok (message, client.username)) ↔
        Server.chunksRead session events <+: documents) ∧
      (server.callsFrom session = messages.map (fun message ↦ .ok (message, client.username)) ↔
        Server.chunksRead session events = documents) := by
  have hcalls := hends.callsFrom rfl rfl session
  have hdelimited := delimited_documents hdocuments
  have hnonempty : ∀ chunk ∈ Server.chunksRead session events, chunk ≠ [] := by
    rintro chunk hmember rfl
    have hlength := (hends.chunksRead_length session [] hmember).1
    cases hlength
  rw [Client.sendAll_outgoing hconnected hdump, hfresh, List.nil_append] at hstream
  refine ⟨hcalls, ?_, ?_⟩
  · rw [hcalls]
    exact hdelimited.chunks_iff hnonempty hstream
  · rw [hcalls]
    exact hdelimited.eq_iff hnonempty hstream

/-- What the serializer of the library writes for valid strings is such a document for its
parser. -/
theorem isDocument_document {strtod : Bytes → Double} {username message : Bytes}
    (husername : IsUtf8 username) (hmessage : IsUtf8 message) :
    IsDocument (Parser.parse strtod) (envelope username message)
      (Parser.document username message) where
  parses := Parser.parse_document husername hmessage
  incomplete := fun _ hbegins hproper ↦
    Parser.parse_part_document husername hmessage hbegins hproper
  opens := Parser.document_head username message
  trailing := fun _ hhead ↦ Parser.parse_document_append husername hmessage hhead

/-- The text of an envelope whose strings need no escapes. -/
def plainText : Json → Option Bytes
  | .object [(_, .text message), (_, .text username)] =>
    some (ascii "\x7b\"message\":\"" ++ message ++ ascii "\",\"username\":\"" ++ username ++
      ascii "\"\x7d")
  | _ => none

/-- The documents a client of the name `k` writes when it connects and then says `hi`. -/
def greetings : List Bytes :=
  [ascii "\x7b\"message\":\"k\",\"username\":\"k\"\x7d",
    ascii "\x7b\"message\":\"hi\",\"username\":\"k\"\x7d"]

/-- The parser of the library, where no number has to be read. -/
def parseWords : Bytes → Option Json :=
  Parser.parse fun _ ↦ 0

/-- The serializer of the library, where no number has to be written. -/
def dumpWords : Json → Option Bytes :=
  Serializer.dump fun _ ↦ []

/-- The events in which a first client connects and each of the chunks is read and handled. -/
def readAll (chunks : List Bytes) : List Server.Event :=
  [.start, .acceptCompletes .success, .runAccept .success] ++ chunks.flatMap fun chunk ↦
    [.readCompletes 0 (.data chunk), .runRead 0 (.data chunk)]

theorem greetings_dump :
    List.Forall₂ (fun message document ↦ dumpWords (envelope (ascii "k") message) = some document)
      [ascii "k", ascii "hi"] greetings :=
  .cons (by decide) (.cons (by decide) .nil)

theorem greetings_documents :
    List.Forall₂ (fun message document ↦
      IsDocument parseWords (envelope (ascii "k") message) document)
      [ascii "k", ascii "hi"] greetings := by
  have hname : IsUtf8 (ascii "k") := ⟨['k'], by decide⟩
  exact .cons (isDocument_document hname hname)
    (.cons (isDocument_document hname ⟨['h', 'i'], by decide⟩) .nil)

/-- When each of the two documents comes in a read of its own, the calls carry both messages. -/
theorem clientToServer_framing_greetings :
    ∃ server, Server.Ends parseWords Server.reliable (Server.initial 10) (readAll greetings)
        server ∧
      server.callsFrom 0 = [ascii "k", ascii "hi"].map fun message ↦ .ok (message, ascii "k") := by
  have hsome : (Server.play parseWords Server.reliable (readAll greetings)
      (Server.initial 10)).isSome = true := by
    decide
  have hends := Server.Ends.returned (Server.play_eq_run (.nil _) (Option.some_get hsome).symm)
  have hframing := @clientToServer_framing _ _ { username := ascii "k" } rfl rfl _ _ greetings_dump
    greetings_documents _ _ _ _ hends 0 (by decide)
  exact ⟨_, hends, hframing.2.2.mpr (by decide)⟩

/-- When both documents come in one read, there is one call, and it carries no message. -/
theorem clientToServer_framing_joined :
    List.Forall₂ (fun message document ↦
      IsDocument parseWords (envelope (ascii "k") message) document)
      [ascii "k", ascii "hi"] greetings ∧
    ∃ server, Server.Ends parseWords Server.reliable (Server.initial 10)
        (readAll [greetings.flatten]) server ∧
      greetings.flatten =
        (Client.sendAll dumpWords [ascii "k", ascii "hi"] { username := ascii "k" }).outgoing ∧
      server.callsFrom 0 = [.error .exception] := by
  have hsome : (Server.play parseWords Server.reliable
      (Server.firstChunk greetings.flatten) (Server.initial 10)).isSome = true := by
    decide
  have hrun := Server.play_eq_run (.nil _) (Option.some_get hsome).symm
  exact ⟨greetings_documents, _, Server.Ends.stopped hrun (List.mem_singleton.mpr rfl) rfl,
    by decide, rfl⟩

/-! ### From the server to the client -/

/-- For a session to which all writes returned, and a client that has read what was written and kept
its queue within the limit: the entries it pushed are the chunks it read, each of one to 1024 bytes;
together they are the lines the server wrote; and they are these lines one by one exactly when the
chunks are. -/
theorem serverToClient_framing {parse : Bytes → Option Json} {network : Server.Network}
    {maxClients : ℕ} {events : List Server.Event} {server : Server.State}
    (hends : Server.Ends parse network (Server.initial maxClients) events server)
    {session : Server.SessionId} (hreturned : server.WritesReturned session)
    {dump : Json → Option Bytes} {username : Bytes} {client : Client.State}
    (hrun : Client.Run dump Client.State.WithinLimit { username } client)
    (hidle : client.pending = [])
    (hstream : client.received.flatten = server.outgoing session) :
    client.pushed = client.received ∧
      (∀ entry ∈ client.pushed, 1 ≤ entry.length ∧ entry.length ≤ 1024) ∧
      client.pushed.flatten = (server.linesTo session).flatten ∧
      (client.pushed = server.linesTo session ↔ client.received = server.linesTo session) := by
  have hreceived := hrun.received (Client.received_start username)
  have hpushed : client.pushed = client.received := by
    rw [← hreceived.pushed, hidle, List.append_nil]
  have hfaithful : server.Faithful := hends.faithful rfl nofun
  rw [hpushed]
  exact ⟨rfl, hreceived.fits, hstream.trans (Server.outgoing_eq_flatten hfaithful hreturned),
    Iff.rfl⟩

/-- The events in which a first client connects and two lines are broadcast. -/
def twoLines : List Server.Event :=
  [.start, .acceptCompletes .success, .runAccept .success, .broadcast (ascii "one") none,
    .broadcast (ascii "two") none]

/-- The server after these events. -/
def twoLinesServer : Server.State :=
  (Server.play (fun _ ↦ none) Server.reliable twoLines (Server.initial 10)).getD (Server.initial 10)

theorem twoLines_ends :
    Server.Ends (fun _ ↦ none) Server.reliable (Server.initial 10) twoLines twoLinesServer :=
  .returned (Server.play_eq_run (.nil _) rfl)

theorem twoLines_returned : twoLinesServer.WritesReturned 0 := by
  unfold Server.State.WritesReturned
  decide

/-- A client that has read and pushed some chunks. -/
def readingClient (chunks : List Bytes) : Client.State :=
  chunks.foldl Client.State.take { username := ascii "k" }

/-- When each of two lines comes in a read of its own, the entries are the lines. -/
theorem serverToClient_framing_apart :
    Client.Run plainText Client.State.WithinLimit { username := ascii "k" }
        (readingClient [ascii "one", ascii "two"]) ∧
      (readingClient [ascii "one", ascii "two"]).pushed = twoLinesServer.linesTo 0 := by
  have hrun : Client.Run plainText Client.State.WithinLimit { username := ascii "k" }
      (readingClient [ascii "one", ascii "two"]) :=
    ((Client.Run.nil (Nat.zero_le _)).take rfl rfl (by decide) (by decide)).take rfl rfl (by decide)
      (by decide)
  have hframing := serverToClient_framing twoLines_ends twoLines_returned hrun rfl (by decide)
  exact ⟨hrun, hframing.2.2.2.mpr (by decide)⟩

/-- When both lines come in one read, they are one entry. -/
theorem serverToClient_framing_joined :
    Server.Ends (fun _ ↦ none) Server.reliable (Server.initial 10) twoLines twoLinesServer ∧
      twoLinesServer.WritesReturned 0 ∧
      Client.Run plainText Client.State.WithinLimit { username := ascii "k" }
        (readingClient [ascii "onetwo"]) ∧
      (readingClient [ascii "onetwo"]).received.flatten = twoLinesServer.outgoing 0 ∧
      twoLinesServer.linesTo 0 = [ascii "one", ascii "two"] ∧
      (readingClient [ascii "onetwo"]).pushed = [ascii "onetwo"] :=
  ⟨twoLines_ends, twoLines_returned,
    (Client.Run.nil (Nat.zero_le _)).take rfl rfl (by decide) (by decide), by decide, by decide,
    by decide⟩

end KoboldKhat
