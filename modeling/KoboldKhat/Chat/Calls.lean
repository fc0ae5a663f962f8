import KoboldKhat.Chat.System

/-!
# What the server hears of its clients

In every state that the whole chat can reach: the calls of `handleMessage` for a session are the
first messages of its client, each once and in the order in which they were sent, with the name the
user typed (`handledInOrder`). No chunk of a client is anything but one whole document of a message,
as long as the server lives. The one other call there can be is the last one of a server that an
exception has ended: it was given a chunk that is not one whole document, and carries nothing. A
message whose document does not fit one read of 1024 bytes is therefore never handled.

So the name stored for a session is the one its user typed, from the first message on that is not a
direct one.
-/

set_option autoImplicit false
set_option relaxedAutoImplicit false

namespace KoboldKhat.Chat

open Library Server

/-! ### What every move keeps -/

/-- The server has run from its start, and it ended with the fault that is noted, if any. -/
inductive Served (parse : Bytes → Option Json) (network : Network) :
    Option Fault → List Server.Event → Server.State → Prop
  | alive {maxClients : ℕ} {events : List Server.Event} {server : Server.State}
      (run : Run parse network (initial maxClients) events server) :
      Served parse network none events server
  | ended {maxClients : ℕ} {events : List Server.Event} {middle server : Server.State}
      {event : Server.Event} {fault : Fault}
      (run : Run parse network (initial maxClients) events middle)
      (enabled : event.Enabled middle)
      (stops : Server.step parse network event middle = .stopped fault server) :
      Served parse network (some fault) (events ++ [event]) server

/-- The server and the clients have run as they should, and each side has read the beginning of what
the other one wrote. -/
structure System.Consistent (strtod : Bytes → Double) (network : Network) (system : System) :
    Prop where
  served : Served (Parser.parse strtod) network system.fault system.events system.server
  ofMain : ∀ event ∈ system.events, OfMain event
  wrote : ∀ session client, system.client session = some client →
    ∃ written, client.Wrote (system.said session) written
  silent : ∀ session, system.client session = none → system.said session = []
  carriedUp : ∀ session,
    (delivered session system.events).flatten <+: system.outgoing session
  carriedDown : ∀ session client, system.client session = some client →
    client.received.flatten <+: system.server.outgoing session

section Consistent

variable {strtod : Bytes → Double} {toChars : Double → Bytes} {network : Network}
  {system after : System} {session : SessionId}

/-- A server that has run from its start has ended as runs do. -/
theorem Served.ends {parse : Bytes → Option Json} {fault : Option Fault}
    {events : List Server.Event} {server : Server.State}
    (hserved : Served parse network fault events server) :
    ∃ maxClients, Ends parse network (initial maxClients) events server := by
  cases hserved with
  | alive run => exact ⟨_, .returned run⟩
  | ended run enabled stops => exact ⟨_, .stopped run enabled stops⟩

/-- Before the first event everything is consistent. -/
theorem consistent_initial (maxClients : ℕ) :
    ({ server := initial maxClients } : System).Consistent strtod network where
  served := .alive (.nil _)
  ofMain := fun _ hevent ↦ absurd hevent List.not_mem_nil
  wrote := fun _ _ hclient ↦ by cases hclient
  silent := fun _ _ ↦ rfl
  carriedUp := fun _ ↦ List.prefix_rfl
  carriedDown := fun _ _ hclient ↦ by cases hclient

/-- An event of the server keeps everything consistent, if the server goes on or ends as noted. -/
theorem System.Consistent.serve (hconsistent : system.Consistent strtod network)
    {event : Server.Event} (hmain : OfMain event) (hcarries : system.CarriesUp event)
    {server : Server.State} {fault : Option Fault}
    (hserved : Served (Parser.parse strtod) network fault (system.events ++ [event]) server)
    (hattempts : system.server.attempts <+: server.attempts) :
    (system.served event server fault).Consistent strtod network where
  served := hserved
  ofMain := List.forall_mem_append.mpr ⟨hconsistent.ofMain, List.forall_mem_singleton.mpr hmain⟩
  wrote := hconsistent.wrote
  silent := hconsistent.silent
  carriedUp := by
    intro session
    show (delivered session (system.events ++ [event])).flatten <+: system.outgoing session
    rw [delivered, List.flatMap_append, List.flatMap_singleton]
    cases event with
    | readCompletes reader result =>
      by_cases hsame : reader = session
      · subst hsame
        rw [Event.deliveryTo, if_pos rfl]
        exact hcarries
      · rw [Event.deliveryTo, if_neg hsame, List.append_nil]
        exact hconsistent.carriedUp session
    | _ =>
      rw [Event.deliveryTo, List.append_nil]
      · exact hconsistent.carriedUp session
      all_goals
        intro reader result hread
        cases hread
  carriedDown := fun session client hclient ↦
    (hconsistent.carriedDown session client hclient).trans (outgoing_isPrefix hattempts session)

/-- A step of a client keeps everything consistent, if it wrote the first of what it was given and
took nothing back. -/
theorem System.Consistent.move (hconsistent : system.Consistent strtod network)
    {client : Client.State} {messages written : List Bytes}
    (hwrote : client.Wrote (system.said session ++ messages) written)
    (houtgoing : system.outgoing session <+: client.outgoing)
    (hcarries : system.CarriesDown session client) :
    (system.withClient session client messages).Consistent strtod network := by
  have hclient : (system.withClient session client messages).client =
      Function.update system.client session (some client) := rfl
  have hsaid : (system.withClient session client messages).said =
      Function.update system.said session (system.said session ++ messages) := rfl
  refine ⟨hconsistent.served, hconsistent.ofMain, ?_, ?_, ?_, ?_⟩
  · intro other found hfound
    rw [hclient] at hfound
    rw [hsaid]
    by_cases hsame : other = session
    · subst hsame
      rw [Function.update_self] at hfound ⊢
      obtain rfl := Option.some.inj hfound
      exact ⟨written, hwrote⟩
    · rw [Function.update_of_ne hsame] at hfound ⊢
      exact hconsistent.wrote other found hfound
  · intro other habsent
    rw [hclient] at habsent
    rw [hsaid]
    by_cases hsame : other = session
    · subst hsame
      rw [Function.update_self] at habsent
      cases habsent
    · rw [Function.update_of_ne hsame] at habsent ⊢
      exact hconsistent.silent other habsent
  · intro other
    refine (hconsistent.carriedUp other).trans ?_
    unfold System.outgoing
    rw [hclient]
    by_cases hsame : other = session
    · subst hsame
      rw [Function.update_self]
      exact houtgoing
    · have hkept : Function.update system.client session (some client) other =
          system.client other := Function.update_of_ne hsame _ _
      simp [hkept]
  · intro other found hfound
    rw [hclient] at hfound
    by_cases hsame : other = session
    · subst hsame
      rw [Function.update_self] at hfound
      obtain rfl := Option.some.inj hfound
      exact hcarries
    · rw [Function.update_of_ne hsame] at hfound
      exact hconsistent.carriedDown other found hfound

/-- Every move keeps everything consistent. -/
theorem consistent_step (hconsistent : system.Consistent strtod network) {move : Move}
    (hstep : system.step strtod toChars network move = some after) :
    after.Consistent strtod network := by
  cases stepped_of_step hstep with
  | returned event server alive ofMain carries enabled returns =>
    have hserved := hconsistent.served
    rw [alive] at hserved
    cases hserved with
    | alive run =>
      exact hconsistent.serve ofMain carries (.alive (run.snoc enabled returns))
        (effect_of_returned (run.held rfl) returns).attempts_isPrefix
  | stopped event server fault alive ofMain carries enabled stops =>
    have hserved := hconsistent.served
    rw [alive] at hserved
    cases hserved with
    | alive run =>
      exact hconsistent.serve ofMain carries (.ended run enabled stops)
        (halt_of_stopped (run.held rfl) stops).attempts_isPrefix
  | connect session username answer absent =>
    obtain ⟨written, hwrote⟩ := @Client.connect_wrote toChars username answer
    have hsaid : system.said session ++ [username] = [username] := by
      rw [hconsistent.silent session absent, List.nil_append]
    refine hconsistent.move (hsaid ▸ hwrote) ?_ ?_
    · rw [System.outgoing, absent]
      exact List.nil_prefix
    · rw [System.CarriesDown, (Client.connect_keeps username answer).2]
      exact List.nil_prefix
  | act session event client next present steps carries =>
    obtain ⟨written, hwrote⟩ := hconsistent.wrote session client present
    obtain ⟨more, hmore⟩ := Client.step_wrote hwrote steps
    refine hconsistent.move hmore ?_ carries
    rw [System.outgoing, present]
    exact (Client.step_keeps steps).2

/-- Everything is consistent in every state that can be reached. -/
theorem consistent_of_reachable (hreachable : (chat strtod toChars network).Reachable system) :
    system.Consistent strtod network := by
  refine hreachable.invariant ?_ fun hconsistent hstep ↦ consistent_step hconsistent hstep
  rintro first ⟨maxClients, rfl⟩
  exact consistent_initial maxClients

end Consistent

/-! ### The documents of one client -/

section Documents

variable {strtod : Bytes → Double} {username : Bytes} {messages : List Bytes}

/-- What begins where the document of a message begins, begins with a brace. -/
theorem head?_of_beginning {part : Bytes} (hpart : part ≠ [])
    (hbeginning : part <+: (messages.map (Parser.document username)).flatten) :
    part.head? = some 123 := by
  obtain ⟨more, hmore⟩ := hbeginning
  cases messages with
  | nil => exact absurd (List.append_eq_nil_iff.mp hmore).1 hpart
  | cons message messages =>
    have hhead := congrArg List.head? hmore
    rw [List.head?_append_of_ne_nil _ hpart, List.map_cons, List.flatten_cons, List.head?_append,
      Parser.document_head] at hhead
    exact hhead

/-- The call for the document of a message carries it and the name. -/
theorem chunkCall_of_valid {message : Bytes} (husername : IsUtf8 username)
    (hmessage : IsUtf8 message) :
    chunkCall (Parser.parse strtod) (Parser.document username message) =
      [.ok (message, username)] := by
  unfold chunkCall parsedMessage
  rw [if_neg (not_isBlankChunk_of_head (Parser.document_head username message)),
    Parser.parse_document husername hmessage, Option.getD_some, messageFields_envelope]

/-- Whatever begins where the document of a message begins and is another chunk is rejected. -/
theorem apart_documents
    (hvalid : ∀ message ∈ messages, IsUtf8 username ∧ IsUtf8 message) :
    Apart (fun chunk ↦ chunkCall (Parser.parse strtod) chunk = [.error .exception])
      (messages.map (Parser.document username)) := by
  induction messages with
  | nil => exact .nil
  | cons message messages ih =>
    obtain ⟨⟨husername, hmessage⟩, hrest⟩ := List.forall_mem_cons.mp hvalid
    refine .cons (fun chunk hchunk hne hbeginning ↦ ?_) (ih hrest)
    have hhead : chunk.head? = some 123 :=
      @head?_of_beginning username (message :: messages) chunk hchunk hbeginning
    refine chunkCall_of_rejected hhead ?_
    rcases List.prefix_or_prefix_of_prefix hbeginning (List.prefix_append _ _) with
      hpart | ⟨extra, rfl⟩
    · exact Parser.parse_part_document husername hmessage hpart hne
    · rw [List.prefix_append_right_inj] at hbeginning
      have hextra : extra ≠ [] := by
        rintro rfl
        exact hne (List.append_nil _)
      exact Parser.parse_document_append husername hmessage (head?_of_beginning hextra hbeginning)

/-- The calls for the documents of messages carry them. -/
theorem flatMap_chunkCall_documents
    (hvalid : ∀ message ∈ messages, IsUtf8 username ∧ IsUtf8 message) :
    (messages.map (Parser.document username)).flatMap (chunkCall (Parser.parse strtod)) =
      messages.map fun message ↦ .ok (message, username) := by
  induction messages with
  | nil => rfl
  | cons message messages ih =>
    obtain ⟨⟨husername, hmessage⟩, hrest⟩ := List.forall_mem_cons.mp hvalid
    rw [List.map_cons, List.flatMap_cons, chunkCall_of_valid husername hmessage, ih hrest]
    rfl

/-- Chunks that are documents of first messages give the calls that carry these messages. -/
theorem exists_handled {said : List Bytes} {chunks : List Bytes} (hbegins : messages <+: said)
    (hvalid : ∀ message ∈ messages, IsUtf8 username ∧ IsUtf8 message)
    (hfits : ∀ chunk ∈ chunks, 1 ≤ chunk.length ∧ chunk.length ≤ 1024)
    (hchunks : chunks <+: messages.map (Parser.document username)) :
    ∃ handled, handled <+: said ∧
      (∀ message ∈ handled, IsUtf8 message ∧
        (Parser.document username message).length ≤ 1024) ∧
      chunks.flatMap (chunkCall (Parser.parse strtod)) =
        handled.map fun message ↦ .ok (message, username) := by
  have htake : chunks = (messages.take chunks.length).map (Parser.document username) := by
    rw [List.map_take]
    exact List.prefix_iff_eq_take.mp hchunks
  have hmember : ∀ message ∈ messages.take chunks.length, message ∈ messages :=
    fun message ↦ List.mem_of_mem_take
  have hcalls := @flatMap_chunkCall_documents strtod username (messages.take chunks.length)
    fun message htaken ↦ hvalid message (hmember message htaken)
  rw [← htake] at hcalls
  refine ⟨messages.take chunks.length, (List.take_prefix _ _).trans hbegins, ?_, hcalls⟩
  intro message htaken
  refine ⟨(hvalid message (hmember message htaken)).2, (hfits _ ?_).2⟩
  rw [htake]
  exact List.mem_map_of_mem htaken

end Documents

/-! ### The calls for one client -/

section Calls

variable {parse : Bytes → Option Json} {strtod : Bytes → Double} {toChars : Double → Bytes}
  {network : Network} {system : System} {fault : Option Fault} {events : List Server.Event}
  {server : Server.State} {session : SessionId} {chunk : Bytes} {before later : List Bytes}

/-- An event gives a read handler one chunk at most. -/
theorem eq_of_chunkOf {event : Server.Event}
    (hchunk : event.chunkOf session = before ++ chunk :: later) :
    event = .runRead session (.data chunk) ∧ later = [] := by
  unfold Event.chunkOf at hchunk
  split at hchunk
  · split_ifs at hchunk with hsame
    · rw [hsame]
      obtain ⟨rfl, hlast⟩ := List.append_eq_singleton_iff.mp hchunk.symm |>.resolve_right
        fun hnone ↦ List.cons_ne_nil _ _ hnone.2
      obtain ⟨rfl, rfl⟩ := List.cons.inj hlast
      exact ⟨rfl, rfl⟩
    · exact absurd hchunk.symm (by simp)
  · exact absurd hchunk.symm (by simp)

/-- A chunk whose call could not be read is the last one that the session's handlers were given, and
the server has ended with its fault. -/
theorem Served.last_of_error (hserved : Served parse network fault events server) {given : Fault}
    (hchunks : chunksRead session events = before ++ chunk :: later)
    (hcall : chunkCall parse chunk = [.error given]) : later = [] ∧ fault = some given := by
  have hnever : ∀ {maxClients events server},
      Run parse network (initial maxClients) events server →
        chunk ∉ chunksRead session events := by
    intro maxClients events server hrun hmember
    obtain ⟨fields, hfields⟩ := hrun.callsFrom_ok rfl session (.error given)
      (List.mem_flatMap.mpr ⟨chunk, hmember, hcall ▸ List.mem_singleton.mpr rfl⟩)
    cases hfields
  cases hserved with
  | alive run =>
    exact absurd (hchunks ▸ List.mem_append_right before List.mem_cons_self) (hnever run)
  | @ended maxClients events middle _ event fault run enabled stops =>
    rw [chunksRead, List.flatMap_append, List.flatMap_singleton] at hchunks
    have hlast : ∃ part, event.chunkOf session = part ++ chunk :: later := by
      rcases List.append_eq_append_iff.mp hchunks with ⟨part, -, hpart⟩ | ⟨part, hread, hpart⟩
      · exact ⟨part, hpart⟩
      · cases part with
        | nil => exact ⟨[], hpart.symm⟩
        | cons first rest =>
          obtain ⟨rfl, -⟩ := List.cons.inj hpart
          have hmember : chunk ∈ chunksRead session events := by
            rw [chunksRead, hread]
            exact List.mem_append_right before List.mem_cons_self
          exact absurd hmember (hnever run)
    obtain ⟨part, hpart⟩ := hlast
    obtain ⟨hevent, hlater⟩ := eq_of_chunkOf hpart
    exact ⟨hlater, congrArg some
      ((halt_of_stopped (run.held rfl) stops).fault_eq hevent hcall)⟩

/-- What the handlers of a session have been given is the beginning of the documents of the first
messages of its client. -/
theorem System.Consistent.stream (hconsistent : system.Consistent strtod network)
    (session : SessionId) :
    ∃ written, written <+: system.said session ∧
      (∀ message ∈ written, IsUtf8 (system.name session) ∧ IsUtf8 message) ∧
      (chunksRead session system.events).flatten <+:
        (written.map (Parser.document (system.name session))).flatten := by
  obtain ⟨maxClients, hends⟩ := hconsistent.served.ends
  have hread : (chunksRead session system.events).flatten <+: system.outgoing session := by
    obtain ⟨more, hmore⟩ := hends.chunksRead_isPrefix session
    refine List.IsPrefix.trans ⟨more.flatten, ?_⟩ (hconsistent.carriedUp session)
    rw [← hmore, List.flatten_append]
  cases hclient : system.client session with
  | none =>
    refine ⟨[], List.nil_prefix, fun _ hnone ↦ absurd hnone List.not_mem_nil, ?_⟩
    rw [System.outgoing, hclient] at hread
    exact hread
  | some client =>
    obtain ⟨written, hwrote⟩ := hconsistent.wrote session client hclient
    have hname : system.name session = client.username := by
      rw [System.name, hclient]
      rfl
    rw [System.outgoing, hclient] at hread
    rw [hname]
    exact ⟨written, hwrote.begins, hwrote.valid, hread.trans hwrote.stream⟩

/-- The calls for a session carry the first messages of its client, and one more call ends the
server. -/
theorem System.Consistent.calls (hconsistent : system.Consistent strtod network)
    (session : SessionId) :
    ∃ handled ended, handled <+: system.said session ∧
      (∀ message ∈ handled, IsUtf8 message ∧
        (Parser.document (system.name session) message).length ≤ 1024) ∧
      system.server.callsFrom session =
        handled.map (fun message ↦ .ok (message, system.name session)) ++ ended ∧
      (ended = [] ∨ ended = [.error .exception] ∧ system.fault = some .exception) := by
  obtain ⟨maxClients, hends⟩ := hconsistent.served.ends
  obtain ⟨written, hbegins, hvalid, hstream⟩ := hconsistent.stream session
  have hlength := hends.chunksRead_length session
  have hnonempty : ∀ chunk ∈ chunksRead session system.events, chunk ≠ [] := by
    rintro chunk hmember rfl
    cases (hlength [] hmember).1
  rw [hends.callsFrom rfl rfl session]
  rcases (apart_documents hvalid).split hnonempty hstream with
    hall | ⟨whole, chunk, later, hchunks, hfirst, hrejected⟩
  · obtain ⟨handled, hsaid, hfits, hcalls⟩ := exists_handled hbegins hvalid hlength hall
    exact ⟨handled, [], hsaid, hfits, hcalls.trans (List.append_nil _).symm, Or.inl rfl⟩
  · obtain ⟨rfl, hfault⟩ := hconsistent.served.last_of_error hchunks hrejected
    obtain ⟨handled, hsaid, hfits, hcalls⟩ := exists_handled hbegins hvalid
      (fun other hother ↦ hlength other (hchunks ▸ List.mem_append_left [chunk] hother)) hfirst
    refine ⟨handled, [.error .exception], hsaid, hfits, ?_, Or.inr ⟨rfl, hfault⟩⟩
    rw [hchunks, List.flatMap_append, List.flatMap_singleton, hcalls, hrejected]

/-- The calls of a client leave its session with its name, unless they are all direct messages. -/
theorem nameAfter_handled {username : Bytes} (handled : List Bytes)
    {ended : List (Except Fault (Bytes × Bytes))}
    (hended : ended = [] ∨ ended = [.error .exception]) :
    nameAfter (handled.map (fun message ↦ .ok (message, username)) ++ ended) =
      if handled.all (fun message ↦ dmCommand.isPrefixOf message) = true then [] else username := by
  have hfold : ∀ stored, stored = [] ∨ stored = username →
      (handled.map fun message ↦ Except.ok (message, username)).foldl storedAfter stored =
        if handled.all (fun message ↦ dmCommand.isPrefixOf message) = true then stored
        else username := by
    induction handled with
    | nil => exact fun _ _ ↦ rfl
    | cons message handled ih =>
      intro stored hstored
      rw [List.map_cons, List.foldl_cons, List.all_cons]
      cases hcommand : dmCommand.isPrefixOf message with
      | true =>
        rw [storedAfter_eq_self (Or.inl hcommand), ih stored hstored, Bool.true_and]
      | false =>
        have hnext : storedAfter stored (.ok (message, username)) = username := by
          rcases hstored with rfl | rfl
          · exact if_pos ⟨rfl, hcommand⟩
          · exact ite_self stored
        rw [hnext, ih username (Or.inr rfl), ite_self, Bool.false_and]
        rfl
  have hnothing : ∀ stored, ended.foldl storedAfter stored = stored := by
    rintro stored
    rcases hended with rfl | rfl <;> rfl
  rw [nameAfter, List.foldl_append, hnothing, hfold [] (Or.inl rfl)]

/-- In every state of the chat: the calls of `handleMessage` for a session are the first messages
that its client was given to send, in order and each once, under the name its user typed; each of
these messages has a document that fits one read. If there is another call, it is the last one, it
carries nothing, and the server has ended by an exception. The name stored for the session is the
one its user typed, or none while all these messages are direct ones. -/
theorem handledInOrder (hreachable : (chat strtod toChars network).Reachable system)
    (session : SessionId) :
    ∃ handled, handled <+: system.said session ∧
      (∀ message ∈ handled, IsUtf8 message ∧
        (Parser.document (system.name session) message).length ≤ 1024) ∧
      (system.server.callsFrom session =
          handled.map (fun message ↦ .ok (message, system.name session)) ∨
        system.fault = some .exception ∧ system.server.callsFrom session =
          handled.map (fun message ↦ .ok (message, system.name session)) ++
            [.error .exception]) ∧
      system.server.username session =
        if handled.all (fun message ↦ dmCommand.isPrefixOf message) = true then []
        else system.name session := by
  have hconsistent := consistent_of_reachable hreachable
  obtain ⟨maxClients, hends⟩ := hconsistent.served.ends
  obtain ⟨handled, ended, hsaid, hfits, hcalls, hended⟩ := hconsistent.calls session
  have hname := @nameAfter_handled (system.name session) handled ended (hended.imp_right And.left)
  rw [← hcalls, ← hends.username session] at hname
  refine ⟨handled, hsaid, hfits, ?_, hname⟩
  rcases hended with rfl | ⟨rfl, hfault⟩
  · exact Or.inl (hcalls.trans (List.append_nil _))
  · exact Or.inr ⟨hfault, hcalls⟩

end Calls

/-- The next connection is accepted and handed to its handler. -/
def admission : List Move :=
  [.serve (.acceptCompletes .success), .serve (.runAccept .success)]

/-- The document of a message is read in one piece and handled. -/
def hearing (session : SessionId) (username message : Bytes) : List Move :=
  [.serve (.readCompletes session (.data (Parser.document username message))),
    .serve (.runRead session (.data (Parser.document username message)))]

/-- Ann connects, Ben connects, and Ann says `hi`, while Ben's client waits in `read_some` and a
message of Ben fails to be written. It still reads what Ann says, in one piece with the announcement
of his name. -/
def greeting : List Move :=
  [.serve .start, .connect 0 (ascii "ann") .whole] ++ admission ++
    hearing 0 (ascii "ann") (ascii "ann") ++ [.connect 1 (ascii "ben") .whole] ++ admission ++
    hearing 1 (ascii "ben") (ascii "ben") ++ [.act 0 (.send (ascii "hi") .whole)] ++
    hearing 0 (ascii "ann") (ascii "hi") ++
    [.act 1 .testConnected, .act 1 (.send (ascii "hello") (.cut 3)), .act 1 (.readSome
      (.data (joinedLine (ascii "ben") ++ chatLine (ascii "ann") (ascii "hi"))))]

/-- The chat in which this has happened. -/
def greeted : System :=
  ((chat (fun _ ↦ 0) (fun _ ↦ []) reliable).run greeting { server := initial 10 }).getD
    { server := initial 10 }

/-- It can be reached. -/
theorem reachable_greeted : (chat (fun _ ↦ 0) (fun _ ↦ []) reliable).Reachable greeted := by
  have hsome : ((chat (fun _ ↦ 0) (fun _ ↦ []) reliable).run greeting
      { server := initial 10 }).isSome = true := by decide
  obtain ⟨system, hsystem⟩ := Option.isSome_iff_exists.mp hsome
  refine ⟨_, greeting, ⟨10, rfl⟩, ?_⟩
  rw [greeted, hsystem, Option.getD_some]

/-- Both messages of Ann have been handled, in their order and under her name. -/
theorem handledInOrder_of_greeting :
    (chat (fun _ ↦ 0) (fun _ ↦ []) reliable).Reachable greeted ∧ greeted.server.callsFrom 0 =
        [.ok (ascii "ann", ascii "ann"), .ok (ascii "hi", ascii "ann")] ∧
      ∃ handled, handled <+: greeted.said 0 ∧
        (∀ message ∈ handled, IsUtf8 message ∧
          (Parser.document (greeted.name 0) message).length ≤ 1024) ∧
        (greeted.server.callsFrom 0 =
            handled.map (fun message ↦ .ok (message, greeted.name 0)) ∨
          greeted.fault = some .exception ∧ greeted.server.callsFrom 0 =
            handled.map (fun message ↦ .ok (message, greeted.name 0)) ++ [.error .exception]) ∧
        greeted.server.username 0 =
          if handled.all (fun message ↦ dmCommand.isPrefixOf message) = true then []
          else greeted.name 0 :=
  ⟨reachable_greeted, by decide, handledInOrder reachable_greeted 0⟩

end KoboldKhat.Chat
