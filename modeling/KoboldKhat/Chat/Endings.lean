import KoboldKhat.Chat.Lines

/-!
# What ends the server

`main` of the server catches the exceptions of the handlers only after the reactor has left them,
and a broadcast with a write that fails locks the mutex it holds, so that some ordinary things end
the server. `System.Breaks` names them in terms of the whole chat: the peer of a new connection is
gone already; a read brings something else than one whole document of its client; a direct message
names nobody who is there; a write of an announcement, a relayed message or a departure fails. Each
comes with the fault in which the server ends.

There are no others. A run of the chat leaves the server ended by a fault exactly if one of its
moves met such a cause, with this fault, in the state in which it was made (`serverEnds_iff`). So
the clients end the server only through TCP, which may join two documents or cut one, and through
direct messages to nobody.
-/

set_option autoImplicit false
set_option relaxedAutoImplicit false

namespace KoboldKhat.Chat

open Library Server

/-! ### The causes -/

/-- A write of a broadcast of a line would fail. -/
def Misses (network : Network) (server : Server.State) (line : Bytes)
    (excludeSocket : Option SessionId) : Prop :=
  ∃ attempt ∈ server.broadcastAttempts network line excludeSocket, attempt.ok = false

/-- What can go wrong with a message of a client when it is handled, and the fault it ends in. -/
inductive MessageBreaks (network : Network) (server : Server.State) (session : SessionId)
    (name message : Bytes) : Fault → Prop
  /-- It is a direct message, and nobody has the name of its recipient. -/
  | unknown (command : dmCommand.isPrefixOf message = true)
      (nobody : server.firstNamed (parseDirectMessage message).1 = none) :
      MessageBreaks network server session name message .invalidAccess
  /-- It brings the session its name, and the announcement misses somebody. -/
  | announcement (plain : dmCommand.isPrefixOf message = false)
      (unnamed : server.username session = [])
      (misses : Misses network server (joinedLine name) none) :
      MessageBreaks network server session name message .relocked
  /-- It is relayed under the name of the session, and misses somebody. -/
  | relay (plain : dmCommand.isPrefixOf message = false) (named : server.username session ≠ [])
      (misses : Misses network server (chatLine name message) (some session)) :
      MessageBreaks network server session name message .relocked

/-- The move ends the server, in the fault. -/
inductive System.Breaks (network : Network) (system : System) : Move → Fault → Prop
  /-- There is room for a connection, but its peer is gone when its address is asked for. -/
  | peerGone (room : system.server.clients.length < system.server.maxClients)
      (gone : network.peerKnown system.server.accepted = false) :
      Breaks network system (.serve (.runAccept .success)) .exception
  /-- A read brought something else than one whole document of the client. -/
  | cut (session : SessionId) (chunk : Bytes)
      (notWhole : ∀ message ∈ system.said session, IsUtf8 message →
        chunk ≠ Parser.document (system.name session) message) :
      Breaks network system (.serve (.runRead session (.data chunk))) .exception
  /-- A read brought the document of a message, and the message goes wrong. -/
  | message (session : SessionId) (message : Bytes) (fault : Fault)
      (given : message ∈ system.said session) (valid : IsUtf8 message)
      (breaks : MessageBreaks network system.server session (system.name session) message fault) :
      Breaks network system
        (.serve (.runRead session (.data (Parser.document (system.name session) message)))) fault
  /-- A read failed, and the announcement of the departure misses somebody. -/
  | departure (session : SessionId) (named : system.server.username session ≠ [])
      (misses : Misses network system.server (disconnectedLine (system.name session))
        (some session)) :
      Breaks network system (.serve (.runRead session .error)) .relocked

section Causes

variable {parse : Bytes → Option Json} {network : Network} {state after : Server.State}
  {session : SessionId} {chunk message newUsername line : Bytes} {fault : Fault}

/-- A broadcast misses somebody exactly if not all its writes succeed. -/
theorem misses_iff {excludeSocket : Option SessionId} :
    Misses network state line excludeSocket ↔
      (state.broadcastAttempts network line excludeSocket).all Attempt.ok = false := by
  rw [Misses, List.all_eq_false]
  simp only [Bool.not_eq_true]

/-- A handler that returned from a chunk that carries a message handled the message. -/
theorem exists_effect_of_call
    (heffect : Effect parse network state (.runRead session (.data chunk)) after)
    (hcall : chunkCall parse chunk = [.ok (message, newUsername)]) :
    ∃ middle, MessageEffect network (((Event.runRead session (.data chunk)).prepare state).noteCall
      session (parsedMessage parse chunk)) message newUsername session middle := by
  cases heffect with
  | blank _ _ isBlank =>
    rw [chunkCall, if_pos isBlank] at hcall
    cases hcall
  | message _ _ given name middle notBlank fields effect =>
    rw [chunkCall, if_neg notBlank, fields] at hcall
    cases hcall
    exact ⟨middle, effect⟩

end Causes

/-! ### The chunks of a client -/

section Step

variable {strtod : Bytes → Double} {toChars : Double → Bytes} {network : Network}
  {system after : System} {session : SessionId} {chunk message : Bytes} {move : Move}
  {fault : Fault}

/-- A chunk that a handler was given is the document of a message of its client, or its call carries
nothing. -/
theorem System.Consistent.wholeOrRejected (hconsistent : system.Consistent strtod network)
    (hread : chunk ∈ chunksRead session system.events) :
    IsUtf8 (system.name session) ∧
      ((∃ message ∈ system.said session, IsUtf8 message ∧
          chunk = Parser.document (system.name session) message) ∨
        chunkCall (Parser.parse strtod) chunk = [.error .exception]) := by
  obtain ⟨maxClients, hends⟩ := hconsistent.served.ends
  obtain ⟨written, hbegins, hvalid, hstream⟩ := hconsistent.stream session
  have hnonempty : ∀ other ∈ chunksRead session system.events, other ≠ [] := by
    rintro other hmember rfl
    cases (hends.chunksRead_length session [] hmember).1
  have hname : IsUtf8 (system.name session) := by
    cases written with
    | nil =>
      have hnothing : (chunksRead session system.events).flatten = [] := List.prefix_nil.mp hstream
      exact absurd (List.flatten_eq_nil_iff.mp hnothing chunk hread) (hnonempty chunk hread)
    | cons message written => exact (hvalid message List.mem_cons_self).1
  have hdocument : ∀ other ∈ written.map (Parser.document (system.name session)),
      ∃ message ∈ system.said session, IsUtf8 message ∧
        other = Parser.document (system.name session) message := by
    intro other hother
    obtain ⟨message, hmessage, rfl⟩ := List.mem_map.mp hother
    exact ⟨message, hbegins.subset hmessage, (hvalid message hmessage).2, rfl⟩
  refine ⟨hname, ?_⟩
  rcases (apart_documents hvalid).split hnonempty hstream with
    hall | ⟨whole, last, later, hchunks, hfirst, hrejected⟩
  · exact Or.inl (hdocument chunk (hall.subset hread))
  · obtain ⟨rfl, -⟩ := hconsistent.served.last_of_error hchunks hrejected
    rw [hchunks] at hread
    rcases List.mem_append.mp hread with hwhole | hlast
    · exact Or.inl (hdocument chunk (hfirst.subset hwhole))
    · obtain rfl := List.mem_singleton.mp hlast
      exact Or.inr hrejected

/-- The chunk of a handler that has just run is the document of a message of its client, or its call
carries nothing. -/
theorem wholeOrRejected_of_served {server : Server.State} {ended : Option Fault}
    (hconsistent : (system.served (.runRead session (.data chunk)) server ended).Consistent strtod
      network) :
    IsUtf8 (system.name session) ∧
      ((∃ message ∈ system.said session, IsUtf8 message ∧
          chunk = Parser.document (system.name session) message) ∨
        chunkCall (Parser.parse strtod) chunk = [.error .exception]) := by
  have hread : chunk ∈ chunksRead session
      (system.events ++ [.runRead session (.data chunk)]) := by
    rw [chunksRead, List.flatMap_append, List.flatMap_singleton, Event.chunkOf, if_pos rfl]
    exact List.mem_append_right _ (List.mem_singleton.mpr rfl)
  exact hconsistent.wholeOrRejected hread

/-! ### One move -/

/-- The state in which the message of a chunk is handled. -/
def handling (strtod : Bytes → Double) (server : Server.State) (session : SessionId)
    (chunk : Bytes) : Server.State :=
  ((Event.runRead session (.data chunk)).prepare server).noteCall session
    (parsedMessage (Parser.parse strtod) chunk)

/-- The handling of a message stops only where one of the causes is met. -/
theorem messageBreaks_of_halt {server last : Server.State}
    (hname : server.username session ≠ [] → server.username session = system.name session)
    (hhalt : MessageHalt network (handling strtod server session chunk) message
      (system.name session) session fault last) :
    MessageBreaks network server session (system.name session) message fault := by
  cases hhalt with
  | notFound command none => exact .unknown command none
  | register command unnamed failed => exact .announcement command unnamed (misses_iff.mpr failed)
  | chat command named failed =>
    refine .relay command named (misses_iff.mpr ?_)
    rw [← hname named]
    exact failed

/-- Where a cause is met, the handling of the message does not return. -/
theorem not_messageEffect_of_breaks {server last : Server.State}
    (hname : server.username session ≠ [] → server.username session = system.name session)
    (hbreaks : MessageBreaks network server session (system.name session) message fault) :
    ¬ MessageEffect network (handling strtod server session chunk) message
      (system.name session) session last := by
  intro heffect
  cases hbreaks with
  | unknown command nobody =>
    cases heffect with
    | direct receiver _ found => cases nobody.symm.trans found
    | register plain _ _ => cases command.symm.trans plain
    | chat plain _ _ => cases command.symm.trans plain
  | announcement plain unnamed misses =>
    cases heffect with
    | direct receiver command _ => cases command.symm.trans plain
    | register _ _ sent => cases (misses_iff.mp misses).symm.trans sent
    | chat _ named _ => exact named unnamed
  | relay plain named misses =>
    cases heffect with
    | direct receiver command _ => cases command.symm.trans plain
    | register _ unnamed _ => exact named unnamed
    | chat _ _ sent =>
      rw [← hname named] at misses
      cases (misses_iff.mp misses).symm.trans sent

/-- The cause that is met determines the fault. -/
theorem MessageBreaks.unique {server : Server.State} {name : Bytes} {other : Fault}
    (hbreaks : MessageBreaks network server session name message fault)
    (hother : MessageBreaks network server session name message other) : fault = other := by
  cases hbreaks with
  | unknown command nobody =>
    cases hother with
    | unknown _ _ => rfl
    | announcement plain _ _ => cases command.symm.trans plain
    | relay plain _ _ => cases command.symm.trans plain
  | announcement plain _ _ =>
    cases hother with
    | unknown command _ => cases command.symm.trans plain
    | announcement _ _ _ => rfl
    | relay _ _ _ => rfl
  | relay plain _ _ =>
    cases hother with
    | unknown command _ => cases command.symm.trans plain
    | announcement _ _ _ => rfl
    | relay _ _ _ => rfl

/-- Nobody is missed by the announcement of a departure exactly if all its writes succeed. -/
theorem departure_all_ok_iff {server : Server.State}
    (hname : server.username session ≠ [] → server.username session = system.name session) :
    (server.departureAttempts network session).all Attempt.ok = false ↔
      server.username session ≠ [] ∧
        Misses network server (disconnectedLine (system.name session)) (some session) := by
  rw [State.departureAttempts, misses_iff]
  split_ifs with hunnamed
  · simp [hunnamed]
  · rw [← hname hunnamed]
    exact (and_iff_right hunnamed).symm

/-- While the server lives, its mutex is free between the events. -/
theorem System.Consistent.held (hconsistent : system.Consistent strtod network)
    (halive : system.fault = none) : system.server.held = 0 := by
  have hserved := hconsistent.served
  rw [halive] at hserved
  cases hserved with
  | alive run => exact run.held rfl

/-- An event that stopped met a cause of its fault. -/
theorem breaks_of_stopped (hconsistent : system.Consistent strtod network)
    {event : Server.Event} {server : Server.State}
    (hafter : (system.served event server (some fault)).Consistent strtod network)
    (hmain : OfMain event) (hhalt : Halt (Parser.parse strtod) network system.server event fault
      server) :
    system.Breaks network (.serve event) fault := by
  cases hhalt with
  | peerGone room unknown => exact .peerGone room unknown
  | depart client failed =>
    obtain ⟨hnamed, hmisses⟩ := (departure_all_ok_iff hconsistent.named).mp failed
    exact .departure client hnamed hmisses
  | fields client chunk fault notBlank fields =>
    obtain ⟨hname, hchunk⟩ := wholeOrRejected_of_served hafter
    have hcall : chunkCall (Parser.parse strtod) chunk = [.error fault] := by
      rw [chunkCall, if_neg notBlank, fields]
    have hnotWhole : ∀ message ∈ system.said client, IsUtf8 message →
        chunk ≠ Parser.document (system.name client) message := by
      rintro message - hmessage hdocument
      rw [hdocument, chunkCall_of_valid hname hmessage] at hcall
      cases hcall
    rcases hchunk with ⟨message, hgiven, hmessage, hdocument⟩ | hrejected
    · exact absurd hdocument (hnotWhole message hgiven hmessage)
    · cases hcall.symm.trans hrejected
      exact .cut client chunk hnotWhole
  | message client chunk message newUsername fault middle notBlank fields halt =>
    obtain ⟨hname, hchunk⟩ := wholeOrRejected_of_served hafter
    have hcall : chunkCall (Parser.parse strtod) chunk = [.ok (message, newUsername)] := by
      rw [chunkCall, if_neg notBlank, fields]
    rcases hchunk with ⟨given, hgiven, hvalid, hdocument⟩ | hrejected
    · rw [hdocument, chunkCall_of_valid hname hvalid] at hcall
      cases hcall
      rw [hdocument]
      exact .message client message fault hgiven hvalid
        (messageBreaks_of_halt hconsistent.named halt)
    · cases hcall.symm.trans hrejected
  | broadcast _ _ _ => exact absurd hmain id

/-- When the handler of a chunk ends the server. -/
theorem breaks_data_iff : system.Breaks network (.serve (.runRead session (.data chunk))) fault ↔
    (fault = .exception ∧ ∀ message ∈ system.said session, IsUtf8 message →
      chunk ≠ Parser.document (system.name session) message) ∨
    ∃ message ∈ system.said session, IsUtf8 message ∧
      chunk = Parser.document (system.name session) message ∧
      MessageBreaks network system.server session (system.name session) message fault := by
  constructor
  · intro hbreaks
    generalize hmove : Move.serve (.runRead session (.data chunk)) = move at hbreaks
    cases hbreaks with
    | cut reader other notWhole =>
      cases hmove
      exact Or.inl ⟨rfl, notWhole⟩
    | message reader message fault given valid breaks =>
      cases hmove
      exact Or.inr ⟨message, given, valid, rfl, breaks⟩
    | _ => cases hmove
  · rintro (⟨rfl, hnotWhole⟩ | ⟨message, hgiven, hvalid, rfl, hbreaks⟩)
    · exact .cut session chunk hnotWhole
    · exact .message session message fault hgiven hvalid hbreaks

/-- The cause that a move meets determines the fault. -/
theorem System.Breaks.unique {event : Server.Event} {server : Server.State} {ended : Option Fault}
    {other : Fault} (hbreaks : system.Breaks network (.serve event) fault)
    (hother : system.Breaks network (.serve event) other)
    (hafter : (system.served event server ended).Consistent strtod network) : fault = other := by
  cases hbreaks with
  | peerGone _ _ =>
    cases hother with
    | peerGone _ _ => rfl
  | departure _ _ _ =>
    cases hother with
    | departure _ _ _ => rfl
  | cut session chunk notWhole =>
    rcases breaks_data_iff.mp hother with ⟨rfl, -⟩ | ⟨message, hgiven, hvalid, hdocument, -⟩
    · rfl
    · exact absurd hdocument (notWhole message hgiven hvalid)
  | message session message fault given valid breaks =>
    rcases breaks_data_iff.mp hother with
      ⟨rfl, hnotWhole⟩ | ⟨again, -, hvalid, hdocument, hagain⟩
    · exact absurd rfl (hnotWhole message given valid)
    · have hname := (wholeOrRejected_of_served hafter).1
      have hsame := @chunkCall_of_valid strtod _ again hname hvalid
      rw [← hdocument, chunkCall_of_valid hname valid] at hsame
      cases hsame
      exact breaks.unique hagain

/-- An event that returned met none of the causes. -/
theorem not_breaks_of_returned (hconsistent : system.Consistent strtod network)
    {event : Server.Event} {server : Server.State}
    (hafter : (system.served event server none).Consistent strtod network)
    (heffect : Effect (Parser.parse strtod) network system.server event server) :
    ¬ system.Breaks network (.serve event) fault := by
  intro hbreaks
  cases hbreaks with
  | peerGone room gone =>
    cases heffect with
    | reject full => exact absurd room (Nat.not_lt_of_le full)
    | publish _ known => cases gone.symm.trans known
  | departure session named misses =>
    cases heffect with
    | depart _ sent =>
      cases ((departure_all_ok_iff hconsistent.named).mpr ⟨named, misses⟩).symm.trans sent
  | cut session chunk notWhole =>
    rcases (wholeOrRejected_of_served hafter).2 with
      ⟨message, hgiven, hvalid, hdocument⟩ | hrejected
    · exact notWhole message hgiven hvalid hdocument
    · have hcall : .error .exception ∈ ((Event.runRead session (.data chunk)).chunkOf
          session).flatMap (chunkCall (Parser.parse strtod)) := by
        rw [Event.chunkOf, if_pos rfl, List.flatMap_singleton, hrejected]
        exact List.mem_singleton.mpr rfl
      obtain ⟨fields, hfields⟩ := heffect.chunkCall_ok _ hcall
      cases hfields
  | message session message fault given valid breaks =>
    have hname := (wholeOrRejected_of_served hafter).1
    obtain ⟨middle, hmessage⟩ := exists_effect_of_call heffect (chunkCall_of_valid hname valid)
    exact not_messageEffect_of_breaks hconsistent.named breaks hmessage

/-- After a move that is made, the server has ended in a fault exactly if it had before or the move
met a cause of this fault. -/
theorem fault_step_iff (hconsistent : system.Consistent strtod network)
    (hstep : system.step strtod toChars network move = some after) :
    after.fault = some fault ↔ system.fault = some fault ∨ system.Breaks network move fault := by
  have hafter := consistent_step hconsistent hstep
  cases stepped_of_step hstep with
  | returned event server alive ofMain carries enabled returns =>
    have hfree : system.server.held = 0 := hconsistent.held alive
    have heffect := effect_of_returned hfree returns
    have hnot := @not_breaks_of_returned _ _ _ fault hconsistent event server hafter heffect
    rw [alive]
    exact ⟨fun hended ↦ absurd hended (by simp [System.served]),
      fun hended ↦ absurd (hended.resolve_left (by simp)) hnot⟩
  | stopped event server given alive ofMain carries enabled stops =>
    have hfree : system.server.held = 0 := hconsistent.held alive
    have hbreaks := breaks_of_stopped hconsistent hafter ofMain (halt_of_stopped hfree stops)
    rw [alive]
    constructor
    · intro hended
      obtain rfl : given = fault := Option.some.inj hended
      exact Or.inr hbreaks
    · rintro (hended | hcause)
      · cases hended
      · exact congrArg some (hbreaks.unique hcause hafter)
  | connect session username answer absent =>
    exact (or_iff_left fun hcause ↦ by cases hcause).symm
  | act session event client next present steps carries =>
    exact (or_iff_left fun hcause ↦ by cases hcause).symm

end Step

/-! ### Runs -/

/-- At the end of a run of the chat, the server has ended in a fault exactly if one of the moves met
a cause of this fault in the state in which it was made. -/
theorem serverEnds_iff {strtod : Bytes → Double} {toChars : Double → Bytes} {network : Network}
    {first last : System} {moves : List Move} {fault : Fault}
    (hfirst : (chat strtod toChars network).initial first)
    (hrun : (chat strtod toChars network).run moves first = some last) :
    last.fault = some fault ↔ (chat strtod toChars network).Meets
      (fun system move ↦ system.Breaks network move fault) moves first := by
  obtain ⟨maxClients, rfl⟩ := hfirst
  have hiff : last.fault = some fault ↔ ({ server := initial maxClients } : System).fault =
      some fault ∨ (chat strtod toChars network).Meets
        (fun system move ↦ system.Breaks network move fault) moves
        { server := initial maxClients } :=
    @Automaton.run_iff_meets _ _ _ _ _ _ (System.Consistent strtod network)
      (fun system ↦ system.fault = some fault) (fun system move ↦ system.Breaks network move fault)
      (fun hconsistent hstep ↦ consistent_step hconsistent hstep)
      (fun hconsistent hstep ↦ fault_step_iff hconsistent hstep) hrun
      (consistent_initial maxClients)
  exact hiff.trans (or_iff_right (by simp))

/-- The documents of Ann's name and of her `hi`, which TCP joins. -/
def joinedDocuments : Bytes :=
  Parser.document (ascii "ann") (ascii "ann") ++ Parser.document (ascii "ann") (ascii "hi")

/-- Ann connects and says `hi` before the server reads, and it reads both documents at once. -/
def haste : List Move :=
  [.serve .start, .connect 0 (ascii "ann") .whole] ++ admission ++
    [.act 0 (.send (ascii "hi") .whole),
      .serve (.readCompletes 0 (.data joinedDocuments)),
      .serve (.runRead 0 (.data joinedDocuments))]

/-- The chat after this. -/
def hurried : System :=
  ((chat (fun _ ↦ 0) (fun _ ↦ []) reliable).run haste { server := initial 10 }).getD
    { server := initial 10 }

/-- This can happen. -/
theorem run_haste :
    (chat (fun _ ↦ 0) (fun _ ↦ []) reliable).run haste { server := initial 10 } = some hurried := by
  have hsome : ((chat (fun _ ↦ 0) (fun _ ↦ []) reliable).run haste
      { server := initial 10 }).isSome = true := by decide
  obtain ⟨system, hsystem⟩ := Option.isSome_iff_exists.mp hsome
  rw [hurried, hsystem, Option.getD_some]

/-- It ends the server in an exception, and so the handler was given no whole document. -/
theorem serverEnds_iff_of_haste :
    (chat (fun _ ↦ 0) (fun _ ↦ []) reliable).run haste { server := initial 10 } = some hurried ∧
      hurried.fault = some .exception ∧ (chat (fun _ ↦ 0) (fun _ ↦ []) reliable).Meets
        (fun system move ↦ system.Breaks reliable move .exception) haste
        { server := initial 10 } :=
  have hended : hurried.fault = some .exception := by decide
  ⟨run_haste, hended, (serverEnds_iff ⟨10, rfl⟩ run_haste).mp hended⟩

end KoboldKhat.Chat
