import KoboldKhat.Chat.Calls
import KoboldKhat.Chat.Room
import KoboldKhat.Server.Trace
import Mathlib.Data.List.Nodup
import Mathlib.Data.Option.Basic

/-!
# The server keeps a room

A server under `main` that has not ended is a room in which its sessions talk: its sessions are the
members, the stored names are their names, and the lines written to a session are what this member
has heard (`Represents`). Every event that returns is one act in the room or none
(`exists_acts_of_effect`), so every run of the server is a run of the room, in which each session
speaks as its calls of `handleMessage` say (`refinesRoom`). In particular there is one order of all
that is spoken, and everybody hears its part of it in this order.

In the whole chat the calls are the messages of the clients, so the chat is a room in which the
clients speak for themselves (`chatRefinesRoom`).
-/

set_option autoImplicit false
set_option relaxedAutoImplicit false

namespace KoboldKhat.Chat

open Library Server

/-- The room of the server's sessions. Names and texts are strings, and the empty name is none. -/
abbrev ServerRoom := Room SessionId Bytes Bytes

/-- The line the server writes for what is heard. -/
def render : Line Bytes Bytes → Bytes
  | .joined name => joinedLine name
  | .said name text => chatLine name text
  | .told name text => directLine name text
  | .left name => disconnectedLine name

/-- The room is what the server's state stands for. -/
structure Represents (room : ServerRoom) (state : Server.State) : Prop where
  present : room.present = state.clients
  names : room.name = state.username
  lines : ∀ session, (room.heard session).map render = state.linesTo session

/-! ### What a session does in the room -/

/-- The act that a call of `handleMessage` for a session amounts to, under the name that is stored
for it. -/
def actOf (session : SessionId) (stored : Bytes) :
    Except Fault (Bytes × Bytes) → List (Act SessionId Bytes Bytes)
  | .ok (message, username) =>
    if dmCommand.isPrefixOf message = true then
      [.tell session (parseDirectMessage message).1 (parseDirectMessage message).2]
    else if stored = [] then [.introduce session username]
    else [.say session message]
  | .error _ => []

/-- The acts that the calls for a session amount to. -/
def actsOf (session : SessionId) :
    Bytes → List (Except Fault (Bytes × Bytes)) → List (Act SessionId Bytes Bytes)
  | _, [] => []
  | stored, call :: calls =>
    actOf session stored call ++ actsOf session (storedAfter stored call) calls

/-- What a session says among the acts of all. -/
def spokenBy (session : SessionId) (acts : List (Act SessionId Bytes Bytes)) :
    List (Act SessionId Bytes Bytes) :=
  acts.filter fun act ↦ decide (act.speaker = some session)

/-- One more call amounts to one more act. -/
theorem actsOf_concat (session : SessionId) (stored : Bytes)
    (calls : List (Except Fault (Bytes × Bytes))) (call : Except Fault (Bytes × Bytes)) :
    actsOf session stored (calls ++ [call]) =
      actsOf session stored calls ++ actOf session (calls.foldl storedAfter stored) call := by
  induction calls generalizing stored with
  | nil => exact List.append_nil _
  | cons first calls ih =>
    rw [List.cons_append, actsOf, ih, actsOf, List.append_assoc]
    rfl

/-- The session speaks in the acts of its calls. -/
theorem speaker_of_mem_actOf {session : SessionId} {stored : Bytes}
    {call : Except Fault (Bytes × Bytes)} {act : Act SessionId Bytes Bytes}
    (hact : act ∈ actOf session stored call) : act.speaker = some session := by
  cases call with
  | error fault => cases hact
  | ok fields =>
    simp only [actOf] at hact
    split_ifs at hact <;> rw [List.mem_singleton.mp hact] <;> rfl

/-- Nobody else speaks in the acts of a session's calls. -/
theorem spokenBy_actOf (session other : SessionId) (stored : Bytes)
    (call : Except Fault (Bytes × Bytes)) :
    spokenBy other (actOf session stored call) =
      if session = other then actOf session stored call else [] := by
  unfold spokenBy
  by_cases hsame : session = other
  · rw [if_pos hsame, List.filter_eq_self]
    intro act hact
    rw [speaker_of_mem_actOf hact, hsame]
    exact decide_eq_true rfl
  · rw [if_neg hsame, List.filter_eq_nil_iff]
    intro act hact
    rw [speaker_of_mem_actOf hact, decide_eq_true_eq]
    exact fun hsome ↦ hsame (Option.some.inj hsome)

/-! ### Lines that are written -/

section Lines

variable {network : Network} {state after : Server.State} {room : ServerRoom}

/-- Writes that all returned were made to every session of the loop. -/
theorem written_of_all_ok {isOpen : SessionId → Bool} {message : Bytes} {number : ℕ}
    {targets : List SessionId}
    (hsent : (sendUntilFailure network isOpen message number targets).all Attempt.ok = true) :
    (sendUntilFailure network isOpen message number targets).map
      (fun attempt ↦ (attempt.client, attempt.message)) =
        targets.map fun client ↦ (client, message) := by
  induction targets generalizing number with
  | nil => rfl
  | cons client rest ih =>
    rw [sendUntilFailure, List.all_cons, Bool.and_eq_true] at hsent
    obtain ⟨hok, hrest⟩ := hsent
    rw [if_pos hok] at hrest
    simp only [sendUntilFailure, if_pos hok, List.map_cons, attemptOf_client, attemptOf_message]
    rw [ih hrest]

/-- The lines to a session are among the writes. -/
theorem linesTo_eq_written (state : Server.State) (session : SessionId) :
    state.linesTo session =
      (state.written.filter fun entry ↦ decide (entry.1 = session)).map Prod.snd := by
  unfold State.linesTo State.written
  rw [List.filter_map, List.map_map]
  rfl

/-- A line that is written to different sessions is a line to each of them. -/
theorem linesTo_of_written {line : Bytes} {targets : List SessionId} (hnodup : targets.Nodup)
    (hwritten : after.written = state.written ++ targets.map fun client ↦ (client, line))
    (session : SessionId) :
    after.linesTo session =
      state.linesTo session ++ if session ∈ targets then [line] else [] := by
  have htargets : ((targets.map fun client ↦ (client, line)).filter
      fun entry ↦ decide (entry.1 = session)).map Prod.snd =
        if session ∈ targets then [line] else [] := by
    rw [List.filter_map, List.map_map]
    have hfilter : targets.filter ((fun entry : SessionId × Bytes ↦ decide (entry.1 = session)) ∘
        fun client ↦ (client, line)) = if session ∈ targets then [session] else [] := by
      have hcount : targets.filter (fun client ↦ decide (client = session)) =
          List.replicate (targets.count session) session := List.filter_eq session
      rw [hnodup.count] at hcount
      refine Eq.trans hcount ?_
      split_ifs <;> rfl
    rw [hfilter]
    split_ifs <;> rfl
  rw [linesTo_eq_written, linesTo_eq_written, hwritten, List.filter_append, List.map_append,
    htargets]

/-- What is written to the sessions that hear it is heard. -/
theorem Represents.speak (hrepresents : Represents room state) {line : Line Bytes Bytes}
    {targets audience : List SessionId} (hnodup : targets.Nodup)
    (hsame : ∀ session, session ∈ audience ↔ session ∈ targets)
    (hwritten : after.written = state.written ++ targets.map fun client ↦ (client, render line))
    (hclients : after.clients = state.clients) (hnames : after.username = state.username) :
    Represents (room.speak audience line) after where
  present := hrepresents.present.trans hclients.symm
  names := hrepresents.names.trans hnames.symm
  lines := fun session ↦ by
    rw [Room.heard_speak, List.map_append, hrepresents.lines session,
      linesTo_of_written hnodup hwritten session]
    by_cases hmember : session ∈ audience
    · rw [if_pos hmember, if_pos ((hsame session).mp hmember)]
      rfl
    · rw [if_neg hmember, if_neg fun hother ↦ hmember ((hsame session).mpr hother)]
      rfl

/-- A state with the same sessions, names and writes stands for the same room. -/
theorem Represents.of_eq (hrepresents : Represents room state)
    (hclients : after.clients = state.clients) (hnames : after.username = state.username)
    (hattempts : after.attempts = state.attempts) : Represents room after where
  present := hrepresents.present.trans hclients.symm
  names := hrepresents.names.trans hnames.symm
  lines := fun session ↦ by
    rw [hrepresents.lines session]
    unfold State.linesTo
    rw [hattempts]

/-- The sessions a broadcast addresses are those that are not excluded. -/
theorem mem_addressed_some {excluded session : SessionId} {members : List SessionId} :
    session ∈ addressed (some excluded) members ↔ session ∈ members ∧ session ≠ excluded := by
  rw [addressed, List.mem_filter, decide_eq_true_eq]
  exact and_congr_right fun _ ↦ (Option.some_injective SessionId).ne_iff.trans ne_comm

/-- A broadcast without an excluded socket addresses all sessions. -/
theorem addressed_none (members : List SessionId) : addressed none members = members := by
  simp [addressed]

/-- A broadcast whose writes all returned is spoken in the room. -/
theorem Represents.broadcast (hrepresents : Represents room state)
    (hnodup : state.clients.Nodup) {line : Line Bytes Bytes} {excludeSocket : Option SessionId}
    {audience : List SessionId}
    (hsame : ∀ session, session ∈ audience ↔ session ∈ addressed excludeSocket state.clients)
    (hsent : (state.broadcastAttempts network (render line) excludeSocket).all Attempt.ok = true) :
    Represents (room.speak audience line)
      (state.record (state.broadcastAttempts network (render line) excludeSocket)) := by
  refine hrepresents.speak (hnodup.filter _) hsame ?_ rfl rfl
  rw [State.written, record_attempts, List.map_append, State.broadcastAttempts,
    written_of_all_ok hsent]
  rfl

end Lines

/-! ### One event, one act -/

/-- Only the sessions in `m_clients` have reads in flight. -/
def Attended (registry : Registry) : Prop :=
  ∀ client, client ∉ registry.clients → registry.outstandingReads client = 0

section Effects

variable {parse : Bytes → Option Json} {network : Network} {state after : Server.State}
  {event : Server.Event} {room : ServerRoom} {client : SessionId} {message newUsername : Bytes}

/-- Under `main`, an event that returns leaves no read to a session that is gone. -/
theorem attended_of_effect (hmain : OfMain event) (hregistry : state.WellFormed)
    (henabled : event.Enabled state) (heffect : Effect parse network state event after)
    (hattended : Attended state.toRegistry) : Attended after.toRegistry := by
  cases heffect with
  | readCompletes client result =>
    intro other hnot
    exact (outstandingReads_readCompletes state client other result henabled.1).trans
      (hattended other hnot)
  | publish room known =>
    intro other hnot
    have hreads := outstandingReads_startRead (((Event.runAccept .success).prepare state).publish
      state.accepted) state.accepted other
    have hmember : other ∉ state.clients ++ [state.accepted] := hnot
    rw [List.mem_append, List.mem_singleton, not_or] at hmember
    rw [if_neg hmember.2] at hreads
    exact hreads.trans (hattended other hmember.1)
  | depart client sent =>
    intro other hnot
    have hmember : other ∉ state.clients.erase client := hnot
    have hreads := outstandingReads_runRead state client other henabled
    show ((Event.runRead client .error).prepare state).outstandingReads other = 0
    by_cases hsame : other = client
    · have hle := hregistry.reads_le other
      rw [if_pos hsame] at hreads
      omega
    · rw [if_neg hsame] at hreads
      exact hreads.trans (hattended other ((List.mem_erase_of_ne hsame).not.mp hmember))
  | blank client chunk isBlank =>
    intro other hnot
    exact (outstandingReads_next henabled ⟨rfl, rfl⟩ other).trans (hattended other hnot)
  | message client chunk message newUsername middle notBlank fields effect =>
    intro other hnot
    have hsame := effect.sameSessions
    refine (outstandingReads_next henabled ⟨hsame.registry, hsame.held⟩ other).trans
      (hattended other ?_)
    exact hsame.clients ▸ hnot
  | shutdown => exact hmain.elim
  | _ => exact hattended

/-- Under `main`, the session of a completed read is in `m_clients`. -/
theorem mem_clients_of_ready (hattended : Attended state.toRegistry) {result : ReadResult}
    (hready : (client, result) ∈ state.readyReads) : client ∈ state.clients := by
  by_contra hnot
  have hreads := outstandingReads_runRead state client client hready
  rw [if_pos rfl, hattended client hnot] at hreads
  cases hreads

/-- The handling of a message by a session that is present is one act in the room. -/
theorem exists_act_of_message (hrepresents : Represents room state)
    (hmember : client ∈ state.clients) (hnodup : state.clients.Nodup)
    (heffect : MessageEffect network state message newUsername client after) :
    ∃ act later, actOf client (state.username client) (.ok (message, newUsername)) = [act] ∧
      room.step act = some later ∧ Represents later after := by
  have hpresent : client ∈ room.present := hrepresents.present ▸ hmember
  have hname : room.name client = state.username client := congrFun hrepresents.names client
  cases heffect with
  | direct receiver command found =>
    have hnamed : room.named (parseDirectMessage message).1 = some receiver := by
      rw [Room.named, hrepresents.present, hrepresents.names]
      exact found
    refine ⟨.tell client (parseDirectMessage message).1 (parseDirectMessage message).2,
      room.speak [receiver] (.told (room.name client) (parseDirectMessage message).2), ?_, ?_, ?_⟩
    · exact if_pos command
    · rw [Room.step, if_pos hpresent, hnamed]
      rfl
    · refine hrepresents.speak (List.nodup_singleton receiver) (fun _ ↦ Iff.rfl) ?_ rfl rfl
      rw [State.written, record_attempts, List.map_append, List.map_singleton, State.attempt,
        attemptOf_client, attemptOf_message, hname]
      rfl
  | register command unnamed sent =>
    refine ⟨.introduce client newUsername,
      { room with name := Function.update room.name client newUsername }.speak room.present
        (.joined newUsername), ?_, ?_, ?_⟩
    · simp [actOf, command, unnamed]
    · exact if_pos ⟨hpresent, hname.trans unnamed⟩
    · have hrenamed : Represents { room with name := Function.update room.name client newUsername }
          (state.rename client newUsername) :=
        ⟨hrepresents.present, by rw [hrepresents.names]; rfl, hrepresents.lines⟩
      refine @Represents.broadcast network _ _ hrenamed hnodup (.joined newUsername) none _ ?_ sent
      intro session
      rw [addressed_none, hrepresents.present]
      rfl
  | chat command named sent =>
    refine ⟨.say client message,
      room.speak (room.others client) (.said (room.name client) message), ?_, ?_, ?_⟩
    · simp [actOf, command, named]
    · exact if_pos ⟨hpresent, hname.trans_ne named⟩
    · rw [hname]
      refine @Represents.broadcast network _ _ hrepresents hnodup
        (.said (state.username client) message) (some client) _ ?_ sent
      intro session
      rw [mem_addressed_some, Room.others, List.mem_filter, hrepresents.present,
        decide_eq_true_eq]

/-- The removal of a session that is present is the member's departure from the room. -/
theorem represents_departure (hrepresents : Represents room state)
    (hnodup : state.clients.Nodup)
    (hsent : (state.departureAttempts network client).all Attempt.ok = true) :
    Represents (room.departure client)
      ((state.record (state.departureAttempts network client)).discard client) := by
  have hname : room.name client = state.username client := congrFun hrepresents.names client
  have hleft : ∀ {spoken : ServerRoom} {later : Server.State}, Represents spoken later →
      spoken.present = room.present → later.clients = state.clients →
      Represents { spoken with present := room.present.erase client } (later.discard client) := by
    intro spoken later hspoken _ hclients
    refine ⟨?_, hspoken.names, hspoken.lines⟩
    rw [hrepresents.present, ← hclients]
    rfl
  have hdefault : (default : Bytes) = [] := rfl
  unfold Room.departure State.departureAttempts at *
  rw [hname, hdefault]
  by_cases hnamed : state.username client = []
  · rw [if_pos hnamed, if_pos hnamed, record_nil]
    exact hleft hrepresents rfl rfl
  · rw [if_neg hnamed] at hsent
    rw [if_neg hnamed, if_neg hnamed]
    refine hleft (@Represents.broadcast network _ _ hrepresents hnodup
      (.left (state.username client)) (some client) _ ?_ hsent) rfl rfl
    intro session
    rw [mem_addressed_some, Room.others, List.mem_filter, hrepresents.present, decide_eq_true_eq]

/-- What an event that returned did is one act in the room or none, and what its session said in it
is what its call amounts to. -/
theorem exists_acts_of_effect (hmain : OfMain event) (hregistry : state.WellFormed)
    (hattended : Attended state.toRegistry) (hnamed : state.NamedByCalls)
    (henabled : event.Enabled state) (heffect : Effect parse network state event after)
    (hrepresents : Represents room state) :
    ∃ acts later, (Chat.room SessionId Bytes Bytes).run acts room = some later ∧
      Represents later after ∧ ∀ session, actsOf session [] (after.callsFrom session) =
        actsOf session [] (state.callsFrom session) ++ spokenBy session acts := by
  have hquiet : after.clients = state.clients → after.username = state.username →
      after.attempts = state.attempts → after.handled = state.handled →
      ∃ acts later, (Chat.room SessionId Bytes Bytes).run acts room = some later ∧
        Represents later after ∧ ∀ session, actsOf session [] (after.callsFrom session) =
          actsOf session [] (state.callsFrom session) ++ spokenBy session acts := by
    intro hclients hnames hattempts hhandled
    refine ⟨[], room, rfl, hrepresents.of_eq hclients hnames hattempts, fun session ↦ ?_⟩
    unfold State.callsFrom
    rw [hhandled]
    exact (List.append_nil _).symm
  cases heffect with
  | publish space known =>
    refine ⟨[.enter state.accepted], { room with present := room.present ++ [state.accepted] },
      ?_, ⟨?_, hrepresents.names, hrepresents.lines⟩, fun session ↦ (List.append_nil _).symm⟩
    · exact Automaton.run_singleton (if_neg (hrepresents.present ▸ hregistry.accepted_notMem))
    · rw [hrepresents.present]
      rfl
  | depart client sent =>
    have hmember := mem_clients_of_ready hattended henabled
    refine ⟨[.leave client], room.departure client,
      Automaton.run_singleton (if_pos (hrepresents.present ▸ hmember)), ?_,
      fun session ↦ (List.append_nil _).symm⟩
    exact @represents_departure network ((Event.runRead client .error).prepare state) room client
      (hrepresents.of_eq rfl rfl rfl) hregistry.nodup sent
  | message client chunk message newUsername middle notBlank fields effect =>
    have hmember := mem_clients_of_ready hattended henabled
    have hprepared : Represents room (((Event.runRead client (.data chunk)).prepare
        state).noteCall client (parsedMessage parse chunk)) := hrepresents.of_eq rfl rfl rfl
    obtain ⟨act, later, hact, hstep, hlater⟩ :=
      exists_act_of_message hprepared hmember hregistry.nodup effect
    have hhandled : middle.handled = state.handled ++ [(client, parsedMessage parse chunk)] :=
      effect.handled
    refine ⟨[act], later, Automaton.run_singleton hstep, hlater.of_eq rfl rfl rfl, fun session ↦ ?_⟩
    have hspoken := spokenBy_actOf client session (state.username client)
      (.ok (message, newUsername))
    have hcalls : (middle.startRead client).callsFrom session = state.callsFrom session ++
        if client = session then [messageFields (parsedMessage parse chunk)] else [] :=
      callsFrom_of_handled hhandled session
    have hsaid : actOf client (state.username client) (.ok (message, newUsername)) = [act] := hact
    rw [← hsaid, hspoken, hcalls, fields]
    by_cases hsame : client = session
    · subst hsame
      rw [if_pos rfl, if_pos rfl, actsOf_concat, hnamed client]
      rfl
    · rw [if_neg hsame, if_neg hsame, List.append_nil, List.append_nil]
  | broadcast message excludeSocket sent => exact hmain.elim
  | shutdown => exact hmain.elim
  | _ => exact hquiet rfl rfl rfl rfl

end Effects

/-! ### Runs -/

section Runs

variable {parse : Bytes → Option Json} {strtod : Bytes → Double} {toChars : Double → Bytes}
  {network : Network} {maxClients : ℕ} {events : List Server.Event} {state : Server.State}
  {system : System} {room : ServerRoom}

/-- Under `main`, only the sessions in `m_clients` ever have reads in flight. -/
theorem attended_of_run (hrun : Run parse network (initial maxClients) events state)
    (hmain : ∀ event ∈ events, OfMain event) : Attended state.toRegistry := by
  generalize hfirst : initial maxClients = first at hrun
  induction hrun with
  | nil =>
    rw [← hfirst]
    exact fun _ _ ↦ rfl
  | @snoc middle last events event run enabled returned ih =>
    subst hfirst
    obtain ⟨hearlier, hlast⟩ := List.forall_mem_append.mp hmain
    have hreachable : Reachable parse network middle := ⟨maxClients, events, run⟩
    exact attended_of_effect (hlast event List.mem_cons_self) hreachable.wellFormed enabled
      (effect_of_returned hreachable.held returned) (ih hearlier)

/-- Every run of the server under `main` whose events all returned is a run of a room, in which each
session speaks as its calls of `handleMessage` say: its members are the sessions in `m_clients`,
with the stored names, and what a member has heard are the lines to its session. -/
theorem refinesRoom (hrun : Run parse network (initial maxClients) events state)
    (hmain : ∀ event ∈ events, OfMain event) :
    ∃ acts room, (Chat.room SessionId Bytes Bytes).run acts {} = some room ∧
      Represents room state ∧
      ∀ session, spokenBy session acts = actsOf session [] (state.callsFrom session) := by
  generalize hfirst : initial maxClients = first at hrun
  induction hrun with
  | nil =>
    rw [← hfirst]
    exact ⟨[], {}, rfl, ⟨rfl, rfl, fun _ ↦ rfl⟩, fun _ ↦ rfl⟩
  | @snoc middle last events event run enabled returned ih =>
    subst hfirst
    obtain ⟨hearlier, hlast⟩ := List.forall_mem_append.mp hmain
    have hreachable : Reachable parse network middle := ⟨maxClients, events, run⟩
    have hends : Ends parse network (initial maxClients) events middle := .returned run
    obtain ⟨acts, room, hroom, hrepresents, hspoken⟩ := ih hearlier
    obtain ⟨more, later, hmore, hlater, hcalls⟩ := exists_acts_of_effect
      (hlast event List.mem_cons_self) hreachable.wellFormed (attended_of_run run hearlier)
      hends.username enabled (effect_of_returned hreachable.held returned) hrepresents
    refine ⟨acts ++ more, later, Automaton.run_append hroom hmore, hlater, fun session ↦ ?_⟩
    rw [hcalls session, ← hspoken session]
    exact List.filter_append _ _

/-- As long as the server lives, the whole chat is a room in which each session speaks as the first
messages say that its client was given to send. -/
theorem exists_room (hreachable : (chat strtod toChars network).Reachable system)
    (halive : system.fault = none) :
    ∃ acts room, (Chat.room SessionId Bytes Bytes).run acts {} = some room ∧
      Represents room system.server ∧
      ∀ session, ∃ handled, handled <+: system.said session ∧ spokenBy session acts =
        actsOf session [] (handled.map fun message ↦ .ok (message, system.name session)) := by
  have hconsistent := consistent_of_reachable hreachable
  have hserved := hconsistent.served
  rw [halive] at hserved
  cases hserved with
  | alive run =>
    obtain ⟨acts, room, hroom, hrepresents, hspoken⟩ := refinesRoom run hconsistent.ofMain
    refine ⟨acts, room, hroom, hrepresents, fun session ↦ ?_⟩
    obtain ⟨handled, ended, hsaid, -, hcalls, hended⟩ := hconsistent.calls session
    have hnone : ended = [] := hended.resolve_right fun hboth ↦ by
      cases halive.symm.trans hboth.2
    refine ⟨handled, hsaid, (hspoken session).trans ?_⟩
    rw [hcalls, hnone, List.append_nil]

/-- What was written to a session is what it has heard, if no write to it failed. -/
theorem outgoing_eq_heard (hrun : Run parse network (initial maxClients) events state)
    (hrepresents : Represents room state) {session : SessionId}
    (hreturned : state.WritesReturned session) :
    state.outgoing session = ((room.heard session).map render).flatten := by
  have hends : Ends parse network (initial maxClients) events state := .returned hrun
  rw [hrepresents.lines session]
  exact outgoing_eq_flatten (hends.faithful rfl nofun) hreturned

/-- What a client has read is the beginning of what it has heard in the room, if no write to it
failed. -/
theorem received_isPrefix_heard (hreachable : (chat strtod toChars network).Reachable system)
    (halive : system.fault = none) (hrepresents : Represents room system.server)
    {session : SessionId} {client : Client.State} (hclient : system.client session = some client)
    (hreturned : system.server.WritesReturned session) :
    client.received.flatten <+: ((room.heard session).map render).flatten := by
  have hconsistent := consistent_of_reachable hreachable
  have hserved := hconsistent.served
  rw [halive] at hserved
  cases hserved with
  | alive run =>
    rw [← outgoing_eq_heard run hrepresents hreturned]
    exact hconsistent.carriedDown session client hclient

/-- As long as the server lives, the whole chat is a room in which each client speaks for itself:
what a session says in it are the first messages its client was given to send, in order and each
once, under the name its user typed. What the client has read is the beginning of what it has heard
in the room, if no write to it failed. -/
theorem chatRefinesRoom (hreachable : (chat strtod toChars network).Reachable system)
    (halive : system.fault = none) :
    ∃ acts room, (Chat.room SessionId Bytes Bytes).run acts {} = some room ∧
      Represents room system.server ∧
      ∀ session,
        (∃ handled, handled <+: system.said session ∧ spokenBy session acts =
          actsOf session [] (handled.map fun message ↦ .ok (message, system.name session))) ∧
        ∀ client, system.client session = some client → system.server.WritesReturned session →
          client.received.flatten <+: ((room.heard session).map render).flatten := by
  obtain ⟨acts, room, hroom, hrepresents, hspoken⟩ := exists_room hreachable halive
  exact ⟨acts, room, hroom, hrepresents, fun session ↦ ⟨hspoken session, fun _ hclient hreturned ↦
    received_isPrefix_heard hreachable halive hrepresents hclient hreturned⟩⟩

end Runs

/-- The room of Ann and Ben. -/
theorem chatRefinesRoom_of_greeting :
    (chat (fun _ ↦ 0) (fun _ ↦ []) reliable).Reachable greeted ∧ greeted.fault = none ∧
      ∃ acts room, (Chat.room SessionId Bytes Bytes).run acts {} = some room ∧
        Represents room greeted.server ∧
        ∀ session,
          (∃ handled, handled <+: greeted.said session ∧ spokenBy session acts =
            actsOf session [] (handled.map fun message ↦ .ok (message, greeted.name session))) ∧
          ∀ client, greeted.client session = some client → greeted.server.WritesReturned session →
            client.received.flatten <+: ((room.heard session).map render).flatten :=
  ⟨reachable_greeted, by decide, chatRefinesRoom reachable_greeted (by decide)⟩

end KoboldKhat.Chat
