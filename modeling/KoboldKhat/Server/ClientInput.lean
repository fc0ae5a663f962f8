import KoboldKhat.Parser.Documents
import KoboldKhat.Server.Sessions

/-!
# What a client can send

The read handler on the bytes of a client, when no write fails. It is meant to cope with all of
them: it skips blank chunks, catches what the parser throws, and starts the next read. But the value
it passes on is used without a check, so the handler returns exactly on the chunks of `Answerable`
(`handlesInput_iff_answerable`): the blank ones, and the objects with both texts whose `/dm`, if
they have one, names a session. On every other chunk the handler ends by an exception or an access
past an end, and `io_context::run` with it.
-/

set_option autoImplicit false
set_option relaxedAutoImplicit false

namespace KoboldKhat.Server

open Library

/-- The chunk is the text of a JSON object that holds strings under both keys. -/
def IsEnvelopeText (parse : Bytes → Option Json) (chunk : Bytes) : Prop :=
  ∃ envelope, parse chunk = some envelope ∧ IsEnvelope envelope

/-- The read handler of the session returns on the chunk with one read in flight, and unless the
chunk is an envelope nothing of what other clients see has changed. -/
def HandlesInput (parse : Bytes → Option Json) (network : Network) (state : State)
    (client : SessionId) (chunk : Bytes) : Prop :=
  ∃ after, step parse network (.runRead client (.data chunk)) state = .returned () after ∧
    after.outstandingReads client = 1 ∧
    (¬ IsEnvelopeText parse chunk → after.clients = state.clients ∧
      after.username = state.username ∧ ∀ other, after.outgoing other = state.outgoing other)

/-- The chunk is blank, or it is an object with a text under both keys, and if its message is a
direct one, a session in `m_clients` has the name that follows the command. -/
def Answerable (parse : Bytes → Option Json) (registry : Registry) (chunk : Bytes) : Prop :=
  IsBlankChunk chunk ∨ ∃ members message username, parse chunk = some (.object members) ∧
    members.lookup (ascii "message") = some (.text message) ∧
    members.lookup (ascii "username") = some (.text username) ∧
    (dmCommand.isPrefixOf message = true →
      ∃ receiver ∈ registry.clients, registry.username receiver = recipientWord message)

section Fields

variable {parse : Bytes → Option Json} {chunk message username : Bytes}

/-- The fields of what `handleMessage` is called with are those of an object the chunk is the text
of. -/
theorem messageFields_parsedMessage_iff :
    messageFields (parsedMessage parse chunk) = .ok (message, username) ↔
      ∃ members, parse chunk = some (.object members) ∧
        members.lookup (ascii "message") = some (.text message) ∧
        members.lookup (ascii "username") = some (.text username) := by
  rw [messageFields_eq_ok_iff, Json.textAt_eq_ok_iff, Json.textAt_eq_ok_iff]
  constructor
  · rintro ⟨⟨members, hvalue, hmessage⟩, ⟨others, hsame, husername⟩⟩
    cases hparse : parse chunk with
    | none => simp [parsedMessage, hparse] at hvalue
    | some value =>
      have hmembers : parsedMessage parse chunk = value := by rw [parsedMessage, hparse]; rfl
      rw [hmembers] at hvalue hsame
      obtain rfl : members = others := Json.object.inj (hvalue.symm.trans hsame)
      exact ⟨members, congrArg some hvalue, hmessage, husername⟩
  · rintro ⟨members, hparse, hmessage, husername⟩
    have hvalue : parsedMessage parse chunk = .object members := by rw [parsedMessage, hparse]; rfl
    exact ⟨⟨members, hvalue, hmessage⟩, members, hvalue, husername⟩

/-- A chunk whose fields can be read is an envelope. -/
theorem isEnvelopeText_of_messageFields
    (hfields : messageFields (parsedMessage parse chunk) = .ok (message, username)) :
    IsEnvelopeText parse chunk := by
  obtain ⟨members, hparse, hmessage, husername⟩ := messageFields_parsedMessage_iff.mp hfields
  exact ⟨.object members, hparse, ⟨members, message, rfl, hmessage⟩, members, username, rfl,
    husername⟩

end Fields

section Handler

variable {parse : Bytes → Option Json} {network : Network} {state : State}

/-- The search for a name succeeds exactly when a session in `m_clients` has it. -/
theorem exists_firstNamed_iff (registry : Registry) (name : Bytes) :
    (∃ receiver, registry.firstNamed name = some receiver) ↔
      ∃ receiver ∈ registry.clients, registry.username receiver = name := by
  rw [← Option.isSome_iff_exists, Registry.firstNamed, List.find?_isSome]
  simp only [decide_eq_true_eq]

/-- A read handler that returned was given an answerable chunk. -/
theorem answerable_of_returned (hfree : state.held = 0) {client : SessionId} {chunk : Bytes}
    {after : State}
    (hreturned : step parse network (.runRead client (.data chunk)) state = .returned () after) :
    Answerable parse state.toRegistry chunk := by
  cases effect_of_returned hfree hreturned with
  | blank client chunk isBlank => exact Or.inl isBlank
  | message client chunk message newUsername middle notBlank fields effect =>
    obtain ⟨members, hparse, hmessage, husername⟩ := messageFields_parsedMessage_iff.mp fields
    refine Or.inr ⟨members, message, newUsername, hparse, hmessage, husername, fun hcommand ↦ ?_⟩
    cases effect with
    | direct receiver command found =>
      rw [parseDirectMessage_fst hcommand] at found
      exact (exists_firstNamed_iff state.toRegistry _).mp ⟨receiver, found⟩
    | register command unnamed sent => exact absurd hcommand (by rw [command]; exact nofun)
    | chat command named sent => exact absurd hcommand (by rw [command]; exact nofun)

/-- When no write fails, a read handler that stopped was not given an answerable chunk. -/
theorem not_answerable_of_stopped (hregistry : state.WellFormed) (hfree : state.held = 0)
    (hwhole : network.WholeFrom state.attempts.length) {client : SessionId} {chunk : Bytes}
    {fault : Fault} {after : State}
    (hstopped : step parse network (.runRead client (.data chunk)) state = .stopped fault after) :
    ¬ Answerable parse state.toRegistry chunk := by
  have hsent : ∀ message excludeSocket, (state.broadcastAttempts network message
      excludeSocket).all Attempt.ok = true := by
    intro message excludeSocket
    rw [broadcastAttempts_of_whole hregistry.member_open hwhole]
    exact all_ok_map_whole message _
  rintro (hblank | ⟨members, message, username, hparse, hmessage, husername, hrecipient⟩)
  · cases halt_of_stopped hfree hstopped with
    | fields client chunk fault notBlank fields => exact notBlank hblank
    | message client chunk message newUsername fault after notBlank fields halt =>
      exact notBlank hblank
  · have hfields := messageFields_parsedMessage_iff.mpr ⟨members, hparse, hmessage, husername⟩
    cases halt_of_stopped hfree hstopped with
    | fields client chunk fault notBlank fields =>
      rw [fields] at hfields
      cases hfields
    | message client chunk given newUsername fault after notBlank fields halt =>
      rw [hfields] at fields
      cases fields
      cases halt with
      | notFound command none =>
        obtain ⟨receiver, hfound⟩ := (exists_firstNamed_iff state.toRegistry _).mpr
          (hrecipient command)
        rw [parseDirectMessage_fst command] at none
        cases hfound.symm.trans none
      | register command unnamed failed =>
        have hall := hsent (joinedLine username) none
        cases hall.symm.trans failed
      | chat command named failed =>
        have hall := hsent (chatLine (state.username client) message) (some client)
        cases hall.symm.trans failed

/-- What a read handler that returned leaves behind: one read in flight, and everything else as it
was unless the chunk is an envelope. -/
theorem handlesInput_of_returned (hregistry : state.WellFormed) (hfree : state.held = 0)
    {client : SessionId} {chunk : Bytes} {after : State}
    (hready : (client, .data chunk) ∈ state.readyReads)
    (hreturned : step parse network (.runRead client (.data chunk)) state = .returned () after) :
    HandlesInput parse network state client chunk := by
  have hreads : state.outstandingReads client = 1 := by
    have hpositive : 0 < state.outstandingReads client := by
      rw [← outstandingReads_runRead state client client hready, if_pos rfl]
      exact Nat.succ_pos _
    exact Nat.le_antisymm (hregistry.reads_le client) hpositive
  refine ⟨after, hreturned, ?_⟩
  cases effect_of_returned hfree hreturned with
  | blank client chunk isBlank =>
    refine ⟨?_, fun _ ↦ ⟨rfl, rfl, fun _ ↦ rfl⟩⟩
    exact (outstandingReads_next hready ⟨rfl, rfl⟩ client).trans hreads
  | message client chunk message newUsername middle notBlank fields effect =>
    have hsame := effect.sameSessions
    refine ⟨?_, fun hnot ↦ absurd (isEnvelopeText_of_messageFields fields) hnot⟩
    exact (outstandingReads_next hready ⟨hsame.registry, hsame.held⟩ client).trans hreads

end Handler

/-- In every reachable state, and when no write fails from then on, the read handler copes with the
data of a session exactly when the chunk is answerable. -/
theorem handlesInput_iff_answerable {parse : Bytes → Option Json} {network : Network}
    {state : State} (hreachable : Reachable parse network state)
    (hwhole : network.WholeFrom state.attempts.length) {client : SessionId} {chunk : Bytes}
    (hready : (client, .data chunk) ∈ state.readyReads) :
    HandlesInput parse network state client chunk ↔ Answerable parse state.toRegistry chunk := by
  have hfree := hreachable.held
  have hregistry := hreachable.wellFormed
  constructor
  · rintro ⟨after, hreturned, -⟩
    exact answerable_of_returned hfree hreturned
  · intro hanswerable
    cases hstep : step parse network (.runRead client (.data chunk)) state with
    | returned value after => exact handlesInput_of_returned hregistry hfree hready hstep
    | stopped fault after =>
      exact absurd hanswerable (not_answerable_of_stopped hregistry hfree hwhole hstep)

/-- The events that bring a first client's chunk before the read handler. -/
def firstChunk (chunk : Bytes) : List Event :=
  [.start, .acceptCompletes .success, .runAccept .success, .readCompletes 0 (.data chunk)]

/-- The read handler answers a client's first document, which the parser of the library reads. -/
theorem handlesInput_introduction :
    ∃ state, play (Parser.parse fun _ ↦ 0) reliable
        (firstChunk (Parser.document (ascii "k") (ascii "k"))) (initial 10) = some state ∧
      HandlesInput (Parser.parse fun _ ↦ 0) reliable state 0
        (Parser.document (ascii "k") (ascii "k")) := by
  have hsome : (play (Parser.parse fun _ ↦ 0) reliable
      (firstChunk (Parser.document (ascii "k") (ascii "k"))) (initial 10)).isSome = true := by
    decide
  have hplay := (Option.some_get hsome).symm
  have hname : IsUtf8 (ascii "k") := ⟨['k'], by decide⟩
  have hanswerable : ∀ registry, Answerable (Parser.parse fun _ ↦ 0) registry
      (Parser.document (ascii "k") (ascii "k")) := fun _ ↦
    Or.inr ⟨_, ascii "k", ascii "k", Parser.parse_document hname hname, rfl, rfl, nofun⟩
  refine ⟨_, hplay, ?_⟩
  exact (handlesInput_iff_answerable (reachable_of_play hplay) (reliable_wholeFrom _)
    (List.mem_singleton.mpr rfl)).mpr (hanswerable _)

/-- A client's `hello`, which no JSON parser accepts, ends the read handler by an exception. -/
theorem not_handlesInput_hello :
    ∃ state, play (fun _ ↦ none) reliable (firstChunk (ascii "hello")) (initial 10) = some state ∧
      (0, .data (ascii "hello")) ∈ state.readyReads ∧
      ¬ HandlesInput (fun _ ↦ none) reliable state 0 (ascii "hello") := by
  have hsome : (play (fun _ ↦ none) reliable (firstChunk (ascii "hello"))
      (initial 10)).isSome = true := by
    decide
  refine ⟨_, (Option.some_get hsome).symm, List.mem_singleton.mpr rfl, ?_⟩
  rintro ⟨after, hreturned, -⟩
  cases hreturned

end KoboldKhat.Server
