import KoboldKhat.Framing
import KoboldKhat.Server.Answers

/-!
# Registration

A client introduces itself with a message whose text is its user name. The server takes the first
message of a session for the introduction, unless it begins with the command of a direct message,
and it knows the first message by the empty name it has stored for the session. So the two agree on
the introduction exactly for the names that are not empty and do not begin with the command
(`registers_iff`). A client with an empty name is announced again by each of its messages, and
nothing that it says is relayed.
-/

set_option autoImplicit false
set_option relaxedAutoImplicit false

namespace KoboldKhat

/-- The handling of a client's first message, a chunk, registers its session under its user name:
it returns, the name is not empty, the session is announced once under it, and in every later state
every message that the client sends and that arrives in a chunk of its own is relayed under the
name, or handled as a direct message. -/
structure Registers (parse : Bytes → Option Json) (dump : Json → Option Bytes)
    (network : Server.Network) (state : Server.State) (session : Server.SessionId)
    (username chunk : Bytes) (after : Server.State) : Prop where
  returned : Server.step parse network (.runRead session (.data chunk)) state =
    .returned () after
  nonempty : username ≠ []
  announced : Server.Announces parse network state session chunk username after
  answered : ∀ events later message document, Server.Run parse network after events later →
    dump (envelope username message) = some document →
    (session, .data document) ∈ later.readyReads →
      if dmCommand.isPrefixOf message = true then
        Server.Directs parse network later session document username message
      else Server.Relays parse network later session document username message

/-- The parser reads back what a client of the name writes, and that is not blank. -/
def ReadsBack (parse : Bytes → Option Json) (dump : Json → Option Bytes) (username : Bytes) :
    Prop :=
  ∀ message document, dump (envelope username message) = some document →
    document.head? = some 123 ∧ parse document = some (envelope username message)

/-- A chunk that a client wrote for a message brings the message. -/
theorem ReadsBack.brings {parse : Bytes → Option Json} {dump : Json → Option Bytes}
    {username message document : Bytes} (hreads : ReadsBack parse dump username)
    (hdump : dump (envelope username message) = some document) (session : Server.SessionId) :
    (Server.Event.runRead session (.data document)).Brings parse session message username := by
  obtain ⟨hopens, hparses⟩ := hreads message document hdump
  refine ⟨document, rfl, not_isBlankChunk_of_head hopens, ?_⟩
  rw [Server.parsedMessage, hparses, Option.getD_some, messageFields_envelope]

/-- A message of a session under whose name it was written is relayed under the name, or handled as
a direct message. -/
theorem ReadsBack.answered {parse : Bytes → Option Json} {dump : Json → Option Bytes}
    {username message document : Bytes} (hreads : ReadsBack parse dump username)
    (hdump : dump (envelope username message) = some document) {network : Server.Network}
    {state : Server.State} {session : Server.SessionId} (hregistry : state.WellFormed)
    (hfree : state.held = 0) (hwhole : network.WholeFrom state.attempts.length)
    (hname : state.username session = username) (hnonempty : username ≠ []) :
    if dmCommand.isPrefixOf message = true then
      Server.Directs parse network state session document username message
    else Server.Relays parse network state session document username message := by
  have hbrings := hreads.brings hdump session
  rw [← hname]
  by_cases hdirect : dmCommand.isPrefixOf message = true
  · rw [if_pos hdirect]
    exact Server.directs_of_command hfree hbrings hdirect
  · rw [if_neg hdirect]
    exact Server.relays_of_named hregistry hfree hwhole hbrings (Bool.eq_false_iff.mpr hdirect)
      (hname.trans_ne hnonempty)

/-- In every reachable state of a server that has no name for a session yet, and when no write
fails: the first message of a client registers its session exactly when its user name is not empty
and does not begin with the command of a direct message. -/
theorem registers_iff {parse : Bytes → Option Json} {dump : Json → Option Bytes}
    {username : Bytes} (hreads : ReadsBack parse dump username)
    (hconnected : (Client.connect dump true .whole (Client.created username)).connected = true)
    {network : Server.Network} {state : Server.State}
    (hreachable : Server.Reachable parse network state)
    (hwhole : network.WholeFrom state.attempts.length) {session : Server.SessionId}
    (hunnamed : state.username session = [])
    (hready : (session, .data (Client.connect dump true .whole
      (Client.created username)).outgoing) ∈ state.readyReads) :
    (∃ after, Registers parse dump network state session username
        (Client.connect dump true .whole (Client.created username)).outgoing after) ↔
      username ≠ [] ∧ dmCommand.isPrefixOf username = false := by
  have hbrings := hreads.brings (Client.connect_of_connected hconnected) session
  have hfree := hreachable.held
  constructor
  · rintro ⟨after, hregisters⟩
    refine ⟨hregisters.nonempty, Bool.eq_false_iff.mpr fun hcommand ↦ hregisters.nonempty ?_⟩
    have hreturned := hregisters.returned
    rw [← hregisters.announced.1, ← hunnamed]
    cases hfound : state.firstNamed (parseDirectMessage username).1 with
    | some receiver =>
      rw [Server.step_direct_of_found hfree hbrings hcommand hfound] at hreturned
      obtain ⟨-, rfl⟩ := Library.Outcome.returned.inj hreturned
      rfl
    | none =>
      rw [Server.step_direct_of_notFound hfree hbrings hcommand hfound] at hreturned
      cases hreturned
  · rintro ⟨hnonempty, hcommand⟩
    obtain ⟨after, hreturned, hannounces⟩ := Server.announces_of_unnamed hreachable.wellFormed
      hfree hwhole hbrings hcommand hunnamed
    refine ⟨after, hreturned, hnonempty, hannounces, ?_⟩
    intro events later message document hrun hdump _
    have henabled : (Server.Event.runRead session (.data (Client.connect dump true .whole
      (Client.created username)).outgoing)).Enabled state := hready
    obtain ⟨hregistry, hfreeAfter, hfirst, -⟩ := ((Server.Run.nil state).snoc henabled
      hreturned).keeps hreachable.wellFormed hfree
    obtain ⟨hregistryLater, hfreeLater, hmore, hnames⟩ := hrun.keeps hregistry hfreeAfter
    have hname : later.username session = username := by
      rw [hnames session (hannounces.1.trans_ne hnonempty), hannounces.1]
    have hwholeLater : network.WholeFrom later.attempts.length :=
      fun number hle ↦ hwhole number ((hfirst.trans hmore).trans hle)
    exact hreads.answered hdump hregistryLater hfreeLater hwholeLater hname hnonempty

/-- The parser that knows the texts of a table. -/
def parseTable (known : List (Bytes × Json)) (text : Bytes) : Option Json :=
  known.lookup text

/-- The text of a message of a client, if its strings need no escapes. -/
def greetingText (username message : Bytes) : Bytes :=
  (plainText (envelope username message)).getD []

/-- Different messages of a client have different texts. -/
theorem greetingText_injective (username : Bytes) : (greetingText username).Injective := by
  intro first second hsame
  simp only [greetingText, plainText, envelope, Option.getD_some, List.append_assoc] at hsame
  exact List.append_cancel_right (List.append_cancel_left hsame)

/-- The serializer, on the two messages of a client that connects and then says `hi`. -/
def dumpGreetings (username : Bytes) : Json → Option Bytes
  | .object [(_, .text message), (_, .text _)] =>
    if message ∈ [username, ascii "hi"] then some (greetingText username message) else none
  | _ => none

/-- The parser that knows the texts of these two messages. -/
def parseGreetingsOf (username : Bytes) : Bytes → Option Json :=
  parseTable [(greetingText username username, envelope username username),
    (greetingText username (ascii "hi"), envelope username (ascii "hi"))]

/-- The two messages are read back from their texts. -/
theorem readsBack_greetings (username : Bytes) :
    ReadsBack (parseGreetingsOf username) (dumpGreetings username) username := by
  intro message document hdump
  have hsent : (if message ∈ [username, ascii "hi"] then some (greetingText username message)
    else none) = some document := hdump
  split_ifs at hsent with hmember
  obtain rfl := Option.some.inj hsent
  refine ⟨rfl, ?_⟩
  rw [parseGreetingsOf, parseTable]
  by_cases hname : message = username
  · subst hname
    exact List.lookup_cons_self
  · obtain rfl : message = ascii "hi" := by simpa [hname] using hmember
    have hne := (greetingText_injective username).ne hname
    rw [List.lookup_cons, beq_false_of_ne hne]
    exact List.lookup_cons_self

/-- A client of the name `kobold` is registered. -/
theorem registers_of_kobold :
    ∃ state, Server.Reachable (parseGreetingsOf (ascii "kobold")) Server.reliable state ∧
      state.clients = [0] ∧
      ∃ after, Registers (parseGreetingsOf (ascii "kobold")) (dumpGreetings (ascii "kobold"))
        Server.reliable state 0 (ascii "kobold") (Client.connect (dumpGreetings (ascii "kobold"))
          true .whole (Client.created (ascii "kobold"))).outgoing after := by
  have hsome : (Server.play (parseGreetingsOf (ascii "kobold")) Server.reliable
      (Server.firstChunk (Client.connect (dumpGreetings (ascii "kobold")) true .whole
        (Client.created (ascii "kobold"))).outgoing) (Server.initial 10)).isSome = true := by
    decide
  have hreachable := Server.reachable_of_play (Option.some_get hsome).symm
  refine ⟨_, hreachable, rfl, ?_⟩
  exact (registers_iff (readsBack_greetings _) rfl hreachable (Server.reliable_wholeFrom _) rfl
    (List.mem_singleton.mpr rfl)).mpr ⟨by decide, by decide⟩

/-- A client connects and then says `hi`, under the name it was given. -/
def introduction (username : Bytes) : List Server.Event :=
  Server.firstChunk (greetingText username username) ++
    [.runRead 0 (.data (greetingText username username)),
      .readCompletes 0 (.data (greetingText username (ascii "hi")))]

/-- A client with an empty name is announced twice, and what it says is relayed to nobody. -/
theorem not_registers_of_nameless :
    ReadsBack (parseGreetingsOf []) (dumpGreetings []) [] ∧
    (Client.connect (dumpGreetings []) true .whole (Client.created [])).connected = true ∧
    ∃ state, Server.play (parseGreetingsOf []) Server.reliable
        (Server.firstChunk (Client.connect (dumpGreetings []) true .whole
          (Client.created [])).outgoing) (Server.initial 10) = some state ∧
      state.clients = [0] ∧ state.username 0 = [] ∧
      (0, .data (Client.connect (dumpGreetings []) true .whole
        (Client.created [])).outgoing) ∈ state.readyReads ∧
      (¬ ∃ after, Registers (parseGreetingsOf []) (dumpGreetings []) Server.reliable state 0 []
        (Client.connect (dumpGreetings []) true .whole (Client.created [])).outgoing after) ∧
      ∃ later, Server.play (parseGreetingsOf []) Server.reliable (introduction [])
          (Server.initial 10) = some later ∧
        Server.purposesAt (parseGreetingsOf []) Server.reliable state 0
          (greetingText [] []) = [.joined 0] ∧
        Server.purposesAt (parseGreetingsOf []) Server.reliable later 0
          (greetingText [] (ascii "hi")) = [.joined 0] := by
  have hsome : (Server.play (parseGreetingsOf []) Server.reliable
      (Server.firstChunk (Client.connect (dumpGreetings []) true .whole
        (Client.created [])).outgoing) (Server.initial 10)).isSome = true := by decide
  have hsomeLater : (Server.play (parseGreetingsOf []) Server.reliable (introduction [])
      (Server.initial 10)).isSome = true := by decide
  refine ⟨readsBack_greetings [], rfl, _, (Option.some_get hsome).symm, rfl, rfl,
    List.mem_singleton.mpr rfl, ?_, _, (Option.some_get hsomeLater).symm, rfl, rfl⟩
  rintro ⟨after, hregisters⟩
  exact hregisters.nonempty rfl

end KoboldKhat
