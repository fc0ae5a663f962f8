import KoboldKhat.Parser.Documents
import KoboldKhat.Server.Provenance

/-!
# Nothing but UTF-8 is written

The server keeps strings as bytes and never looks at their encoding. What it reads from a chunk has
gone through `nlohmann::json::parse`, which lets no other strings through than UTF-8
(`Event.Brings.isUtf8`). From these the code makes the names it stores and the lines it writes: it
puts ASCII around them, and it cuts a direct message in front of blanks, which never goes through a
character (`parseDirectMessage_isUtf8`). So whatever bytes the clients send, in every setting, each
name stored and each line written is UTF-8, if what is broadcast from outside is (`writesUtf8`).
-/

set_option autoImplicit false
set_option relaxedAutoImplicit false

namespace KoboldKhat

open Library

/-! ### Texts of the code -/

/-- A text of ASCII is UTF-8. -/
theorem isUtf8_ascii {text : String}
    (htext : (ascii text).all (fun byte ↦ byte.toNat ≤ 0x7F) = true) : IsUtf8 (ascii text) :=
  isUtf8_of_ascii fun byte hbyte ↦ of_decide_eq_true (List.all_eq_true.mp htext byte hbyte)

/-- The blanks that `operator>>` skips are ASCII. -/
theorem toNat_le_of_isSpace {byte : UInt8} (hspace : isSpace byte = true) :
    byte.toNat ≤ 0x7F := by
  simp only [isSpace, Bool.or_eq_true, beq_iff_eq, Bool.and_eq_true, decide_eq_true_eq,
    UInt8.le_iff_toNat_le] at hspace
  rcases hspace with rfl | ⟨-, hlast⟩
  · decide
  · exact hlast.trans (by decide)

/-- A line around UTF-8 is UTF-8. -/
theorem joinedLine_isUtf8 {username : Bytes} (husername : IsUtf8 username) :
    IsUtf8 (joinedLine username) :=
  ((isUtf8_ascii (by decide)).concat husername).concat (isUtf8_ascii (by decide))

theorem disconnectedLine_isUtf8 {username : Bytes} (husername : IsUtf8 username) :
    IsUtf8 (disconnectedLine username) :=
  ((isUtf8_ascii (by decide)).concat husername).concat (isUtf8_ascii (by decide))

theorem chatLine_isUtf8 {username message : Bytes} (husername : IsUtf8 username)
    (hmessage : IsUtf8 message) : IsUtf8 (chatLine username message) :=
  (husername.concat (isUtf8_ascii (by decide))).concat hmessage

theorem directLine_isUtf8 {sender dmMessage : Bytes} (hsender : IsUtf8 sender)
    (hmessage : IsUtf8 dmMessage) : IsUtf8 (directLine sender dmMessage) :=
  (((isUtf8_ascii (by decide)).concat hsender).concat (isUtf8_ascii (by decide))).concat hmessage

theorem notFoundLine_isUtf8 {recipient : Bytes} (hrecipient : IsUtf8 recipient) :
    IsUtf8 (notFoundLine recipient) :=
  ((isUtf8_ascii (by decide)).concat hrecipient).concat (isUtf8_ascii (by decide))

/-! ### What is read -/

/-- A word that is extracted from UTF-8 is UTF-8, and so is what is left. -/
theorem extract_isUtf8 {stream : InputStream} {target : Bytes} (hrest : IsUtf8 stream.rest)
    (htarget : IsUtf8 target) :
    IsUtf8 (stream.extract target).1 ∧ IsUtf8 (stream.extract target).2.rest := by
  have hskipped : IsUtf8 (stream.rest.dropWhile isSpace) :=
    hrest.dropWhile fun _ hspace ↦ toNat_le_of_isSpace hspace
  have hcut := @IsUtf8.cut (fun byte ↦ !isSpace byte)
    (fun _ hstops ↦ toNat_le_of_isSpace (by simpa using hstops)) _ hskipped
  unfold InputStream.extract
  dsimp only
  split_ifs
  · exact ⟨htarget, .nil⟩
  · exact hcut
  · exact ⟨htarget, hrest⟩

/-- A line of UTF-8 is UTF-8. -/
theorem getLine_isUtf8 {stream : InputStream} {target : Bytes} (hrest : IsUtf8 stream.rest)
    (htarget : IsUtf8 target) : IsUtf8 (stream.getLine target).1 := by
  unfold InputStream.getLine
  split_ifs
  · refine (@IsUtf8.cut (fun byte ↦ byte != 10) ?_ _ hrest).1
    intro byte hfeed
    obtain rfl : byte = 10 := by simpa using hfeed
    decide
  · exact htarget

/-- The recipient and the text of a direct message in UTF-8 are UTF-8. -/
theorem parseDirectMessage_isUtf8 {message : Bytes} (hmessage : IsUtf8 message) :
    IsUtf8 (parseDirectMessage message).1 ∧ IsUtf8 (parseDirectMessage message).2 := by
  obtain ⟨-, hafter⟩ := @extract_isUtf8 { rest := message } [] hmessage .nil
  obtain ⟨hrecipient, hleft⟩ := extract_isUtf8 hafter IsUtf8.nil
  obtain ⟨line, hline, htext⟩ : ∃ line, IsUtf8 line ∧ (parseDirectMessage message).2 =
      if line.head? = some 32 then line.tail else line :=
    ⟨_, getLine_isUtf8 hleft IsUtf8.nil, rfl⟩
  refine ⟨hrecipient, ?_⟩
  rw [htext]
  split_ifs with hblank
  · obtain ⟨rest, rfl⟩ := List.head?_eq_some_iff.mp hblank
    exact hline.of_cons (by decide)
  · exact hline

/-- A text that is read from a value with valid strings is UTF-8. -/
theorem textAt_isUtf8 {key content : Bytes} {value : Json}
    (hvalue : Serializer.AllUtf8 (Serializer.strings value))
    (htext : value.textAt key = .ok content) : IsUtf8 content := by
  obtain ⟨members, rfl, hlookup⟩ := (Json.textAt_eq_ok_iff key value content).mp htext
  obtain ⟨before, after, hmembers, -⟩ := List.lookup_eq_some_iff.mp hlookup
  have hmember : (key, .text content) ∈ members := by
    rw [hmembers]
    exact List.mem_append_right _ List.mem_cons_self
  have hvalid := (Parser.allUtf8_stringsOfMembers members).mp hvalue
  exact (hvalid _ hmember).2 content List.mem_cons_self

namespace Server

section Brought

variable {strtod : Bytes → Double} {event : Event} {client : SessionId}
  {message newUsername : Bytes}

/-- The message and the user name that a client brings are UTF-8, whatever bytes it sent. -/
theorem Event.Brings.isUtf8
    (hbrings : event.Brings (Parser.parse strtod) client message newUsername) :
    IsUtf8 message ∧ IsUtf8 newUsername := by
  obtain ⟨chunk, -, -, hfields⟩ := hbrings
  cases hparse : Parser.parse strtod chunk with
  | none =>
    rw [parsedMessage, hparse] at hfields
    cases hfields
  | some value =>
    rw [parsedMessage, hparse] at hfields
    obtain ⟨hmessage, husername⟩ := (messageFields_eq_ok_iff value message newUsername).mp hfields
    have hvalue := (Parser.isClean_of_parse hparse).2
    exact ⟨textAt_isUtf8 hvalue hmessage, textAt_isUtf8 hvalue husername⟩

end Brought

/-! ### What is stored and written -/

/-- What is broadcast from outside is UTF-8. -/
def BroadcastsUtf8 (events : List Event) : Prop :=
  ∀ message excludeSocket, .broadcast message excludeSocket ∈ events → IsUtf8 message

section Writing

variable {setting : Setting} {depth : ℕ} {strtod : Bytes → Double} {event : Event}
  {names : SessionId → Bytes} {callers rest : List Procedure} {message line : Bytes}
  {excludeSocket : Option SessionId} {client : SessionId} {events : List Event} {deeds : List Deed}
  {maxClients : ℕ} {last : State}

/-- A broadcast that the code makes carries UTF-8 if the names stored are UTF-8. -/
theorem Opened.isUtf8 (hnames : ∀ client, IsUtf8 (names client))
    (hexternal : ∀ message excludeSocket, event = .broadcast message excludeSocket → IsUtf8 message)
    (hopened : Opened (Parser.parse strtod) event names
      (.broadcastMessage message excludeSocket :: rest)) : IsUtf8 message := by
  cases hopened with
  | external message excludeSocket isBroadcast => exact hexternal message excludeSocket isBroadcast
  | joined session message brings notCommand => exact joinedLine_isUtf8 (hnames session)
  | relayed session message newUsername brings notCommand named =>
    exact chatLine_isUtf8 (hnames session) brings.isUtf8.1
  | departed session rest opened named => exact disconnectedLine_isUtf8 (hnames session)

/-- A line that the code writes is UTF-8 if the names stored are. -/
theorem Writes.isUtf8 (hnames : ∀ client, IsUtf8 (names client))
    (hexternal : ∀ message excludeSocket, event = .broadcast message excludeSocket → IsUtf8 message)
    (hwrites : Writes (Parser.parse strtod) event names callers client line) : IsUtf8 line := by
  cases hwrites with
  | told client message excludeSocket rest opened included => exact opened.isUtf8 hnames hexternal
  | direct session receiver message newUsername brings command =>
    exact directLine_isUtf8 (hnames session) (parseDirectMessage_isUtf8 brings.isUtf8.1).2
  | notFound session message newUsername brings command =>
    exact notFoundLine_isUtf8 (parseDirectMessage_isUtf8 brings.isUtf8.1).1

/-- The names stay UTF-8, whatever the code does. -/
theorem names_chronicle : Chronicle (Parser.parse strtod)
    fun _ known ↦ ∀ client, IsUtf8 (known.names client) where
  operated := fun hnames _ _ ↦ hnames
  named := by
    rintro deeds known event callers client newUsername state hnames - hallowed other
    obtain ⟨-, -, -, message, hbrings, -⟩ := hallowed
    by_cases hother : other = client
    · subst hother
      rw [known.rename_names_self]
      exact hbrings.isUtf8.2
    · rw [known.rename_names_of_ne hother]
      exact hnames other
  called := fun hnames _ _ ↦ hnames

/-- In every setting and after every sequence of events, whatever bytes the clients have sent: the
name of each session is UTF-8, and so is each line that has been written or tried to be, if what is
broadcast from outside is. -/
theorem writesUtf8 (hends : TracedEnds setting depth (Parser.parse strtod) (initial maxClients)
    events deeds last) (hbroadcasts : BroadcastsUtf8 events) :
    (∀ client, IsUtf8 (last.username client)) ∧
      ∀ written ∈ last.written, IsUtf8 written.2 := by
  obtain ⟨haccounted, known, hknown, hlast⟩ := names_chronicle.ends (fun _ ↦ .nil) hends
  refine ⟨fun client ↦ hlast ▸ hknown client, fun written hwritten ↦ ?_⟩
  rw [hends.written] at hwritten
  have hdeeds : written ∈ deeds.flatMap Deed.writes := hwritten
  obtain ⟨deed, hdeed, hwrite⟩ := List.mem_flatMap.mp hdeeds
  obtain ⟨earlier, later, hsplit⟩ := List.append_of_mem hdeed
  obtain ⟨before, hbefore, hnames, -⟩ := haccounted.at hsplit
  refine (hends.writes hdeed hwrite).isUtf8 (fun client ↦ hnames ▸ hbefore client) ?_
  intro message excludeSocket hevent
  exact hbroadcasts message excludeSocket (hevent ▸ event_mem_of_deed hends hdeed)

end Writing

/-- A user whose name is the letter `é` joins and says it, after a broadcast from outside. -/
def accentedVisit : List Event :=
  [.start, .acceptCompletes .success, .runAccept .success, .broadcast (ascii "hello") none,
    .readCompletes 0 (.data (Parser.document [0xC3, 0xA9] [0xC3, 0xA9])),
    .runRead 0 (.data (Parser.document [0xC3, 0xA9] [0xC3, 0xA9]))]

/-- What is stored and written then. -/
theorem writesUtf8_of_accentedVisit :
    ∃ deeds last, TracedEnds (standard reliable) 4 (Parser.parse fun _ ↦ 0) (initial 10)
        accentedVisit deeds last ∧
      last.written = [(0, ascii "hello"), (0, joinedLine [0xC3, 0xA9])] ∧
      (∀ client, IsUtf8 (last.username client)) ∧
      ∀ written ∈ last.written, IsUtf8 written.2 := by
  have hsome : (playAt (standard reliable) 4 (Parser.parse fun _ ↦ 0) accentedVisit
      (initial 10)).isSome = true := by
    decide
  have hrun := traced_playAt hsome
  have hbroadcasts : BroadcastsUtf8 accentedVisit := by
    intro message excludeSocket hevent
    obtain ⟨rfl, rfl⟩ : message = ascii "hello" ∧ excludeSocket = none := by
      simpa [accentedVisit] using hevent
    exact isUtf8_ascii (by decide)
  exact ⟨_, _, .returned hrun, rfl, writesUtf8 (.returned hrun) hbroadcasts⟩

end Server

end KoboldKhat
