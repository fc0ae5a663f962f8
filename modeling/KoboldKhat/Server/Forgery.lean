import KoboldKhat.Server.Provenance

/-!
# Lines that look like others

The lines of the server are names and texts of the users between fixed parts, and nothing in a name
or a text is escaped. Which of the other formats can look like a direct message or like a departure,
and with which names, is decided by the formats alone (`directLine_eq_directLine`,
`chatLine_eq_directLine` and the lemmas after them). With where the lines come from (`Writes`) this
tells who may have written a line of such a form in a run (`lineOrigin`).
-/

set_option autoImplicit false
set_option relaxedAutoImplicit false

namespace KoboldKhat.Server

open Library

/-! ### The formats -/

section Formats

/-- What a name starts with that can pass for the head of a direct message. -/
def directHead : Bytes :=
  ascii "[DM From '"

/-- What stands in a direct message between the name and the text. -/
def directMiddle : Bytes :=
  ascii "']: "

/-- The quote around a name. -/
def quote : UInt8 :=
  39

/-- What a line of departure ends with. -/
def departureTail : Bytes :=
  ascii "' has disconnected!!"

variable {name sender message text : Bytes}

theorem chatLine_eq (name message : Bytes) :
    chatLine name message = name ++ 58 :: 32 :: message := by
  rw [chatLine, List.append_assoc]
  rfl

theorem directLine_eq (sender text : Bytes) :
    directLine sender text = directHead ++ (sender ++ (directMiddle ++ text)) := by
  simp only [directLine, List.append_assoc]
  rfl

theorem disconnectedLine_eq (name : Bytes) :
    disconnectedLine name = quote :: (name ++ departureTail) := by
  rw [disconnectedLine, List.append_assoc]
  rfl

/-- A name that is followed by a byte of its line takes in all of a head without that byte. -/
theorem prefix_of_append_eq {head rest tail : Bytes} {next : UInt8} (hnext : next ∉ head)
    (hline : name ++ next :: rest = head ++ tail) : head <+: name := by
  rcases List.append_eq_append_iff.mp hline with ⟨part, rfl, hpart⟩ | ⟨part, rfl, hpart⟩
  · cases part with
    | nil => exact (List.append_nil name).symm ▸ List.prefix_rfl
    | cons byte part =>
      obtain ⟨rfl, -⟩ := List.cons.inj hpart
      exact absurd (List.mem_append_right _ List.mem_cons_self) hnext
  · exact List.prefix_append head part

/-- A chat line that looks like a direct message is that of a name with its head. -/
theorem chatLine_eq_directLine (hline : chatLine name message = directLine sender text) :
    directHead <+: name := by
  rw [chatLine_eq, directLine_eq] at hline
  exact prefix_of_append_eq (by decide) hline

/-- A chat line that looks like a departure is that of a name with a quote in front. -/
theorem chatLine_eq_disconnectedLine (hline : chatLine name message = disconnectedLine sender) :
    [quote] <+: name := by
  rw [chatLine_eq, disconnectedLine_eq, ← List.singleton_append] at hline
  exact prefix_of_append_eq (by decide) hline

/-- A direct message that looks like one from a name without a quote is from that name, or from one
that goes on like a direct message. -/
theorem directLine_eq_directLine {word : Bytes} (hquote : quote ∉ sender)
    (hline : directLine name word = directLine sender text) :
    name = sender ∨ sender ++ directMiddle <+: name := by
  rw [directLine_eq, directLine_eq] at hline
  have hnames := List.append_cancel_left hline
  rcases List.append_eq_append_iff.mp hnames with ⟨part, rfl, hpart⟩ | ⟨part, rfl, hpart⟩
  · left
    cases part with
    | nil => exact (List.append_nil name).symm
    | cons byte part =>
      obtain ⟨rfl, -⟩ := List.cons.inj hpart
      exact absurd (List.mem_append_right _ List.mem_cons_self) hquote
  · cases part with
    | nil => exact Or.inl (List.append_nil sender)
    | cons byte part =>
      right
      obtain ⟨rfl, hrest⟩ := List.cons.inj hpart
      have hmiddle : ascii "]: " <+: part := prefix_of_append_eq (by decide) hrest.symm
      exact (List.prefix_append_right_inj sender).mpr (List.cons_prefix_cons.mpr ⟨rfl, hmiddle⟩)

/-- The announcement of a name does not look like a departure. -/
theorem joinedLine_ne_disconnectedLine : joinedLine name ≠ disconnectedLine sender := by
  intro hline
  have hends := congrArg (fun line ↦ line.reverse.take 5) hline
  simp only [joinedLine, disconnectedLine, List.reverse_append] at hends
  cases hends

/-- A departure looks like that of no other name. -/
theorem disconnectedLine_injective (hline : disconnectedLine name = disconnectedLine sender) :
    name = sender := by
  rw [disconnectedLine_eq, disconnectedLine_eq] at hline
  exact List.append_cancel_right (List.cons.inj hline).2

theorem joinedLine_ne_directLine : joinedLine name ≠ directLine sender text := by
  intro hline
  cases congrArg List.head? hline

theorem disconnectedLine_ne_directLine : disconnectedLine name ≠ directLine sender text := by
  intro hline
  cases congrArg List.head? hline

theorem notFoundLine_ne_directLine : notFoundLine name ≠ directLine sender text := by
  intro hline
  cases congrArg List.head? hline

theorem notFoundLine_ne_disconnectedLine : notFoundLine name ≠ disconnectedLine sender := by
  intro hline
  cases congrArg List.head? hline

end Formats

/-! ### Who wrote a line -/

/-- The deed belongs to the handling of a `/dm` message of the session, and is inside no call. -/
def Deed.IsDirect (parse : Bytes → Option Json) (deed : Deed) (client : SessionId) : Prop :=
  deed.moment.callers = [] ∧ ∃ message newUsername,
    deed.event.Brings parse client message newUsername ∧ dmCommand.isPrefixOf message = true

/-- The deed belongs to the announcement that the session has left. -/
def Deed.IsDeparture (deed : Deed) (client : SessionId) : Prop :=
  ∃ message excludeSocket rest,
    deed.moment.callers = .broadcastMessage message excludeSocket :: .removeClient client :: rest

/-- The deed belongs to the relay of a message of the session. -/
def Deed.IsRelay (parse : Bytes → Option Json) (deed : Deed) (client : SessionId) : Prop :=
  ∃ message newUsername, deed.event.Brings parse client message newUsername ∧
    dmCommand.isPrefixOf message = false ∧ deed.moment.callers =
      [.broadcastMessage (chatLine (deed.moment.state.username client) message) (some client)]

/-- The deed belongs to a broadcast that was called from outside. -/
def Deed.IsExternal (deed : Deed) : Prop :=
  ∃ message excludeSocket, deed.event = .broadcast message excludeSocket ∧
    deed.moment.callers = [.broadcastMessage message excludeSocket]

/-- The name of the session at the time of the deed. -/
def Deed.nameOf (deed : Deed) (client : SessionId) : Bytes :=
  deed.moment.state.username client

/-- No line is forged: what looks like a direct message from a name without a quote is one from a
session of that name, and what looks like the departure of such a name is one. -/
def Unforgeable (parse : Bytes → Option Json) (deeds : List Deed) : Prop :=
  ∀ deed ∈ deeds, ∀ receiver line, (receiver, line) ∈ deed.writes → ∀ name, name ≠ [] →
    quote ∉ name →
    (∀ text, line = directLine name text →
      ∃ sender, deed.IsDirect parse sender ∧ deed.nameOf sender = name) ∧
    (line = disconnectedLine name →
      ∃ client, deed.IsDeparture client ∧ deed.nameOf client = name)

section Runs

variable {setting : Setting} {depth : ℕ} {parse : Bytes → Option Json} {maxClients : ℕ}
  {events : List Event} {deeds : List Deed} {last : State}

/-- In every run, in every setting: a line that looks like a direct message from a name without a
quote is one from a session of that name, or one from a session whose name is that name and goes on
like a direct message, or the relay of a message of a session whose name has the head of a direct
message, or a broadcast from outside. A line that looks like the departure of such a name is one, or
the relay of a message of a session whose name has a quote in front, or a broadcast from outside. -/
theorem lineOrigin (hends : TracedEnds setting depth parse (initial maxClients) events deeds last) :
    ∀ deed ∈ deeds, ∀ receiver line, (receiver, line) ∈ deed.writes → ∀ name, name ≠ [] →
      quote ∉ name →
      (∀ text, line = directLine name text →
        (∃ sender, deed.IsDirect parse sender ∧
          (deed.nameOf sender = name ∨ name ++ directMiddle <+: deed.nameOf sender)) ∨
        (∃ client, deed.IsRelay parse client ∧ directHead <+: deed.nameOf client) ∨
        deed.IsExternal) ∧
      (line = disconnectedLine name →
        (∃ client, deed.IsDeparture client ∧ deed.nameOf client = name) ∨
        (∃ client, deed.IsRelay parse client ∧ [quote] <+: deed.nameOf client) ∨
        deed.IsExternal) := by
  intro deed hdeed receiver line hwrite name hname hquote
  obtain ⟨event, callers, action, state⟩ := deed
  have hwrites : Writes parse event state.username callers receiver line :=
    hends.writes hdeed hwrite
  clear hdeed hwrite
  cases hwrites with
  | told receiver message excludeSocket rest opened included =>
    cases opened with
    | external message excludeSocket isBroadcast =>
      exact ⟨fun _ _ ↦ Or.inr (Or.inr ⟨_, _, isBroadcast, rfl⟩),
        fun _ ↦ Or.inr (Or.inr ⟨_, _, isBroadcast, rfl⟩)⟩
    | joined client message brings notCommand =>
      exact ⟨fun text hline ↦ absurd hline joinedLine_ne_directLine,
        fun hline ↦ absurd hline joinedLine_ne_disconnectedLine⟩
    | relayed client message newUsername brings notCommand named =>
      constructor
      · intro text hline
        exact Or.inr (Or.inl ⟨client, ⟨message, newUsername, brings, notCommand, rfl⟩,
          chatLine_eq_directLine hline⟩)
      · intro hline
        exact Or.inr (Or.inl ⟨client, ⟨message, newUsername, brings, notCommand, rfl⟩,
          chatLine_eq_disconnectedLine hline⟩)
    | departed client rest opened named =>
      constructor
      · intro text hline
        exact absurd hline disconnectedLine_ne_directLine
      · intro hline
        exact Or.inl ⟨client, ⟨_, _, rest, rfl⟩, disconnectedLine_injective hline⟩
  | direct client receiver message newUsername brings command =>
    constructor
    · intro text hline
      exact Or.inl ⟨client, ⟨rfl, message, newUsername, brings, command⟩,
        directLine_eq_directLine hquote hline⟩
    · intro hline
      exact absurd hline.symm disconnectedLine_ne_directLine
  | notFound client message newUsername brings command =>
    exact ⟨fun text hline ↦ absurd hline notFoundLine_ne_directLine,
      fun hline ↦ absurd hline notFoundLine_ne_disconnectedLine⟩

end Runs

/-! ### Forgers -/

/-- Two clients connect, and the first of them sends two chunks. -/
def forgerVisit : List Event :=
  [.start, .acceptCompletes .success, .runAccept .success, .acceptCompletes .success,
    .runAccept .success, .readCompletes 0 (.data [1]), .runRead 0 (.data [1]),
    .readCompletes 0 (.data [1]), .runRead 0 (.data [1])]

/-- Every chunk is a message of a user whose name has the head of a direct message. -/
def forgedDirect (_ : Bytes) : Option Json :=
  some (envelope (ascii "[DM From 'kobold']: pay me") (ascii "now"))

/-- Every chunk is a message of a user whose name has a quote in front. -/
def forgedDeparture (_ : Bytes) : Option Json :=
  some (envelope (ascii "'kobold") (ascii "goblin' has disconnected!!"))

/-- The second client is sent a direct message of `kobold`, whom nobody has heard of. -/
theorem forgedDirect_written :
    ∃ deeds last,
      TracedEnds (standard reliable) 4 forgedDirect (initial 10) forgerVisit deeds last ∧
      ∃ deed ∈ deeds, (1, directLine (ascii "kobold") (ascii "pay me: now")) ∈ deed.writes := by
  have hsome : (playAt (standard reliable) 4 forgedDirect forgerVisit
      (initial 10)).isSome = true := by
    decide
  have hwritten : (1, directLine (ascii "kobold") (ascii "pay me: now")) ∈
      ((playAt (standard reliable) 4 forgedDirect forgerVisit (initial 10)).get
        hsome).1.flatMap Deed.writes := by
    decide +revert
  have hrun := traced_playAt hsome
  exact ⟨_, _, .returned hrun, List.mem_flatMap.mp hwritten⟩

/-- It was the relay of a message of a user whose name has the head of a direct message. -/
theorem lineOrigin_of_forgedDirect :
    ∃ deeds last,
      TracedEnds (standard reliable) 4 forgedDirect (initial 10) forgerVisit deeds last ∧
      ∃ deed ∈ deeds, (1, directLine (ascii "kobold") (ascii "pay me: now")) ∈ deed.writes ∧
        ((∃ sender, deed.IsDirect forgedDirect sender ∧ (deed.nameOf sender = ascii "kobold" ∨
          ascii "kobold" ++ directMiddle <+: deed.nameOf sender)) ∨
        (∃ client, deed.IsRelay forgedDirect client ∧ directHead <+: deed.nameOf client) ∨
        deed.IsExternal) := by
  obtain ⟨deeds, last, hends, deed, hdeed, hwrite⟩ := forgedDirect_written
  refine ⟨deeds, last, hends, deed, hdeed, hwrite, ?_⟩
  exact (lineOrigin hends deed hdeed 1 _ hwrite (ascii "kobold") (by decide) (by decide)).1 _ rfl

/-- The second client is sent a line of departure, and nobody has left. -/
theorem forgedDeparture_written :
    ∃ deeds last,
      TracedEnds (standard reliable) 4 forgedDeparture (initial 10) forgerVisit deeds last ∧
      ∃ deed ∈ deeds, (1, disconnectedLine (ascii "kobold: goblin")) ∈ deed.writes ∧
        deed.moment.callers.length ≤ 1 := by
  have hsome : (playAt (standard reliable) 4 forgedDeparture forgerVisit
      (initial 10)).isSome = true := by
    decide
  have hshallow : ((playAt (standard reliable) 4 forgedDeparture forgerVisit (initial 10)).get
      hsome).1.all (fun deed ↦ deed.moment.callers.length ≤ 1) = true := by
    decide +revert
  have hwritten : (1, disconnectedLine (ascii "kobold: goblin")) ∈
      ((playAt (standard reliable) 4 forgedDeparture forgerVisit (initial 10)).get
        hsome).1.flatMap Deed.writes := by
    decide +revert
  have hrun := traced_playAt hsome
  obtain ⟨deed, hdeed, hwrite⟩ := List.mem_flatMap.mp hwritten
  refine ⟨_, _, .returned hrun, deed, hdeed, hwrite, ?_⟩
  exact of_decide_eq_true (List.all_eq_true.mp hshallow deed hdeed)

/-- The chat line of a user with a suitable name is that of a direct message from another one, and
with another name and message it is a line of departure. -/
theorem not_unforgeable :
    (∃ deeds last,
      TracedEnds (standard reliable) 4 forgedDirect (initial 10) forgerVisit deeds last ∧
      ¬ Unforgeable forgedDirect deeds) ∧
    ∃ deeds last,
      TracedEnds (standard reliable) 4 forgedDeparture (initial 10) forgerVisit deeds last ∧
      ¬ Unforgeable forgedDeparture deeds := by
  constructor
  · obtain ⟨deeds, last, hends, deed, hdeed, hwrite⟩ := forgedDirect_written
    refine ⟨deeds, last, hends, fun hunforgeable ↦ ?_⟩
    obtain ⟨sender, ⟨-, message, newUsername, ⟨chunk, -, -, hfields⟩, hcommand⟩, -⟩ :=
      (hunforgeable deed hdeed 1 _ hwrite (ascii "kobold") (by decide) (by decide)).1 _ rfl
    cases hfields
    cases hcommand
  · obtain ⟨deeds, last, hends, deed, hdeed, hwrite, hshallow⟩ := forgedDeparture_written
    refine ⟨deeds, last, hends, fun hunforgeable ↦ ?_⟩
    obtain ⟨client, ⟨message, excludeSocket, rest, hcallers⟩, -⟩ :=
      (hunforgeable deed hdeed 1 _ hwrite (ascii "kobold: goblin") (by decide) (by decide)).2 rfl
    rw [hcallers, List.length_cons, List.length_cons] at hshallow
    omega

end KoboldKhat.Server
