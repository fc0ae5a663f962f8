import KoboldKhat.DirectCommand
import KoboldKhat.Server.ClientInput
import KoboldKhat.Server.LockDiscipline
import KoboldKhat.Server.Provenance

/-!
# Whom a direct message reaches

The `/dm` branch of `handleMessage` looks only at the words of the message and at the names in
`m_clients`: it writes one line, to the first session with the recipient's name, and stops when
there is none (`step_direct_of_found`, `step_direct_of_notFound`): the sender is told, but the log
of this goes through the end iterator, so a direct message is handled to its end exactly when its
recipient exists (`handlesDirect_iff`). It does not ask whether the two have names at all, so an
empty recipient finds a session that has not been named (`directBetweenRegistered_iff`), and what a
user has called itself need not be what it can be reached under (`reaches_iff`).
-/

set_option autoImplicit false
set_option relaxedAutoImplicit false

namespace KoboldKhat.Server

open Library

/-! ### The branch -/

section Branch

variable {parse : Bytes → Option Json} {network : Network} {state : State} {client : SessionId}
  {chunk message newUsername : Bytes}

/-- The state in which `handleMessage` handles the message of a chunk. -/
def State.handling (state : State) (parse : Bytes → Option Json) (client : SessionId)
    (chunk : Bytes) : State :=
  ((Event.runRead client (.data chunk)).prepare state).noteCall client (parsedMessage parse chunk)

/-- The read handler passes over a blank chunk and starts the next read. -/
theorem stepAt_blank (setting : Setting) (depth : ℕ) (hblank : IsBlankChunk chunk) :
    stepAt setting depth parse (.runRead client (.data chunk)) state =
      .returned () (((Event.runRead client (.data chunk)).prepare state).startRead client) :=
  exec_readHandler_of_blank depth _ setting parse client hblank

/-- A chunk whose fields cannot be read ends the read handler. -/
theorem stepAt_unreadable (setting : Setting) (depth : ℕ) (hblank : ¬ IsBlankChunk chunk)
    {fault : Fault} (hfields : messageFields (parsedMessage parse chunk) = .error fault) :
    stepAt setting depth parse (.runRead client (.data chunk)) state =
      .stopped fault (state.handling parse client chunk) := by
  rw [stepAt, Event.program, exec_readHandler_of_not_blank _ _ _ _ _ hblank,
    exec_handleMessage_of_error _ _ _ hfields]
  rfl

/-- The read handler on a message does what `handleMessage` does past the fields, and then starts
the next read. -/
theorem stepAt_message (setting : Setting) (depth : ℕ)
    (hbrings : (Event.runRead client (.data chunk)).Brings parse client message newUsername) :
    stepAt setting depth parse (.runRead client (.data chunk)) state =
      (if dmCommand.isPrefixOf message then
        (semantics setting).exec depth (handleDirectMessage message client)
          (state.handling parse client chunk)
      else (semantics setting).exec depth (handleChatMessage message newUsername client)
        (state.handling parse client chunk)).bind fun _ after ↦
          .returned () (after.startRead client) := by
  obtain ⟨hblank, hfields⟩ := hbrings.fields
  rw [stepAt, Event.program, exec_readHandler_of_not_blank _ _ _ _ _ hblank,
    exec_handleMessage_of_ok _ _ _ hfields]
  rfl

/-- A direct message that is handled to its end changes nothing but the record of the writes. -/
theorem handleDirectMessage_records (setting : Setting) (depth : ℕ)
    (hlock : setting.CanLock state) (message : Bytes) (client : SessionId) :
    ((semantics setting).exec depth (handleDirectMessage message client) state).Satisfies
      (fun _ after ↦ ∃ attempt, after = state.record [attempt]) fun _ _ ↦ True := by
  cases hfound : state.firstNamed (parseDirectMessage message).1 with
  | some receiver =>
    rw [exec_handleDirectMessage_of_found depth state setting hlock message client receiver hfound]
    exact ⟨_, rfl⟩
  | none =>
    cases hend : setting.pastEnd with
    | none =>
      rw [exec_handleDirectMessage_of_notFound depth state setting hlock hend message client
        hfound]
      trivial
    | some beyond =>
      rw [exec_handleDirectMessage_of_pastEnd depth state setting hlock hend message client hfound]
      exact ⟨_, rfl⟩

/-- The read handler on a direct message does what the branch does. -/
theorem step_direct
    (hbrings : (Event.runRead client (.data chunk)).Brings parse client message newUsername)
    (hcommand : dmCommand.isPrefixOf message = true) :
    step parse network (.runRead client (.data chunk)) state =
      ((semantics (standard network)).exec 4 (handleDirectMessage message client)
        (state.handling parse client chunk)).bind fun _ after ↦
          .returned () (after.startRead client) := by
  rw [step, stepAt_message _ _ hbrings, if_pos hcommand]

/-- A direct message is written to the first session with the name of its recipient. -/
theorem step_direct_of_found (hfree : state.held = 0)
    (hbrings : (Event.runRead client (.data chunk)).Brings parse client message newUsername)
    (hcommand : dmCommand.isPrefixOf message = true) {receiver : SessionId}
    (hfound : state.firstNamed (parseDirectMessage message).1 = some receiver) :
    step parse network (.runRead client (.data chunk)) state = .returned ()
      (((state.handling parse client chunk).record [state.attempt network receiver
        (directLine (state.username client) (parseDirectMessage message).2)]).startRead
          client) := by
  have hbranch := exec_handleDirectMessage_of_found 4 (state.handling parse client chunk)
    (standard network) (Or.inr hfree) message client receiver hfound
  rw [step_direct hbrings hcommand, hbranch]
  rfl

/-- When no session has the name of the recipient, the sender is told and the handler stops. -/
theorem step_direct_of_notFound (hfree : state.held = 0)
    (hbrings : (Event.runRead client (.data chunk)).Brings parse client message newUsername)
    (hcommand : dmCommand.isPrefixOf message = true)
    (hnone : state.firstNamed (parseDirectMessage message).1 = none) :
    step parse network (.runRead client (.data chunk)) state = .stopped .invalidAccess
      (((state.handling parse client chunk).record [state.attempt network client
        (notFoundLine (parseDirectMessage message).1)]).holding 1) := by
  have hbranch := exec_handleDirectMessage_of_notFound 4 (state.handling parse client chunk)
    (standard network) (Or.inr hfree) rfl message client hnone
  have hhandling : (state.handling parse client chunk).held = 0 := hfree
  rw [step_direct hbrings hcommand, hbranch, hhandling]
  rfl

/-- The first session with a name is in `m_clients` and has the name. -/
theorem mem_of_firstNamed {registry : Registry} {name : Bytes} {receiver : SessionId}
    (hfound : registry.firstNamed name = some receiver) :
    receiver ∈ registry.clients ∧ registry.username receiver = name := by
  refine ⟨List.mem_of_find?_eq_some hfound, ?_⟩
  simpa using List.find?_some hfound

end Branch

/-! ### Only between registered users -/

/-- The lines of a direct message that the handling of a chunk writes come from a session with a
name, and go to one with a name that is the word after the command. -/
def DirectBetweenRegistered (parse : Bytes → Option Json) (network : Network) (state : State)
    (client : SessionId) (chunk message : Bytes) : Prop :=
  ∀ attempts, (step parse network (.runRead client (.data chunk)) state).state.attempts =
      state.attempts ++ attempts →
    ∀ attempt ∈ attempts, ascii "[DM From '" <+: attempt.message →
      state.username client ≠ [] ∧ state.username attempt.client ≠ [] ∧
        state.username attempt.client = recipientWord message

section Registered

variable {parse : Bytes → Option Json} {network : Network} {state : State} {client : SessionId}
  {chunk message newUsername : Bytes}

/-- In every reachable state, and whatever the network does: what a session sends with `/dm` goes
from a user to a user exactly when, if some session in `m_clients` has the word after the command
for its name, the sender has a name and the word is not empty. -/
theorem directBetweenRegistered_iff (hreachable : Reachable parse network state)
    (hbrings : (Event.runRead client (.data chunk)).Brings parse client message newUsername)
    (hcommand : dmCommand.isPrefixOf message = true) :
    DirectBetweenRegistered parse network state client chunk message ↔
      ((∃ receiver ∈ state.clients, state.username receiver = recipientWord message) →
        state.username client ≠ [] ∧ recipientWord message ≠ []) := by
  have hfree := hreachable.held
  rw [← exists_firstNamed_iff, ← parseDirectMessage_fst hcommand]
  cases hfound : state.firstNamed (parseDirectMessage message).1 with
  | none =>
    refine iff_of_true ?_ (by rintro ⟨receiver, hreceiver⟩; cases hreceiver)
    unfold DirectBetweenRegistered
    rw [step_direct_of_notFound hfree hbrings hcommand hfound]
    intro attempts hattempts attempt hattempt hhead
    obtain rfl := List.append_cancel_left hattempts
    rw [List.mem_singleton.mp hattempt, State.attempt, attemptOf_message] at hhead
    obtain ⟨tail, htail⟩ := hhead
    cases congrArg List.head? htail
  | some receiver =>
    obtain ⟨-, hname⟩ := mem_of_firstNamed hfound
    have hclient := attemptOf_client network state.attempts.length (state.isOpen receiver) receiver
      (directLine (state.username client) (parseDirectMessage message).2)
    unfold DirectBetweenRegistered
    rw [step_direct_of_found hfree hbrings hcommand hfound]
    constructor
    · intro hregistered _
      have hhead : ascii "[DM From '" <+: (state.attempt network receiver
          (directLine (state.username client) (parseDirectMessage message).2)).message := by
        rw [State.attempt, attemptOf_message, directLine, List.append_assoc, List.append_assoc]
        exact List.prefix_append _ _
      obtain ⟨hsender, hreceiver, -⟩ := hregistered _ rfl _ List.mem_cons_self hhead
      rw [State.attempt, hclient, hname] at hreceiver
      exact ⟨hsender, hreceiver⟩
    · intro hnamed attempts hattempts attempt hattempt _
      obtain ⟨hsender, hword⟩ := hnamed ⟨receiver, rfl⟩
      obtain rfl := List.append_cancel_left hattempts
      rw [List.mem_singleton.mp hattempt, State.attempt, hclient, hname]
      exact ⟨hsender, hword, parseDirectMessage_fst hcommand⟩

end Registered

/-- What each chunk says: two users introduce themselves, and there are messages from one to the
other and to nobody. -/
def whispers : Bytes → Option Json
  | [1] => some (envelope (ascii "kobold") (ascii "hi"))
  | [2] => some (envelope (ascii "goblin") (ascii "hi"))
  | [3] => some (envelope (ascii "kobold") (ascii "/dm goblin see you"))
  | [4] => some (envelope (ascii "kobold") (ascii "/dm goblin see\nyou"))
  | [5] => some (envelope (ascii "kobold") (ascii "/dm "))
  | _ => none

/-- Two users introduce themselves, and then a chunk of the first of them has been read. -/
def introduced (chunk : Bytes) : List Event :=
  twoAccepts ++ [.readCompletes 0 (.data [1]), .runRead 0 (.data [1]),
    .readCompletes 1 (.data [2]), .runRead 1 (.data [2]), .readCompletes 0 (.data chunk)]

/-- A direct message from one user to another. -/
theorem directBetweenRegistered_of_introduced :
    ∃ state, Reachable whispers reliable state ∧ state.firstNamed (ascii "goblin") = some 1 ∧
      DirectBetweenRegistered whispers reliable state 0 [3] (ascii "/dm goblin see you") := by
  have hsome : (play whispers reliable (introduced [3]) (initial 10)).isSome = true := by decide
  have hreachable := reachable_of_play (Option.some_get hsome).symm
  have hbrings : (Event.runRead 0 (.data [3])).Brings whispers 0 (ascii "/dm goblin see you")
      (ascii "kobold") := ⟨[3], rfl, by decide, rfl⟩
  refine ⟨_, hreachable, rfl, ?_⟩
  exact (directBetweenRegistered_iff hreachable hbrings (by decide)).mpr
    fun _ ↦ ⟨List.cons_ne_nil _ _, by decide⟩

/-- A session without a name writes to itself by a `/dm` without a recipient. -/
theorem not_directBetweenRegistered_of_unnamed :
    ∃ state, play whispers reliable (firstChunk [5]) (initial 10) = some state ∧
      (0, .data [5]) ∈ state.readyReads ∧
      ¬ DirectBetweenRegistered whispers reliable state 0 [5] (ascii "/dm ") := by
  have hsome : (play whispers reliable (firstChunk [5]) (initial 10)).isSome = true := by decide
  refine ⟨_, (Option.some_get hsome).symm, List.mem_singleton.mpr rfl, fun hregistered ↦ ?_⟩
  have hwritten := hregistered [.whole (directLine [] []) 0] rfl _ List.mem_cons_self
    (List.prefix_append _ _)
  exact hwritten.1 rfl

/-! ### What a user can be reached under -/

/-- The handling of a chunk returns and adds a line to the stream of one session, and nothing to
those of the others. -/
def Reaches (parse : Bytes → Option Json) (network : Network) (state : State)
    (sender : SessionId) (chunk : Bytes) (receiver : SessionId) (line : Bytes) : Prop :=
  ∃ after, step parse network (.runRead sender (.data chunk)) state = .returned () after ∧
    ∀ client, after.outgoing client =
      state.outgoing client ++ if client = receiver then line else []

section Reaching

variable {parse : Bytes → Option Json} {network : Network} {state : State}
  {sender receiver : SessionId} {chunk message newUsername text : Bytes}

/-- A line that was written as a whole is added to the stream of its session. -/
theorem outgoing_record_whole (state : State) (line : Bytes) (client other : SessionId) :
    (state.record [.whole line client]).outgoing other =
      state.outgoing other ++ if other = client then line else [] := by
  unfold State.outgoing
  rw [record_attempts, List.filter_append, List.flatMap_append]
  by_cases hsame : other = client
  · simp [hsame, Attempt.whole]
  · simp [Attempt.whole, hsame, Ne.symm hsame]

/-- When no write fails, a direct message reaches a session with a text exactly when the session is
the first one with the name the command reader finds, and the text is the one it finds. -/
theorem reaches_iff_parsed (hreachable : Reachable parse network state)
    (hwhole : network.WholeFrom state.attempts.length)
    (hbrings : (Event.runRead sender (.data chunk)).Brings parse sender message newUsername)
    (hcommand : dmCommand.isPrefixOf message = true) :
    Reaches parse network state sender chunk receiver (directLine (state.username sender) text) ↔
      state.firstNamed (parseDirectMessage message).1 = some receiver ∧
        (parseDirectMessage message).2 = text := by
  have hfree := hreachable.held
  unfold Reaches
  cases hfound : state.firstNamed (parseDirectMessage message).1 with
  | none =>
    rw [step_direct_of_notFound hfree hbrings hcommand hfound]
    exact iff_of_false nofun nofun
  | some found =>
    obtain ⟨hmember, -⟩ := mem_of_firstNamed hfound
    have hattempt : state.attempt network found
        (directLine (state.username sender) (parseDirectMessage message).2) =
          .whole (directLine (state.username sender) (parseDirectMessage message).2) found := by
      rw [State.attempt, hreachable.wellFormed.member_open found hmember]
      exact attemptOf_of_whole (hwhole _ (Nat.le_refl _) found) _
    have houtgoing := fun client ↦ outgoing_record_whole state
      (directLine (state.username sender) (parseDirectMessage message).2) found client
    rw [step_direct_of_found hfree hbrings hcommand hfound, hattempt]
    constructor
    · rintro ⟨after, hreturned, hafter⟩
      obtain ⟨-, rfl⟩ := Outcome.returned.inj hreturned
      have hadded := fun client ↦
        List.append_cancel_left ((houtgoing client).symm.trans (hafter client))
      have hfirst := hadded found
      rw [if_pos rfl] at hfirst
      by_cases hsame : found = receiver
      · rw [if_pos hsame] at hfirst
        exact ⟨congrArg some hsame, List.append_cancel_left hfirst⟩
      · rw [if_neg hsame] at hfirst
        cases hfirst
    · rintro ⟨hsame, rfl⟩
      obtain rfl := Option.some.inj hsame
      exact ⟨_, rfl, houtgoing⟩

/-- In every reachable state, and when no write fails: the message `/dm`, name and text of a user,
with the name of a session in `m_clients`, reaches that session and no other one, as the line of a
direct message with the text, exactly when the name holds no whitespace, the session is the first
one in `m_clients` with the name, and the text holds no line feed. -/
theorem reaches_iff (hreachable : Reachable parse network state)
    (hwhole : network.WholeFrom state.attempts.length)
    (hregistered : state.username receiver ≠ [])
    (hbrings : (Event.runRead sender (.data chunk)).Brings parse sender
      (dmCommand ++ state.username receiver ++ 32 :: text) newUsername) :
    Reaches parse network state sender chunk receiver (directLine (state.username sender) text) ↔
      (∀ byte ∈ state.username receiver, isSpace byte = false) ∧
        state.firstNamed (state.username receiver) = some receiver ∧ 10 ∉ text := by
  have hcommand : dmCommand.isPrefixOf (dmCommand ++ state.username receiver ++ 32 :: text) =
      true := by
    rw [List.append_assoc]
    exact List.isPrefixOf_iff_prefix.mpr (List.prefix_append _ _)
  rw [reaches_iff_parsed hreachable hwhole hbrings hcommand]
  by_cases hspaces : ∀ byte ∈ state.username receiver, isSpace byte = false
  · have hparsed : parseDirectMessage (dmCommand ++ state.username receiver ++ 32 :: text) =
        (state.username receiver, text.takeWhile fun byte ↦ byte != 10) :=
      parseDirectMessage_of_word hregistered hspaces text
    rw [hparsed, takeWhile_eq_self_iff_notMem]
    exact (and_iff_right hspaces).symm
  · refine iff_of_false ?_ fun hboth ↦ hspaces hboth.1
    rintro ⟨hfound, -⟩
    obtain ⟨-, hname⟩ := mem_of_firstNamed hfound
    refine hspaces fun byte hbyte ↦ ?_
    rw [hname, parseDirectMessage_fst hcommand] at hbyte
    exact isSpace_of_mem_recipientWord byte hbyte

end Reaching

/-- A user reaches another one whose name is a word. -/
theorem reaches_of_introduced :
    ∃ state, Reachable whispers reliable state ∧ state.firstNamed (ascii "goblin") = some 1 ∧
      Reaches whispers reliable state 0 [3] 1 (directLine (ascii "kobold") (ascii "see you")) := by
  have hsome : (play whispers reliable (introduced [3]) (initial 10)).isSome = true := by decide
  have hreachable := reachable_of_play (Option.some_get hsome).symm
  have hbrings : (Event.runRead 0 (.data [3])).Brings whispers 0
      (dmCommand ++ ascii "goblin" ++ 32 :: ascii "see you") (ascii "kobold") :=
    ⟨[3], rfl, by decide, rfl⟩
  have hall : (ascii "goblin").all (fun byte ↦ !isSpace byte) = true := by decide
  have hspaces : ∀ byte ∈ ascii "goblin", isSpace byte = false := by simpa using hall
  refine ⟨_, hreachable, rfl, ?_⟩
  exact (@reaches_iff whispers reliable _ 0 1 [3] (ascii "kobold") (ascii "see you") hreachable
    (reliable_wholeFrom _) (show ascii "goblin" ≠ [] by decide) hbrings).mpr
    ⟨hspaces, rfl, by decide⟩

/-- A text with a line feed does not reach the other user as it is. -/
theorem not_reaches_of_lineFeed :
    ∃ state, Reachable whispers reliable state ∧ state.clients = [0, 1] ∧
      state.username 0 = ascii "kobold" ∧ state.username 1 = ascii "goblin" ∧
      (0, .data [4]) ∈ state.readyReads ∧
      (Event.runRead 0 (.data [4])).Brings whispers 0
        (dmCommand ++ ascii "goblin" ++ 32 :: ascii "see\nyou") (ascii "kobold") ∧
      ¬ Reaches whispers reliable state 0 [4] 1
        (directLine (ascii "kobold") (ascii "see\nyou")) := by
  have hsome : (play whispers reliable (introduced [4]) (initial 10)).isSome = true := by decide
  have hreachable := reachable_of_play (Option.some_get hsome).symm
  have hbrings : (Event.runRead 0 (.data [4])).Brings whispers 0
      (dmCommand ++ ascii "goblin" ++ 32 :: ascii "see\nyou") (ascii "kobold") :=
    ⟨[4], rfl, by decide, rfl⟩
  refine ⟨_, hreachable, rfl, rfl, rfl, List.mem_singleton.mpr rfl, hbrings, fun hreaches ↦ ?_⟩
  have hparsed := (reaches_iff_parsed hreachable (reliable_wholeFrom _) hbrings
    (by decide)).mp hreaches
  exact absurd hparsed.2 (by decide)

/-! ### From the message to the write -/

/-- The handling of a direct message returns, and all it does is one write: to the first session
with the name of the recipient, of the text under the sender's name; or to the sender, of the
notice that no session has the name. -/
def HandlesDirect (parse : Bytes → Option Json) (network : Network) (state : State)
    (client : SessionId) (chunk message : Bytes) : Prop :=
  ∃ after attempt, step parse network (.runRead client (.data chunk)) state = .returned () after ∧
    after.attempts = state.attempts ++ [attempt] ∧
    (match state.firstNamed (parseDirectMessage message).1 with
      | some receiver => attempt.client = receiver ∧
          attempt.message = directLine (state.username client) (parseDirectMessage message).2
      | none => attempt.client = client ∧
          attempt.message = notFoundLine (parseDirectMessage message).1) ∧
    after.clients = state.clients ∧ after.username = state.username

section Handling

variable {parse : Bytes → Option Json} {network : Network} {state : State} {client : SessionId}
  {chunk message newUsername : Bytes}

/-- In every reachable state, and whatever the network does: a message that begins with `/dm` is
handled to its end, with its one write, exactly when some session in `m_clients` has the recipient
the command reader finds for its name. -/
theorem handlesDirect_iff (hreachable : Reachable parse network state)
    (hbrings : (Event.runRead client (.data chunk)).Brings parse client message newUsername)
    (hcommand : dmCommand.isPrefixOf message = true) :
    HandlesDirect parse network state client chunk message ↔
      ∃ receiver ∈ state.clients, state.username receiver = (parseDirectMessage message).1 := by
  have hfree := hreachable.held
  rw [← exists_firstNamed_iff]
  unfold HandlesDirect
  cases hfound : state.firstNamed (parseDirectMessage message).1 with
  | none =>
    rw [step_direct_of_notFound hfree hbrings hcommand hfound]
    exact iff_of_false nofun nofun
  | some receiver =>
    refine iff_of_true ?_ ⟨receiver, rfl⟩
    rw [step_direct_of_found hfree hbrings hcommand hfound]
    exact ⟨_, _, rfl, rfl, ⟨attemptOf_client _ _ _ _ _, attemptOf_message _ _ _ _ _⟩, rfl, rfl⟩

end Handling

/-- A direct message to a user is handled to its end. -/
theorem handlesDirect_of_introduced :
    ∃ state, Reachable whispers reliable state ∧ (0, .data [3]) ∈ state.readyReads ∧
      HandlesDirect whispers reliable state 0 [3] (ascii "/dm goblin see you") := by
  have hsome : (play whispers reliable (introduced [3]) (initial 10)).isSome = true := by decide
  have hreachable := reachable_of_play (Option.some_get hsome).symm
  have hbrings : (Event.runRead 0 (.data [3])).Brings whispers 0 (ascii "/dm goblin see you")
      (ascii "kobold") := ⟨[3], rfl, by decide, rfl⟩
  have hname : ascii "goblin" = (parseDirectMessage (ascii "/dm goblin see you")).1 := by decide
  refine ⟨_, hreachable, List.mem_singleton.mpr rfl, ?_⟩
  exact (handlesDirect_iff hreachable hbrings (by decide)).mpr
    ⟨1, List.mem_cons_of_mem _ List.mem_cons_self, hname⟩

/-- A direct message without a recipient, among users with names, is not: the handler reads through
the end iterator. -/
theorem not_handlesDirect_of_nobody :
    ∃ state, Reachable whispers reliable state ∧ state.clients = [0, 1] ∧
      (0, .data [5]) ∈ state.readyReads ∧
      (Event.runRead 0 (.data [5])).Brings whispers 0 (ascii "/dm ") (ascii "kobold") ∧
      ¬ HandlesDirect whispers reliable state 0 [5] (ascii "/dm ") := by
  have hsome : (play whispers reliable (introduced [5]) (initial 10)).isSome = true := by decide
  have hreachable := reachable_of_play (Option.some_get hsome).symm
  have hbrings : (Event.runRead 0 (.data [5])).Brings whispers 0 (ascii "/dm ")
      (ascii "kobold") := ⟨[5], rfl, by decide, rfl⟩
  refine ⟨_, hreachable, rfl, List.mem_singleton.mpr rfl, hbrings, ?_⟩
  rintro ⟨after, attempt, hreturned, -⟩
  rw [step_direct_of_notFound hreachable.held hbrings (by decide) rfl] at hreturned
  cases hreturned

end KoboldKhat.Server
