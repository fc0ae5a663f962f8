import KoboldKhat.Server.DirectMessages
import KoboldKhat.Server.TwoRuns

/-!
# What does not influence what others receive

Two statements about pairs of runs of the server. The text of a direct message influences nothing
but the stream of its recipient (`directText_confidential`), and the user name sent with a message
influences nothing once the session has a name (`storedName_decides`). In both, the messages that
differ are handled by code that differs in one write to a hidden session, or not at all.
-/

set_option autoImplicit false
set_option relaxedAutoImplicit false

namespace KoboldKhat.Server

open Library

/-! ### Direct messages -/

/-- The beginning of a direct message up to the blank after its recipient. -/
structure Addresses (beginning recipient : Bytes) : Prop where
  nonempty : recipient ≠ []
  word : recipient.all (fun byte ↦ !isSpace byte) = true
  spelled : ∃ skipped blank, skipped.all isSpace = true ∧ isSpace blank = true ∧
    beginning = dmCommand ++ skipped ++ recipient ++ [blank]

/-- Two direct messages of one session with one beginning, whose recipient is the name of one hidden
session. -/
inductive TextsVary (parse : Bytes → Option Json) (hidden : Set SessionId) (first second : State)
    (client : SessionId) : Bytes → Bytes → Prop
  | vary {chunk other beginning recipient text otherText newUsername : Bytes}
      {receiver : SessionId} (addresses : Addresses beginning recipient)
      (brings : (Event.runRead client (.data chunk)).Brings parse client (beginning ++ text)
        newUsername)
      (bringsOther : (Event.runRead client (.data other)).Brings parse client
        (beginning ++ otherText) newUsername)
      (found : first.firstNamed recipient = some receiver)
      (foundOther : second.firstNamed recipient = some receiver)
      (isHidden : receiver ∈ hidden) :
      TextsVary parse hidden first second client chunk other

section DirectTexts

variable {beginning recipient : Bytes}

/-- What begins as a direct message is one. -/
theorem Addresses.command (haddresses : Addresses beginning recipient) (text : Bytes) :
    dmCommand.isPrefixOf (beginning ++ text) = true := by
  obtain ⟨skipped, blank, -, -, rfl⟩ := haddresses.spelled
  rw [List.append_assoc, List.append_assoc, List.append_assoc]
  exact List.isPrefixOf_iff_prefix.mpr (List.prefix_append _ _)

/-- The recipient of a direct message is settled by its beginning. -/
theorem Addresses.parse (haddresses : Addresses beginning recipient) (text : Bytes) :
    (parseDirectMessage (beginning ++ text)).1 = recipient := by
  rw [parseDirectMessage_fst (haddresses.command text)]
  obtain ⟨skipped, blank, hskipped, hblank, rfl⟩ := haddresses.spelled
  obtain ⟨letter, letters, rfl⟩ := List.exists_cons_of_ne_nil haddresses.nonempty
  have hletter : isSpace letter = false := by
    simpa using List.all_eq_true.mp haddresses.word letter List.mem_cons_self
  have hrest : dmCommand ++ skipped ++ letter :: letters ++ [blank] ++ text =
      dmCommand ++ (skipped ++ (letter :: letters ++ blank :: text)) := by simp
  have hskip : (skipped ++ (letter :: letters ++ blank :: text)).dropWhile isSpace =
      letter :: letters ++ blank :: text := by
    rw [List.dropWhile_append_of_pos (List.all_eq_true.mp hskipped), List.cons_append,
      List.dropWhile_cons_of_neg (by simp [hletter])]
  rw [recipientWord, hrest, List.drop_left, hskip,
    List.takeWhile_append_of_pos (List.all_eq_true.mp haddresses.word),
    List.takeWhile_cons_of_neg (by simp [hblank]), List.append_nil]

end DirectTexts

section Concealment

variable {setting : Setting} {depth : ℕ} {parse : Bytes → Option Json} {hidden : Set SessionId}
  {first second : State}

/-- A thread that cannot lock the mutex does not get into the branch. -/
theorem exec_handleDirectMessage_of_blocked (state : State) (hblocked : ¬ setting.CanLock state)
    (message : Bytes) (client : SessionId) :
    (semantics setting).exec depth (handleDirectMessage message client) state =
      .stopped .relocked state := by
  have hstandard : setting.mutex = .standard := by
    cases hmutex : setting.mutex with
    | standard => rfl
    | reentrant => exact absurd (Or.inl hmutex) hblocked
  rw [handleDirectMessage]
  simp only [Semantics.exec_bind,
    exec_lock_of_held _ _ _ hstandard fun hfree ↦ hblocked (Or.inr hfree), Outcome.bind_stopped]

/-- Indistinguishable states are so after the arrival of a message, whatever it is. -/
theorem Indistinguishable.handling (hsame : Indistinguishable hidden first second)
    (parse : Bytes → Option Json) (client : SessionId) (chunk other : Bytes) :
    Indistinguishable hidden (first.handling parse client chunk)
      (second.handling parse client other) :=
  ⟨hsame.registry, hsame.held, hsame.attempts⟩

/-- Reads that are started leave states indistinguishable. -/
theorem alike_startRead {outcome other : Outcome Fault State Unit}
    (halike : outcome.Alike (Indistinguishable hidden) other) (client : SessionId) :
    (outcome.bind fun _ after ↦ .returned () (after.startRead client)).Alike
      (Indistinguishable hidden)
      (other.bind fun _ after ↦ .returned () (after.startRead client)) :=
  halike.bind fun _ left right hafter ↦ .returned () ⟨by
    have hregistry := hafter.registry
    simp only [State.startRead, Registry.withoutReads, Registry.mk.injEq] at hregistry ⊢
    tauto, hafter.held, hafter.attempts⟩

/-- Two direct messages to a hidden session are handled indistinguishably. -/
theorem concealed_textsVary :
    Variation.Concealed (TextsVary parse hidden) setting depth parse hidden := by
  intro first second client chunk other hsame hvaries
  rcases hvaries with ⟨haddresses, hbrings, hbringsOther, hfound, hfoundOther, hhidden⟩
  rw [stepAt_message setting depth hbrings, stepAt_message setting depth hbringsOther,
    if_pos (haddresses.command _), if_pos (haddresses.command _)]
  apply alike_startRead
  have hhandling := hsame.handling parse client chunk other
  by_cases hlock : setting.CanLock (first.handling parse client chunk)
  · have hlockOther : setting.CanLock (second.handling parse client other) := by
      rwa [Setting.CanLock, ← hhandling.held]
    rw [exec_handleDirectMessage_of_found depth _ setting hlock _ client _
        ((congrArg first.firstNamed (haddresses.parse _)).trans hfound),
      exec_handleDirectMessage_of_found depth _ setting hlockOther _ client _
        ((congrArg second.firstNamed (haddresses.parse _)).trans hfoundOther)]
    refine .returned () (hhandling.record ⟨?_, ?_⟩)
    · rw [State.attempt, State.attempt, attemptOf_client, attemptOf_client]
    · intro hvisible
      rw [State.attempt, attemptOf_client] at hvisible
      exact absurd hhidden hvisible
  · have hblockedOther : ¬ setting.CanLock (second.handling parse client other) := by
      rwa [Setting.CanLock, ← hhandling.held]
    rw [exec_handleDirectMessage_of_blocked _ hlock,
      exec_handleDirectMessage_of_blocked _ hblockedOther]
    exact .stopped _ hhandling

end Concealment

/-- In two runs that differ in the texts of direct messages to hidden sessions, every other session
is sent the same bytes, and the sessions in `m_clients` and the user names are the same. -/
theorem directText_confidential {setting : Setting} {depth : ℕ} {parse : Bytes → Option Json}
    {hidden : Set SessionId} {maxClients : ℕ} {events others : List Event} {first second : State}
    (hends : TwoEnds setting depth parse (TextsVary parse hidden) (initial maxClients) events first
      others second) :
    (∀ client ∉ hidden, first.outgoing client = second.outgoing client) ∧
      first.clients = second.clients ∧ first.username = second.username := by
  have hsame := hends.indistinguishable concealed_textsVary
  exact ⟨fun client hvisible ↦ hsame.outgoing hvisible, hsame.clients, hsame.username⟩

/-- What each chunk says, with two more chats under different names. -/
def rumours : Bytes → Option Json
  | [6] => some (envelope (ascii "kobold") (ascii "hello"))
  | [7] => some (envelope (ascii "gnome") (ascii "hello"))
  | chunk => whispers chunk

/-- Two users introduce themselves. -/
def acquainted : List Event :=
  twoAccepts ++ [.readCompletes 0 (.data [1]), .runRead 0 (.data [1]),
    .readCompletes 1 (.data [2]), .runRead 1 (.data [2])]

/-- Two runs continue with two chunks that vary. -/
theorem TwoRuns.read {setting : Setting} {depth : ℕ} {parse : Bytes → Option Json}
    {varies : Variation} {start first second : State} {events others : List Event}
    {client : SessionId} {chunk other : Bytes}
    (hruns : TwoRuns setting depth parse varies start events first others second)
    (henabled : (Event.readCompletes client (.data chunk)).Enabled first)
    (henabledOther : (Event.readCompletes client (.data other)).Enabled second)
    (hvaries : varies ((Event.readCompletes client (.data chunk)).prepare first)
      ((Event.readCompletes client (.data other)).prepare second) client chunk other) :
    TwoEnds setting depth parse varies start
      (events ++ [.readCompletes client (.data chunk)] ++ [.runRead client (.data chunk)])
      (stepAt setting depth parse (.runRead client (.data chunk))
        ((Event.readCompletes client (.data chunk)).prepare first)).state
      (others ++ [.readCompletes client (.data other)] ++ [.runRead client (.data other)])
      (stepAt setting depth parse (.runRead client (.data other))
        ((Event.readCompletes client (.data other)).prepare second)).state :=
  .last (hruns.snoc (.completed client chunk other) henabled henabledOther rfl rfl)
    (.handled hvaries) (List.mem_append_right _ List.mem_cons_self)
    (List.mem_append_right _ List.mem_cons_self)

/-- One user tells another one different things. -/
theorem directText_confidential_of_acquainted :
    ∃ first second, TwoEnds (standard reliable) 4 rumours (TextsVary rumours {1}) (initial 10)
        (acquainted ++ [.readCompletes 0 (.data [3])] ++ [.runRead 0 (.data [3])]) first
        (acquainted ++ [.readCompletes 0 (.data [4])] ++ [.runRead 0 (.data [4])]) second ∧
      first.outgoing 1 ≠ second.outgoing 1 ∧ first.outgoing 0 = second.outgoing 0 := by
  have hsome : (play rumours reliable acquainted (initial 10)).isSome = true := by decide
  have henabled : ∀ chunk ∈ [[3], [4]], (Event.readCompletes 0 (.data chunk)).Enabled
      ((play rumours reliable acquainted (initial 10)).get hsome) := by decide +revert
  have hruns := @Run.twoRuns _ _ (TextsVary rumours {1}) _ _ _
    (play_eq_run (.nil _) (Option.some_get hsome).symm)
  have haddresses : Addresses (ascii "/dm goblin ") (ascii "goblin") :=
    ⟨by decide, by decide, [], 32, rfl, rfl, rfl⟩
  have hends := hruns.read (henabled [3] (by decide)) (henabled [4] (by decide))
    (.vary haddresses ⟨[3], rfl, by decide, rfl⟩ ⟨[4], rfl, by decide, rfl⟩ rfl rfl rfl)
  refine ⟨_, _, hends, ?_, (directText_confidential hends).1 0 Nat.zero_ne_one⟩
  clear hruns hends
  decide +revert

/-! ### The user name in the envelope -/

/-- Two messages of one session with a user name that differ in the user names sent with them. -/
inductive NamesVary (parse : Bytes → Option Json) (first second : State) (client : SessionId) :
    Bytes → Bytes → Prop
  | vary {chunk other message newUsername otherUsername : Bytes}
      (brings : (Event.runRead client (.data chunk)).Brings parse client message newUsername)
      (bringsOther : (Event.runRead client (.data other)).Brings parse client message
        otherUsername)
      (named : first.username client ≠ []) (namedOther : second.username client ≠ []) :
      NamesVary parse first second client chunk other

/-- Two messages of a session with a user name are handled alike, whatever is sent with them. -/
theorem concealed_namesVary {setting : Setting} {depth : ℕ} {parse : Bytes → Option Json} :
    Variation.Concealed (NamesVary parse) setting depth parse ∅ := by
  intro first second client chunk other hsame hvaries
  rcases hvaries with ⟨hbrings, hbringsOther, hnamed, hnamedOther⟩
  have hhandling := hsame.handling parse client chunk other
  rw [stepAt_message setting depth hbrings, stepAt_message setting depth hbringsOther]
  apply alike_startRead
  have hrespects := respects_indistinguishable setting ∅
  split_ifs with hcommand
  · exact Semantics.exec_alike hrespects depth _ hhandling
  · rw [exec_handleChatMessage_of_named depth (first.handling parse client chunk) setting _ _
        client hnamed,
      exec_handleChatMessage_of_named depth (second.handling parse client other) setting _ _
        client hnamedOther, hhandling.username]
    exact Semantics.exec_alike hrespects depth _ hhandling

/-- In two runs that differ in the user names sent with messages of sessions that have one already,
every session is sent the same bytes, and the sessions in `m_clients` and the user names are the
same. -/
theorem storedName_decides {setting : Setting} {depth : ℕ} {parse : Bytes → Option Json}
    {maxClients : ℕ} {events others : List Event} {first second : State}
    (hends : TwoEnds setting depth parse (NamesVary parse) (initial maxClients) events first others
      second) :
    (∀ client, first.outgoing client = second.outgoing client) ∧
      first.clients = second.clients ∧ first.username = second.username := by
  have hsame := hends.indistinguishable concealed_namesVary
  exact ⟨fun client ↦ hsame.outgoing (Set.notMem_empty client), hsame.clients, hsame.username⟩

/-- A user speaks under one name and under another one. -/
theorem storedName_decides_of_acquainted :
    ∃ first second, TwoEnds (standard reliable) 4 rumours (NamesVary rumours) (initial 10)
        (acquainted ++ [.readCompletes 0 (.data [6])] ++ [.runRead 0 (.data [6])]) first
        (acquainted ++ [.readCompletes 0 (.data [7])] ++ [.runRead 0 (.data [7])]) second ∧
      first.outgoing 1 = second.outgoing 1 := by
  have hsome : (play rumours reliable acquainted (initial 10)).isSome = true := by decide
  have henabled : ∀ chunk ∈ [[6], [7]], (Event.readCompletes 0 (.data chunk)).Enabled
      ((play rumours reliable acquainted (initial 10)).get hsome) := by decide +revert
  have hruns := @Run.twoRuns _ _ (NamesVary rumours) _ _ _
    (play_eq_run (.nil _) (Option.some_get hsome).symm)
  have hends := hruns.read (henabled [6] (by decide)) (henabled [7] (by decide))
    (.vary ⟨[6], rfl, by decide, rfl⟩ ⟨[7], rfl, by decide, rfl⟩ (List.cons_ne_nil _ _)
      (List.cons_ne_nil _ _))
  exact ⟨_, _, hends, (storedName_decides hends).1 1⟩

end KoboldKhat.Server
