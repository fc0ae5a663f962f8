import KoboldKhat.Server.Reports

/-!
# What the server makes of a message

The server has no kinds of messages. `handleMessage` looks at the first characters of a message and
at the name that is stored for its session, and takes it for a direct message, for the registration
of the session, or for a chat. Each of the three is described by the broadcasts that are started and
the lines that are written (`directs_of_command`, `announces_of_unnamed`, `relays_of_named`), in the
setting of the source and when no write fails.
-/

set_option autoImplicit false
set_option relaxedAutoImplicit false

namespace KoboldKhat.Server

open Library

/-! ### Broadcasts that reach everyone -/

/-- No write fails from now on to the sessions that a broadcast addresses. -/
def State.Delivers (network : Network) (excludeSocket : Option SessionId) (state : State) : Prop :=
  ∀ client ∈ state.clients, excludeSocket ≠ some client →
    state.isOpen client = true ∧
      ∀ number, state.attempts.length ≤ number → network.write number client = .whole

section Broadcasts

variable {network : Network} {depth : ℕ} {event : Event} {callers : List Procedure}
  {message : Bytes} {excludeSocket : Option SessionId} {state : State}

/-- More writes may have been made. -/
theorem State.Delivers.record (hdelivers : state.Delivers network excludeSocket)
    (attempts : List Attempt) : (state.record attempts).Delivers network excludeSocket := by
  intro client hmember hincluded
  obtain ⟨hopen, hwhole⟩ := hdelivers client hmember hincluded
  refine ⟨hopen, fun number hle ↦ hwhole number (Nat.le_trans ?_ hle)⟩
  rw [record_attempts, List.length_append]
  exact Nat.le_add_right _ _

/-- The loop visits the session of a slot, and then those of the other slots. -/
theorem says_visitSlots_succ {body : SessionId → ServerProgram Unit} {remaining slot : ℕ}
    {client : SessionId} (hslot : state.clients[slot]? = some client) {middle after : State}
    {said later : List Report}
    (hvisit : Says (standard network) depth event callers (body client) state () said middle)
    (hrest : Says (standard network) depth event callers (visitSlots body remaining (slot + 1))
      middle () later after) :
    Says (standard network) depth event callers (visitSlots body (remaining + 1) slot) state ()
      (said ++ later) after :=
  (says_of_callless (callless_perform _) (exec_dereference _ _ _ hslot)).then (hvisit.bind hrest)

/-- A loop none of whose writes fails reports nothing. -/
theorem says_visitSlots_of_delivers {remaining slot : ℕ}
    (hend : slot + remaining = state.clients.length)
    (hdelivers : state.Delivers network excludeSocket) :
    ∃ after, Says (standard network) depth event callers
        (visitSlots (broadcastTo message excludeSocket) remaining slot) state () [] after ∧
      after.held = state.held := by
  induction remaining generalizing slot state with
  | zero => exact ⟨state, says_pure () state, rfl⟩
  | succ remaining ih =>
    have hlt : slot < state.clients.length := by omega
    obtain ⟨client, hslot⟩ : ∃ client, state.clients[slot]? = some client :=
      ⟨_, List.getElem?_eq_getElem hlt⟩
    by_cases hexcluded : excludeSocket = some client
    · obtain ⟨after, hrest, hheld⟩ := @ih state (slot + 1) (by omega) hdelivers
      exact ⟨after, says_visitSlots_succ hslot
        (says_broadcastTo_of_excluded state message hexcluded) hrest, hheld⟩
    · obtain ⟨hopen, hwhole⟩ := hdelivers client (List.mem_of_getElem? hslot) hexcluded
      have hok := attempt_ok_of_canWrite ⟨hopen, hwhole _ (Nat.le_refl _)⟩ message
      obtain ⟨after, hrest, hheld⟩ := @ih (state.record [state.attempt network client message])
        (slot + 1) (by rw [record_toRegistry]; omega) (hdelivers.record _)
      exact ⟨after, says_visitSlots_succ hslot (says_broadcastTo_of_ok hexcluded hok) hrest, hheld⟩

/-- A broadcast none of whose writes fails reports its purpose, and writes the message to every
session it addresses. -/
theorem says_callBroadcastMessage_of_whole (hfree : state.held = 0)
    (hopen : ∀ client ∈ state.clients, state.isOpen client = true)
    (hwhole : network.WholeFrom state.attempts.length) :
    Says (standard network) (depth + 3) event callers
      (callBroadcastMessage message excludeSocket) state ()
      ((purposeOf event callers excludeSocket).map Report.broadcast).toList
      (state.record ((addressed excludeSocket state.clients).map (Attempt.whole message))) := by
  have hdelivers : (state.holding (state.held + 1)).Delivers network excludeSocket :=
    fun client hmember _ ↦ ⟨hopen client hmember, fun number hle ↦ hwhole number hle client⟩
  obtain ⟨middle, hloop, hheld⟩ := @says_visitSlots_of_delivers network (depth + 2) event
    (.broadcastMessage message excludeSocket :: callers) message excludeSocket
    (state.holding (state.held + 1)) state.clients.length 0 (Nat.zero_add _) hdelivers
  have hspoken := says_callBroadcastMessage (Or.inr hfree) ((says_clients _).then hloop) hheld
  rw [List.append_nil] at hspoken
  refine ⟨?_, hspoken.2⟩
  rw [exec_callBroadcastMessage network depth state hfree, broadcastAttempts_of_whole hopen hwhole,
    if_pos (all_ok_map_whole _ _)]

end Broadcasts

/-! ### Messages -/

section Messages

variable {parse : Bytes → Option Json} {network : Network} {state : State} {client : SessionId}
  {chunk message newUsername : Bytes}

/-- What the broadcasts are for that the handling of a chunk starts. -/
def purposesAt (parse : Bytes → Option Json) (network : Network) (state : State)
    (client : SessionId) (chunk : Bytes) : List Purpose :=
  (broadcasts (deedsAt (standard network) 4 parse (.runRead client (.data chunk)) state)).map
    Prod.fst

/-- The handling of a chunk announces the session once, to every session in `m_clients`, and
stores its user name. -/
def Announces (parse : Bytes → Option Json) (network : Network) (state : State)
    (client : SessionId) (chunk username : Bytes) (after : State) : Prop :=
  after.username client = username ∧
    purposesAt parse network state client chunk = [.joined client] ∧
    after.attempts = state.attempts ++ state.clients.map (.whole (joinedLine username))

/-- The handling of a chunk relays a message of the session, once, to every other session in
`m_clients`. -/
def Relays (parse : Bytes → Option Json) (network : Network) (state : State)
    (client : SessionId) (chunk username message : Bytes) : Prop :=
  purposesAt parse network state client chunk = [.relayed client] ∧
    (step parse network (.runRead client (.data chunk)) state).state.attempts = state.attempts ++
      (addressed (some client) state.clients).map (.whole (chatLine username message))

/-- The handling of a chunk starts no broadcast and writes one line: a direct message to the first
session with the name of the recipient, or to the sender that there is none. -/
def Directs (parse : Bytes → Option Json) (network : Network) (state : State)
    (client : SessionId) (chunk username message : Bytes) : Prop :=
  purposesAt parse network state client chunk = [] ∧
    (step parse network (.runRead client (.data chunk)) state).state.attempts = state.attempts ++
      [match state.firstNamed (parseDirectMessage message).1 with
      | some receiver =>
        state.attempt network receiver (directLine username (parseDirectMessage message).2)
      | none => state.attempt network client (notFoundLine (parseDirectMessage message).1)]

/-- What is reported is what the broadcasts are for. -/
theorem purposesAt_of_spoken {said : List Report} {after : State}
    (hspoken : Says (standard network) 4 (.runRead client (.data chunk)) []
      (readHandler parse client (.data chunk))
      ((Event.runRead client (.data chunk)).prepare state) () said after) :
    purposesAt parse network state client chunk = said.filterMap Report.purpose := by
  rw [purposesAt, purposes_eq]
  exact congrArg (List.filterMap Report.purpose) hspoken.2

/-- A message of a session without a name that is no direct message registers the session. -/
theorem announces_of_unnamed (hregistry : state.WellFormed) (hfree : state.held = 0)
    (hwhole : network.WholeFrom state.attempts.length)
    (hbrings : (Event.runRead client (.data chunk)).Brings parse client message newUsername)
    (hcommand : dmCommand.isPrefixOf message = false) (hunnamed : state.username client = []) :
    ∃ after, step parse network (.runRead client (.data chunk)) state = .returned () after ∧
      Announces parse network state client chunk newUsername after := by
  have hopen : ∀ member ∈ ((state.handling parse client chunk).rename client newUsername).clients,
      ((state.handling parse client chunk).rename client newUsername).isOpen member = true :=
    hregistry.member_open
  have hbroadcast := @says_callBroadcastMessage_of_whole network 1
    (.runRead client (.data chunk)) [] (joinedLine newUsername) none
    ((state.handling parse client chunk).rename client newUsername) hfree hopen hwhole
  have hstored : (state.handling parse client chunk).username client = [] := hunnamed
  have hspoken := says_readHandler hbrings hcommand
    (says_handleChatMessage_of_unnamed hstored hbroadcast)
  refine ⟨_, hspoken.1, ?_, purposesAt_of_spoken hspoken, ?_⟩
  · exact Function.update_self client newUsername state.username
  · have hall : addressed none state.clients = state.clients := by simp [addressed]
    exact congrArg (fun members ↦ state.attempts ++ members.map (.whole (joinedLine newUsername)))
      hall

/-- A message of a session with a name that is no direct message is relayed under the name. -/
theorem relays_of_named (hregistry : state.WellFormed) (hfree : state.held = 0)
    (hwhole : network.WholeFrom state.attempts.length)
    (hbrings : (Event.runRead client (.data chunk)).Brings parse client message newUsername)
    (hcommand : dmCommand.isPrefixOf message = false) (hnamed : state.username client ≠ []) :
    Relays parse network state client chunk (state.username client) message := by
  have hopen : ∀ member ∈ (state.handling parse client chunk).clients,
      (state.handling parse client chunk).isOpen member = true := hregistry.member_open
  have hbroadcast := @says_callBroadcastMessage_of_whole network 1
    (.runRead client (.data chunk)) [] (chatLine (state.username client) message) (some client)
    (state.handling parse client chunk) hfree hopen hwhole
  have hstored : (state.handling parse client chunk).username client ≠ [] := hnamed
  have hspoken := says_readHandler hbrings hcommand
    (says_handleChatMessage_of_named hstored hbroadcast)
  refine ⟨purposesAt_of_spoken hspoken, ?_⟩
  rw [show step parse network (.runRead client (.data chunk)) state = _ from hspoken.1]
  rfl

/-- A message with the command is handled as a direct message. -/
theorem directs_of_command (hfree : state.held = 0)
    (hbrings : (Event.runRead client (.data chunk)).Brings parse client message newUsername)
    (hcommand : dmCommand.isPrefixOf message = true) :
    Directs parse network state client chunk (state.username client) message := by
  have hcallless : Callless (readHandler parse client (.data chunk)) := by
    refine callless_readHandler fun other otherUsername hother ↦ ?_
    obtain ⟨-, hfields⟩ := hbrings.fields
    obtain ⟨-, hfieldsOther⟩ := hother.fields
    rw [hfields] at hfieldsOther
    obtain ⟨rfl, -⟩ := Prod.mk.inj (Except.ok.inj hfieldsOther)
    exact hcommand
  refine ⟨?_, ?_⟩
  · rw [purposesAt, purposes_eq, deedsAt, Event.program,
      reports_of_callless hcallless (standard network) 4 _ [] _]
    rfl
  · cases hfound : state.firstNamed (parseDirectMessage message).1 with
    | some receiver =>
      rw [step_direct_of_found hfree hbrings hcommand hfound]
      rfl
    | none =>
      rw [step_direct_of_notFound hfree hbrings hcommand hfound]
      rfl

end Messages

/-! ### What later states keep -/

section Later

variable {parse : Bytes → Option Json} {network : Network} {state after : State} {event : Event}

/-- An event takes back no write, and changes no name that is not empty. -/
theorem Effect.keeps (heffect : Effect parse network state event after) :
    state.attempts.length ≤ after.attempts.length ∧
      ∀ client, state.username client ≠ [] → after.username client = state.username client := by
  have hwrites : ∀ attempts : List Attempt,
      state.attempts.length ≤ (state.attempts ++ attempts).length := by
    intro attempts
    rw [List.length_append]
    exact Nat.le_add_right _ _
  cases heffect with
  | message client chunk message newUsername after notBlank fields effect =>
    cases effect with
    | direct receiver command found => exact ⟨hwrites _, fun _ _ ↦ rfl⟩
    | register command unnamed sent =>
      refine ⟨hwrites _, fun other hnamed ↦ ?_⟩
      have hne : other ≠ client := by
        rintro rfl
        exact hnamed unnamed
      exact Function.update_of_ne hne newUsername state.username
    | chat command named sent => exact ⟨hwrites _, fun _ _ ↦ rfl⟩
  | depart client sent => exact ⟨hwrites _, fun _ _ ↦ rfl⟩
  | broadcast message excludeSocket sent => exact ⟨hwrites _, fun _ _ ↦ rfl⟩
  | _ => exact ⟨Nat.le_refl _, fun _ _ ↦ rfl⟩

/-- A later state of a run is well formed, nobody holds the mutex in it, no write has been taken
back, and the names given are the same. -/
theorem Run.keeps {events : List Event} {first last : State}
    (hrun : Run parse network first events last) (hregistry : first.WellFormed)
    (hfree : first.held = 0) :
    last.WellFormed ∧ last.held = 0 ∧ first.attempts.length ≤ last.attempts.length ∧
      ∀ client, first.username client ≠ [] → last.username client = first.username client := by
  induction hrun with
  | nil => exact ⟨hregistry, hfree, Nat.le_refl _, fun _ _ ↦ rfl⟩
  | snoc run enabled returned ih =>
    obtain ⟨hmiddle, hfreeMiddle, hwrites, hnames⟩ := ih
    have heffect := effect_of_returned hfreeMiddle returned
    obtain ⟨hmore, hsame⟩ := heffect.keeps
    refine ⟨heffect.wellFormed enabled hmiddle, heffect.held hfreeMiddle, hwrites.trans hmore, ?_⟩
    intro client hnamed
    have hmiddleName := hnames client hnamed
    rw [hsame client (hmiddleName.trans_ne hnamed), hmiddleName]

end Later

end KoboldKhat.Server
