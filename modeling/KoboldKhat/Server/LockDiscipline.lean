import KoboldKhat.Server.Sessions
import Mathlib.Data.Set.Basic

/-!
# Locking the mutex twice

When a set of sessions cannot be written to, an event locks `m_clientsMutex` while its own thread
holds it exactly when a broadcast of something that it makes addresses one of them
(`ne_relocked_iff_lockSafe`): the loop of `broadcastMessage` holds the mutex, and `removeClient`,
called for the failed session, locks it again, either itself or through the broadcast of the
departure. A broadcast of nothing never fails, as `asio::write` has nothing to send. The accept
handler and `shutdown` make no broadcast, and a direct message ignores whether its write failed.
-/

set_option autoImplicit false
set_option relaxedAutoImplicit false

namespace KoboldKhat.Server

open Library

/-! ### Sessions that cannot be written to -/

/-- The writes to open sockets that fail are those to the sessions of a set. -/
def Network.FailsOn (network : Network) (failing : Set SessionId) : Prop :=
  ∀ number client, network.write number client = .whole ↔ client ∉ failing

/-- A write of something to the session fails: the network fails it, or the socket is closed. -/
def Registry.CannotSend (registry : Registry) (failing : Set SessionId) (client : SessionId) :
    Prop :=
  client ∈ failing ∨ registry.isOpen client = false

/-- A broadcast that excludes a socket can write to every session it addresses. -/
def Registry.CanBroadcast (registry : Registry) (failing : Set SessionId)
    (excludeSocket : Option SessionId) : Prop :=
  ∀ client ∈ registry.clients, excludeSocket ≠ some client →
    ¬ registry.CannotSend failing client

/-- A network that fails the writes to the sessions a test picks out, with nothing sent. -/
def failingOn (failing : SessionId → Bool) : Network :=
  ⟨fun _ client ↦ if failing client then .cut 0 else .whole, fun _ ↦ true⟩

theorem failingOn_failsOn (failing : SessionId → Bool) :
    (failingOn failing).FailsOn { client | failing client = true } := by
  intro number client
  simp only [failingOn, Set.mem_ofPred_eq]
  cases failing client <;> simp

section Writes

variable {network : Network} {failing : Set SessionId}

/-- A write fails exactly if there is something to write and its session cannot be written to. -/
theorem attempt_ok_iff (hfails : network.FailsOn failing) (state : State) (client : SessionId)
    (message : Bytes) :
    (state.attempt network client message).ok = true ↔
      message = [] ∨ ¬ state.CannotSend failing client := by
  by_cases hmessage : message = []
  · rw [hmessage, State.attempt, attemptOf_nil]
    exact iff_of_true rfl (Or.inl rfl)
  rw [or_iff_right hmessage, State.attempt, Registry.CannotSend]
  cases hopen : state.isOpen client with
  | false =>
    rw [attemptOf_closed network _ client hmessage]
    simp
  | true =>
    rw [attemptOf_open network _ client hmessage]
    have hwrite := hfails state.attempts.length client
    cases hanswer : network.write state.attempts.length client with
    | whole => simpa [hanswer, WriteAnswer.returns] using hwrite
    | cut count => simpa [hanswer, WriteAnswer.returns] using hwrite

/-- A write of something that fails is to a session that cannot be written to. -/
theorem cannotSend_of_not_ok (hfails : network.FailsOn failing) {state : State}
    {client : SessionId} {message : Bytes}
    (hfailed : (state.attempt network client message).ok ≠ true) :
    message ≠ [] ∧ state.CannotSend failing client := by
  rw [Ne, attempt_ok_iff hfails, not_or, not_not] at hfailed
  exact hfailed

/-- A write of something to a session that cannot be written to fails. -/
theorem not_ok_of_cannotSend (hfails : network.FailsOn failing) {state : State}
    {client : SessionId} {message : Bytes} (hmessage : message ≠ [])
    (hfailed : state.CannotSend failing client) :
    (state.attempt network client message).ok ≠ true := by
  rw [Ne, attempt_ok_iff hfails, not_or, not_not]
  exact ⟨hmessage, hfailed⟩

/-- A sequence of writes succeeds exactly when there is nothing to write or all its sessions can be
written to. -/
theorem sendUntilFailure_all_ok_iff (hfails : network.FailsOn failing) (state : State)
    (message : Bytes) (targets : List SessionId) :
    (sendUntilFailure network state.isOpen message state.attempts.length targets).all Attempt.ok =
      true ↔ ∀ client ∈ targets, message = [] ∨ ¬ state.CannotSend failing client := by
  induction targets generalizing state with
  | nil => simp [sendUntilFailure]
  | cons client rest ih =>
    have hclient := attempt_ok_iff hfails state client message
    have hrest := ih (state.record [state.attempt network client message])
    rw [sendUntilFailure_cons, List.all_cons, Bool.and_eq_true, List.forall_mem_cons, ← hclient]
    refine and_congr_right fun hok ↦ ?_
    rw [if_pos hok]
    simpa using hrest

/-- A broadcast succeeds exactly when it can write its message to every session it addresses. -/
theorem broadcastAttempts_all_ok_iff (hfails : network.FailsOn failing) (state : State)
    (message : Bytes) (excludeSocket : Option SessionId) :
    (state.broadcastAttempts network message excludeSocket).all Attempt.ok = true ↔
      (message ≠ [] → state.CanBroadcast failing excludeSocket) := by
  rw [State.broadcastAttempts, sendUntilFailure_all_ok_iff hfails]
  simp only [addressed, List.mem_filter, decide_eq_true_eq, Registry.CanBroadcast, and_imp]
  constructor
  · intro hall hmessage client hmember hincluded
    exact (hall client hmember hincluded).resolve_left hmessage
  · intro hall client hmember hincluded
    exact or_iff_not_imp_left.mpr fun hmessage ↦ hall hmessage client hmember hincluded

end Writes

/-! ### The events that lock twice -/

/-- The socket the broadcast for a message of a session excludes: none when the message brings the
session its name. -/
def Registry.excludedSocket (registry : Registry) (client : SessionId) : Option SessionId :=
  if registry.username client = [] then none else some client

/-- Every broadcast of something that the event makes can write to the sessions it addresses. The
lines of the read handler are never empty. -/
def LockSafe (parse : Bytes → Option Json) (registry : Registry) (failing : Set SessionId) :
    Event → Prop
  | .broadcast message excludeSocket => message ≠ [] → registry.CanBroadcast failing excludeSocket
  | .runRead client .error =>
    registry.username client ≠ [] → registry.CanBroadcast failing (some client)
  | .runRead client (.data chunk) =>
    ∀ message username, ¬ IsBlankChunk chunk →
      messageFields (parsedMessage parse chunk) = .ok (message, username) →
      dmCommand.isPrefixOf message = false →
      registry.CanBroadcast failing (registry.excludedSocket client)
  | _ => True

theorem excludedSocket_of_unnamed {registry : Registry} {client : SessionId}
    (hunnamed : registry.username client = []) : registry.excludedSocket client = none :=
  if_pos hunnamed

theorem excludedSocket_of_named {registry : Registry} {client : SessionId}
    (hnamed : registry.username client ≠ []) : registry.excludedSocket client = some client :=
  if_neg hnamed

section Relock

variable {parse : Bytes → Option Json} {network : Network} {failing : Set SessionId}
  {state after : State} {event : Event}

/-- The writes for a departure succeed exactly when there are none or all their sessions can be
written to. -/
theorem departureAttempts_all_ok_iff (hfails : network.FailsOn failing) (state : State)
    (client : SessionId) :
    (state.departureAttempts network client).all Attempt.ok = true ↔
      (state.username client ≠ [] → state.CanBroadcast failing (some client)) := by
  rw [State.departureAttempts]
  split_ifs with hunnamed
  · simp [hunnamed]
  · rw [broadcastAttempts_all_ok_iff hfails]
    exact ⟨fun hsend _ ↦ hsend (disconnectedLine_ne_nil _), fun hsend _ ↦ hsend hunnamed⟩

/-- The event that returned made no broadcast it could not write. -/
theorem Effect.lockSafe (hfails : network.FailsOn failing)
    (heffect : Effect parse network state event after) :
    LockSafe parse state.toRegistry failing event := by
  cases heffect with
  | depart client sent => exact (departureAttempts_all_ok_iff hfails _ client).mp sent
  | blank client chunk isBlank => exact fun _ _ hnot _ _ ↦ absurd isBlank hnot
  | message client chunk message newUsername middle notBlank fields effect =>
    intro given username _ hfields hcommand
    rw [fields] at hfields
    cases hfields
    cases effect with
    | direct receiver command found =>
      rw [command] at hcommand
      cases hcommand
    | register command unnamed sent =>
      have hexcluded : state.excludedSocket client = none := excludedSocket_of_unnamed unnamed
      rw [hexcluded]
      exact (broadcastAttempts_all_ok_iff hfails _ _ _).mp sent (joinedLine_ne_nil _)
    | chat command named sent =>
      have hexcluded : state.excludedSocket client = some client := excludedSocket_of_named named
      rw [hexcluded]
      exact (broadcastAttempts_all_ok_iff hfails _ _ _).mp sent (chatLine_ne_nil _ _)
  | broadcast message excludeSocket sent =>
    exact (broadcastAttempts_all_ok_iff hfails _ _ _).mp sent
  | _ => trivial

/-- The event that stopped on its own mutex made a broadcast it could not write. -/
theorem Halt.not_lockSafe (hfails : network.FailsOn failing)
    (hhalt : Halt parse network state event .relocked after) :
    ¬ LockSafe parse state.toRegistry failing event := by
  intro hsafe
  cases hhalt with
  | depart client failed =>
    have hsent := (departureAttempts_all_ok_iff hfails state client).mpr hsafe
    cases hsent.symm.trans failed
  | fields client chunk fault notBlank fields =>
    obtain hfault | hfault := messageFields_error fields <;> cases hfault
  | message client chunk message newUsername fault middle notBlank fields halt =>
    cases halt with
    | register command unnamed failed =>
      have hsend := hsafe message newUsername notBlank fields command
      have hexcluded : state.excludedSocket client = none := excludedSocket_of_unnamed unnamed
      rw [hexcluded] at hsend
      have hsent := (broadcastAttempts_all_ok_iff hfails state (joinedLine newUsername) none).mpr
        fun _ ↦ hsend
      cases hsent.symm.trans failed
    | chat command named failed =>
      have hsend := hsafe message newUsername notBlank fields command
      have hexcluded : state.excludedSocket client = some client := excludedSocket_of_named named
      rw [hexcluded] at hsend
      have hsent := (broadcastAttempts_all_ok_iff hfails state
        (chatLine (state.username client) message) (some client)).mpr fun _ ↦ hsend
      cases hsent.symm.trans failed
  | broadcast message excludeSocket failed =>
    have hsent := (broadcastAttempts_all_ok_iff hfails state message excludeSocket).mpr hsafe
    cases hsent.symm.trans failed

/-- An event that stopped for another reason made no broadcast. -/
theorem Halt.lockSafe {fault : Fault} (hhalt : Halt parse network state event fault after)
    (hother : fault ≠ .relocked) : LockSafe parse state.toRegistry failing event := by
  cases hhalt with
  | peerGone room unknown => trivial
  | depart client failed => exact absurd rfl hother
  | fields client chunk fault notBlank fields =>
    intro message username _ hfields _
    rw [fields] at hfields
    cases hfields
  | message client chunk message newUsername fault middle notBlank fields halt =>
    cases halt with
    | notFound command none =>
      intro given username _ hfields hcommand
      rw [fields] at hfields
      cases hfields
      rw [command] at hcommand
      cases hcommand
    | register command unnamed failed => exact absurd rfl hother
    | chat command named failed => exact absurd rfl hother
  | broadcast message excludeSocket failed => exact absurd rfl hother

end Relock

/-- From every state whose mutex is free, and for every set of sessions that cannot be written to,
an event locks no mutex its thread holds exactly when every broadcast of something that it makes can
be written. -/
theorem ne_relocked_iff_lockSafe (parse : Bytes → Option Json) {network : Network}
    {failing : Set SessionId} (hfails : network.FailsOn failing) {state : State}
    (hfree : state.held = 0) (event : Event) :
    (∀ after, step parse network event state ≠ .stopped .relocked after) ↔
      LockSafe parse state.toRegistry failing event := by
  constructor
  · intro hnever
    cases hstep : step parse network event state with
    | returned value after => exact (effect_of_returned hfree hstep).lockSafe hfails
    | stopped fault after =>
      refine (halt_of_stopped hfree hstep).lockSafe fun hrelocked ↦ hnever after ?_
      rw [hstep, hrelocked]
  · intro hsafe after hrelocked
    exact (halt_of_stopped hfree hrelocked).not_lockSafe hfails hsafe

/-- The events after which the first two clients are in `m_clients`. -/
def twoAccepts : List Event :=
  [.start, .acceptCompletes .success, .runAccept .success, .acceptCompletes .success,
    .runAccept .success]

/-- A broadcast that leaves out the one session that cannot be written to locks the mutex once. -/
theorem ne_relocked_of_excluded :
    ∃ state, Reachable (fun _ ↦ none) reliable state ∧ state.clients = [0, 1] ∧ ∀ after,
      step (fun _ ↦ none) (failingOn fun client ↦ client == 0)
        (.broadcast (ascii "hello") (some 0)) state ≠ .stopped .relocked after := by
  have hsome : (play (fun _ ↦ none) reliable twoAccepts (initial 10)).isSome = true := by decide
  have hreachable := reachable_of_play (Option.some_get hsome).symm
  refine ⟨_, hreachable, rfl, ?_⟩
  refine (ne_relocked_iff_lockSafe _ (failingOn_failsOn _) hreachable.held _).mpr ?_
  intro _ client hmember hincluded
  have hcases : client = 0 ∨ client = 1 := by simpa using (show client ∈ [0, 1] from hmember)
  obtain rfl | rfl := hcases
  · exact absurd rfl hincluded
  · rintro (hfailing | hclosed)
    · cases hfailing
    · cases hclosed

/-- A broadcast to two sessions of which the first cannot be written to locks the mutex twice. -/
theorem relocked_of_failing :
    ∃ state, Reachable (fun _ ↦ none) reliable state ∧ state.clients = [0, 1] ∧ ∃ after,
      step (fun _ ↦ none) (failingOn fun client ↦ client == 0)
        (.broadcast (ascii "hello") none) state = .stopped .relocked after := by
  have hsome : (play (fun _ ↦ none) reliable twoAccepts (initial 10)).isSome = true := by decide
  exact ⟨_, reachable_of_play (Option.some_get hsome).symm, rfl, _, rfl⟩

end KoboldKhat.Server
