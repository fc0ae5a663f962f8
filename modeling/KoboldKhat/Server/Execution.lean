import KoboldKhat.Server.State

/-!
# What each function of the server does

The exact outcome of every function of the server when one thread runs it. The operations come
first, in any setting. Then, in the setting of the source, `broadcastMessage`: it writes to the
addressed sessions one after the other (`sendUntilFailure`), returns when every write did, and at
the first failure stops on its own mutex (`exec_callBroadcastMessage`), because `removeClient`
locks what the broadcast holds (`exec_callRemoveClient_of_held`). `exec_callRemoveClient`,
`exec_handleMessage_of_ok`, `exec_handleMessage_of_error` and the lemmas on the handlers follow from
it.
-/

set_option autoImplicit false
set_option relaxedAutoImplicit false

namespace KoboldKhat.Server

open Library

/-! ### Operations -/

section Operations

variable (setting : Setting) (depth : ℕ) (state : State)

@[simp] theorem exec_unlock :
    (semantics setting).exec depth unlock state =
      .returned () (state.holding (state.held - 1)) :=
  rfl

/-- The thread can lock the mutex: the mutex is re-entrant, or the thread does not hold it. -/
def Setting.CanLock (setting : Setting) (state : State) : Prop :=
  setting.mutex = .reentrant ∨ state.held = 0

theorem exec_lock (hlock : setting.CanLock state) :
    (semantics setting).exec depth lock state = .returned () (state.holding (state.held + 1)) := by
  show ((if setting.mutex = .standard ∧ state.held ≠ 0 then
    (.stopped .relocked state : Outcome Fault State Unit)
    else .returned () { state with held := state.held + 1 }).bind fun reply after ↦
      .returned reply after) = _
  have hnot : ¬ (setting.mutex = .standard ∧ state.held ≠ 0) := by
    rintro ⟨hstandard, hheld⟩
    rcases hlock with hreentrant | hfree
    · rw [hstandard] at hreentrant
      cases hreentrant
    · exact hheld hfree
  rw [if_neg hnot]
  rfl

/-- A thread that does not hold the mutex locks it. -/
theorem exec_lock_of_free (hfree : state.held = 0) :
    (semantics setting).exec depth lock state = .returned () (state.holding 1) := by
  rw [exec_lock setting depth state (Or.inr hfree), hfree]

/-- A `std::mutex` blocks a thread that holds it. -/
theorem exec_lock_of_held (hmutex : setting.mutex = .standard) (hheld : state.held ≠ 0) :
    (semantics setting).exec depth lock state = .stopped .relocked state := by
  show ((if setting.mutex = .standard ∧ state.held ≠ 0 then
    (.stopped .relocked state : Outcome Fault State Unit)
    else .returned () { state with held := state.held + 1 }).bind fun reply after ↦
      .returned reply after) = _
  rw [if_pos ⟨hmutex, hheld⟩]
  rfl

/-- The record of a write of a message to a session in a state. -/
def State.attempt (network : Network) (state : State) (client : SessionId) (message : Bytes) :
    Attempt :=
  attemptOf network state.attempts.length (state.isOpen client) client message

@[simp] theorem exec_tryToSendMessage (client : SessionId) (message : Bytes) :
    (semantics setting).exec depth (tryToSendMessage client message) state =
      .returned (state.attempt setting.network client message).ok
        (state.record [state.attempt setting.network client message]) :=
  rfl

@[simp] theorem exec_remoteEndpoint (client : SessionId) :
    (semantics setting).exec depth (remoteEndpoint client) state =
      .returned (setting.network.peerKnown client) state :=
  rfl

@[simp] theorem exec_enterHandleMessage (jsonMessage : Json) (client : SessionId) :
    (semantics setting).exec depth (enterHandleMessage jsonMessage client) state =
      .returned () (state.noteCall client jsonMessage) :=
  rfl

@[simp] theorem exec_clients :
    (semantics setting).exec depth clients state = .returned state.clients state :=
  rfl

theorem exec_dereference {slot : ℕ} {client : SessionId}
    (hslot : state.clients[slot]? = some client) :
    (semantics setting).exec depth (dereference slot) state =
      .returned client state := by
  have hperform : perform setting (.registry (.dereference slot)) state =
      .returned client state := by
    simp only [perform, registryStep, hslot, Option.some_or]
  exact (Semantics.exec_perform depth state _).trans hperform

theorem exec_dereference_end {slot : ℕ} (hundefined : setting.pastEnd = none)
    (hslot : state.clients[slot]? = none) :
    (semantics setting).exec depth (dereference slot) state =
      .stopped .invalidAccess state := by
  have hperform : perform setting (.registry (.dereference slot)) state =
      .stopped .invalidAccess state := by
    simp only [perform, registryStep, hslot, hundefined, Option.or_none]
  exact (Semantics.exec_perform depth state _).trans hperform

theorem exec_dereference_pastEnd {slot : ℕ} {beyond : SessionId}
    (hsafe : setting.pastEnd = some beyond) (hslot : state.clients[slot]? = none) :
    (semantics setting).exec depth (dereference slot) state =
      .returned beyond state := by
  have hperform : perform setting (.registry (.dereference slot)) state =
      .returned beyond state := by
    simp only [perform, registryStep, hslot, hsafe, Option.none_or]
  exact (Semantics.exec_perform depth state _).trans hperform

@[simp] theorem exec_pushBack (client : SessionId) :
    (semantics setting).exec depth (pushBack client) state =
      .returned () { state with clients := state.clients ++ [client] } :=
  rfl

@[simp] theorem exec_erase (slot : ℕ) :
    (semantics setting).exec depth (erase slot) state =
      .returned () { state with clients := state.clients.eraseIdx slot } :=
  rfl

@[simp] theorem exec_clear :
    (semantics setting).exec depth clear state =
      .returned () { state with clients := [] } :=
  rfl

@[simp] theorem exec_maxClients :
    (semantics setting).exec depth maxClients state =
      .returned state.maxClients state :=
  rfl

@[simp] theorem exec_username (client : SessionId) :
    (semantics setting).exec depth (username client) state =
      .returned (state.username client) state :=
  rfl

@[simp] theorem exec_setUsername (client : SessionId) (newUsername : Bytes) :
    (semantics setting).exec depth (setUsername client newUsername) state =
      .returned () (state.rename client newUsername) :=
  rfl

@[simp] theorem exec_isOpen (client : SessionId) :
    (semantics setting).exec depth (isOpen client) state =
      .returned (state.isOpen client) state :=
  rfl

@[simp] theorem exec_close (client : SessionId) :
    (semantics setting).exec depth (close client) state =
      .returned () { state with isOpen := Function.update state.isOpen client false } :=
  rfl

@[simp] theorem exec_readClientMessage (client : SessionId) :
    (semantics setting).exec depth (readClientMessage client) state =
      .returned () { state with waitingReads := state.waitingReads ++ [client] } :=
  rfl

@[simp] theorem exec_acceptConnections :
    (semantics setting).exec depth acceptConnections state =
      .returned () { state with waitingAccepts := state.waitingAccepts + 1 } :=
  rfl

@[simp] theorem exec_closeAcceptor :
    (semantics setting).exec depth closeAcceptor state =
      .returned () { state with acceptorOpen := false } :=
  rfl

@[simp] theorem exec_setRunning (value : Bool) :
    (semantics setting).exec depth (setRunning value) state =
      .returned () { state with running := value } :=
  rfl

/-- Closing a socket unless it is closed leaves it closed. -/
@[simp] theorem exec_closeIfOpen (client : SessionId) :
    (semantics setting).exec depth (closeIfOpen client) state =
      .returned () { state with isOpen := Function.update state.isOpen client false } := by
  simp only [closeIfOpen, Semantics.exec_bind, exec_isOpen, Outcome.bind_returned,
    Semantics.exec_ite, exec_close, Semantics.exec_pure]
  split_ifs with hopen
  · rfl
  · rw [Function.update_eq_self_iff.mpr (by simpa using hopen)]

/-- Finding a session and erasing it erases its first occurrence. -/
@[simp] theorem exec_eraseClient (client : SessionId) :
    (semantics setting).exec depth (eraseClient client) state =
      .returned () { state with clients := state.clients.erase client } := by
  simp only [eraseClient, Semantics.exec_bind, exec_clients, Outcome.bind_returned]
  rw [List.erase_eq_eraseIdx]
  cases state.clients.idxOf? client with
  | some slot => rfl
  | none => rfl

end Operations

/-! ### Broadcasts -/

/-- The record of a write that sent the whole message. -/
def Attempt.whole (message : Bytes) (client : SessionId) : Attempt :=
  ⟨client, message, message, true⟩

/-- The writes of a message to sessions one after the other, up to the first that fails. The
number is that of the first write. -/
def sendUntilFailure (network : Network) (isOpen : SessionId → Bool) (message : Bytes) :
    ℕ → List SessionId → List Attempt
  | _, [] => []
  | number, client :: rest =>
    let attempt := attemptOf network number (isOpen client) client message
    attempt :: if attempt.ok then sendUntilFailure network isOpen message (number + 1) rest else []

/-- The sessions a broadcast addresses: all but the one with the excluded socket. -/
def addressed (excludeSocket : Option SessionId) (members : List SessionId) : List SessionId :=
  members.filter fun client ↦ excludeSocket ≠ some client

/-- The writes a broadcast makes in a state, up to the first that fails. -/
def State.broadcastAttempts (network : Network) (state : State) (message : Bytes)
    (excludeSocket : Option SessionId) : List Attempt :=
  sendUntilFailure network state.isOpen message state.attempts.length
    (addressed excludeSocket state.clients)

theorem State.broadcastAttempts_eq (network : Network) (state : State) (message : Bytes)
    (excludeSocket : Option SessionId) :
    state.broadcastAttempts network message excludeSocket =
      sendUntilFailure network state.isOpen message state.attempts.length
        (addressed excludeSocket state.clients) :=
  rfl

/-- The first write of a sequence, and the others if it returns. -/
theorem sendUntilFailure_cons (network : Network) (state : State) (message : Bytes)
    (client : SessionId) (rest : List SessionId) :
    sendUntilFailure network state.isOpen message state.attempts.length (client :: rest) =
      state.attempt network client message ::
        if (state.attempt network client message).ok then
          sendUntilFailure network state.isOpen message (state.attempts.length + 1) rest
        else [] :=
  rfl

/-- A write to an open socket sends the whole message when the network lets it. -/
theorem attemptOf_of_whole {network : Network} {number : ℕ} {client : SessionId}
    (hwhole : network.write number client = .whole) (message : Bytes) :
    attemptOf network number true client message = .whole message client := by
  by_cases hmessage : message = []
  · rw [hmessage]
    rfl
  · rw [attemptOf_open network number client hmessage, hwhole]
    rfl

/-- The writes to open sockets all send the whole message when the network lets them. -/
theorem sendUntilFailure_of_whole {network : Network} {isOpen : SessionId → Bool}
    {number : ℕ} {targets : List SessionId} (hopen : ∀ client ∈ targets, isOpen client = true)
    (hwhole : ∀ later, number ≤ later → ∀ client, network.write later client = .whole)
    (message : Bytes) :
    sendUntilFailure network isOpen message number targets =
      targets.map (Attempt.whole message) := by
  induction targets generalizing number with
  | nil => rfl
  | cons client rest ih =>
    have hfirst : attemptOf network number (isOpen client) client message =
        .whole message client := by
      rw [hopen client List.mem_cons_self]
      exact attemptOf_of_whole (hwhole number (Nat.le_refl _) client) message
    have hrest : sendUntilFailure network isOpen message (number + 1) rest =
        rest.map (Attempt.whole message) :=
      ih (fun other hother ↦ hopen other (.tail _ hother))
        fun later hlater ↦ hwhole later (Nat.le_of_succ_le hlater)
    simp only [sendUntilFailure, hfirst, hrest, Attempt.whole, if_true, List.map_cons]

/-- No write of the network fails from a number on. -/
def Network.WholeFrom (network : Network) (number : ℕ) : Prop :=
  ∀ later, number ≤ later → ∀ client, network.write later client = .whole

theorem reliable_wholeFrom (number : ℕ) : reliable.WholeFrom number :=
  fun _ _ _ ↦ rfl

/-- A broadcast to open sockets sends the whole message to each addressed session when the network
lets it. -/
theorem broadcastAttempts_of_whole {network : Network} {state : State}
    (hopen : ∀ client ∈ state.clients, state.isOpen client = true)
    (hwhole : network.WholeFrom state.attempts.length) (message : Bytes)
    (excludeSocket : Option SessionId) :
    state.broadcastAttempts network message excludeSocket =
      (addressed excludeSocket state.clients).map (Attempt.whole message) :=
  sendUntilFailure_of_whole (fun client hmember ↦ hopen client (List.mem_of_mem_filter hmember))
    hwhole message

theorem all_ok_map_whole (message : Bytes) (targets : List SessionId) :
    (targets.map (Attempt.whole message)).all Attempt.ok = true := by
  rw [List.all_map]
  exact List.all_eq_true.mpr fun _ _ ↦ rfl

/-- The end of a loop that made these writes: it returned if all of them did, and otherwise it
blocked on the mutex its thread holds. -/
def State.sentOrRelocked (state : State) (attempts : List Attempt) : Outcome Fault State Unit :=
  if attempts.all Attempt.ok then .returned () (state.record attempts)
  else .stopped .relocked (state.record attempts)

@[simp] theorem sentOrRelocked_nil (state : State) :
    state.sentOrRelocked [] = .returned () state := by
  simp [State.sentOrRelocked]

/-- After a write that returned, the rest of the writes decides. -/
theorem sentOrRelocked_cons_of_ok (state : State) {attempt : Attempt} (hok : attempt.ok = true)
    (attempts : List Attempt) :
    state.sentOrRelocked (attempt :: attempts) =
      (state.record [attempt]).sentOrRelocked attempts := by
  simp [State.sentOrRelocked, hok]

theorem sentOrRelocked_singleton_of_failed (state : State) {attempt : Attempt}
    (hfailed : attempt.ok = false) :
    state.sentOrRelocked [attempt] = .stopped .relocked (state.record [attempt]) := by
  simp [State.sentOrRelocked, hfailed]

theorem addressed_cons_of_excluded {excludeSocket : Option SessionId} {client : SessionId}
    (hexcluded : excludeSocket = some client) (rest : List SessionId) :
    addressed excludeSocket (client :: rest) = addressed excludeSocket rest := by
  simp [addressed, hexcluded]

theorem addressed_cons_of_ne {excludeSocket : Option SessionId} {client : SessionId}
    (hne : excludeSocket ≠ some client) (rest : List SessionId) :
    addressed excludeSocket (client :: rest) = client :: addressed excludeSocket rest := by
  simp [addressed, hne]

@[simp] theorem standard_network (network : Network) : (standard network).network = network :=
  rfl

section Broadcast

variable (network : Network) (depth : ℕ)

/-- A thread that holds the mutex blocks on itself when it broadcasts. -/
theorem exec_callBroadcastMessage_of_held (state : State) (hheld : state.held ≠ 0)
    (message : Bytes) (excludeSocket : Option SessionId) :
    (semantics (standard network)).exec (depth + 1) (callBroadcastMessage message excludeSocket)
      state = .stopped .relocked state := by
  have hbody : (semantics (standard network)).exec depth
      (broadcastMessage .slots message excludeSocket) state = .stopped .relocked state := by
    rw [broadcastMessage, Semantics.exec_bind, exec_lock_of_held _ _ _ rfl hheld,
      Outcome.bind_stopped]
  exact (Semantics.exec_invoke_succ depth state _).trans hbody

/-- A thread that holds the mutex blocks on itself when it removes a session, before it has changed
anything. -/
theorem exec_callRemoveClient_of_held (state : State) (hheld : state.held ≠ 0)
    (client : SessionId) :
    (semantics (standard network)).exec (depth + 2) (callRemoveClient client) state =
      .stopped .relocked state := by
  have hbody : (semantics (standard network)).exec (depth + 1) (removeClient client) state =
      .stopped .relocked state := by
    simp only [removeClient, Semantics.exec_bind, exec_username, Outcome.bind_returned,
      Semantics.exec_ite]
    split_ifs with hunnamed
    · rw [Semantics.exec_pure, Outcome.bind_returned, closeAndErase, Semantics.exec_bind,
        exec_lock_of_held _ _ _ rfl hheld, Outcome.bind_stopped]
    · rw [exec_callBroadcastMessage_of_held network depth state hheld, Outcome.bind_stopped]
  exact (Semantics.exec_invoke_succ (depth + 1) state _).trans hbody

/-- The loop of a broadcast from a slot on: it writes to the addressed sessions of the remaining
slots, and blocks at the first write that fails. -/
theorem exec_visitSlots_broadcastTo (message : Bytes) (excludeSocket : Option SessionId)
    (remaining slot : ℕ) (state : State) (hheld : state.held ≠ 0)
    (hend : slot + remaining = state.clients.length) :
    (semantics (standard network)).exec (depth + 2)
        (visitSlots (broadcastTo message excludeSocket) remaining slot) state =
      state.sentOrRelocked (sendUntilFailure network state.isOpen message state.attempts.length
        (addressed excludeSocket (state.clients.drop slot))) := by
  induction remaining generalizing slot state with
  | zero =>
    have hdone : state.clients.drop slot = [] := List.drop_eq_nil_of_le (by omega)
    simp [visitSlots, hdone, addressed, sendUntilFailure]
  | succ remaining ih =>
    have hslot : slot < state.clients.length := by omega
    have hdrop := List.drop_eq_getElem_cons hslot
    simp only [visitSlots, Semantics.exec_bind,
      exec_dereference _ _ _ (List.getElem?_eq_getElem hslot), Outcome.bind_returned, broadcastTo]
    generalize state.clients[slot] = client at hdrop ⊢
    rw [hdrop]
    by_cases hexcluded : excludeSocket = some client
    · rw [if_pos hexcluded, Semantics.exec_pure, Outcome.bind_returned,
        ih (slot + 1) state hheld (by omega), addressed_cons_of_excluded hexcluded]
    · rw [if_neg hexcluded, addressed_cons_of_ne hexcluded]
      simp only [Semantics.exec_bind, exec_tryToSendMessage, Outcome.bind_returned,
        Semantics.exec_ite, sendUntilFailure_cons, standard_network]
      cases hok : (state.attempt network client message).ok with
      | true =>
        rw [if_pos rfl, if_pos rfl, Semantics.exec_pure, Outcome.bind_returned,
          ih (slot + 1) (state.record _) hheld (by rw [record_toRegistry]; omega),
          sentOrRelocked_cons_of_ok state hok]
        simp
      | false =>
        rw [if_neg Bool.false_ne_true, if_neg Bool.false_ne_true,
          exec_callRemoveClient_of_held network depth (state.record _) hheld, Outcome.bind_stopped,
          sentOrRelocked_singleton_of_failed state hok]

/-- A broadcast of a thread that does not hold the mutex returns when all its writes do, and blocks
on the mutex it has locked at the first write that fails. -/
theorem exec_callBroadcastMessage (state : State) (hfree : state.held = 0) (message : Bytes)
    (excludeSocket : Option SessionId) :
    (semantics (standard network)).exec (depth + 3) (callBroadcastMessage message excludeSocket)
        state =
      if (state.broadcastAttempts network message excludeSocket).all Attempt.ok then
        .returned () (state.record (state.broadcastAttempts network message excludeSocket))
      else .stopped .relocked
        ((state.record (state.broadcastAttempts network message excludeSocket)).holding 1) := by
  refine (Semantics.exec_invoke_succ (depth + 2) state _).trans ?_
  show (semantics (standard network)).exec (depth + 2)
    (broadcastMessage .slots message excludeSocket) state = _
  simp only [broadcastMessage, forEachClient, Semantics.exec_bind, exec_lock_of_free _ _ _ hfree,
    exec_clients, Outcome.bind_returned]
  rw [exec_visitSlots_broadcastTo network depth message excludeSocket _ 0 _ (by simp) (by simp)]
  simp only [State.sentOrRelocked, holding_toRegistry, holding_attempts,
    List.drop_zero, ← State.broadcastAttempts_eq, record_holding]
  split_ifs with hall
  · simp only [Outcome.bind_returned, exec_unlock, holding_held, holding_holding, Nat.sub_self]
    rw [holding_eq_self (state.record _) hfree]
  · rfl

/-! ### Removals -/

/-- Closing and erasing a session under the mutex. -/
theorem exec_closeAndErase (setting : Setting) (state : State) (hlock : setting.CanLock state)
    (client : SessionId) :
    (semantics setting).exec depth (closeAndErase client) state =
      .returned () (state.discard client) := by
  simp only [closeAndErase, Semantics.exec_bind, exec_lock _ _ _ hlock, exec_closeIfOpen,
    exec_eraseClient, exec_unlock, Outcome.bind_returned]
  exact congrArg (Outcome.returned ()) (holding_eq_self (state.discard client) rfl)

/-- The removal of a session without a name, by a thread that can lock the mutex. -/
theorem exec_callRemoveClient_of_unnamed (setting : Setting) (state : State)
    (hlock : setting.CanLock state) (client : SessionId) (hunnamed : state.username client = []) :
    (semantics setting).exec (depth + 1) (callRemoveClient client) state =
      .returned () (state.discard client) := by
  refine (Semantics.exec_invoke_succ depth state _).trans ?_
  show (semantics setting).exec depth (removeClient client) state = _
  simp only [removeClient, Semantics.exec_bind, exec_username, Outcome.bind_returned, hunnamed,
    if_true, Semantics.exec_pure]
  exact exec_closeAndErase depth setting state hlock client

/-- The removal of a session with a name, by a thread that does not hold the mutex: the departure
is broadcast first, and the session is closed and erased if that returned. -/
theorem exec_callRemoveClient_of_named (state : State) (hfree : state.held = 0)
    (client : SessionId) (hnamed : state.username client ≠ []) :
    (semantics (standard network)).exec (depth + 4) (callRemoveClient client) state =
      if (state.broadcastAttempts network (disconnectedLine (state.username client))
          (some client)).all Attempt.ok then
        .returned () ((state.record (state.broadcastAttempts network
          (disconnectedLine (state.username client)) (some client))).discard client)
      else .stopped .relocked ((state.record (state.broadcastAttempts network
        (disconnectedLine (state.username client)) (some client))).holding 1) := by
  refine (Semantics.exec_invoke_succ (depth + 3) state _).trans ?_
  show (semantics (standard network)).exec (depth + 3) (removeClient client) state = _
  simp only [removeClient, Semantics.exec_bind, exec_username, Outcome.bind_returned,
    if_neg hnamed]
  rw [exec_callBroadcastMessage network depth state hfree]
  split_ifs with hall
  · exact exec_closeAndErase (depth + 3) (standard network) (state.record _) (Or.inr hfree) client
  · rfl

end Broadcast

/-! ### Messages -/

section Messages

variable (depth : ℕ) (state : State)

/-- The element a search finds is at the index the search finds. -/
theorem exists_findIdx?_of_find?_eq_some {α : Type} {found : α} {satisfies : α → Bool}
    {elements : List α} (hfound : elements.find? satisfies = some found) :
    ∃ slot, elements.findIdx? satisfies = some slot ∧ elements[slot]? = some found := by
  induction elements with
  | nil => simp at hfound
  | cons element rest ih =>
    rw [List.find?_cons] at hfound
    rw [List.findIdx?_cons]
    cases hsatisfies : satisfies element with
    | true =>
      rw [hsatisfies] at hfound
      exact ⟨0, rfl, hfound⟩
    | false =>
      rw [hsatisfies] at hfound
      obtain ⟨slot, hindex, hslot⟩ := ih hfound
      exact ⟨slot + 1, by simp [hindex], hslot⟩

/-- The search for a user name finds the first slot from the given one on. -/
theorem exec_findByUsername (setting : Setting) (recipient : Bytes) (members : List SessionId)
    (slot : ℕ) :
    (semantics setting).exec depth (findByUsername recipient members slot) state =
      .returned
        ((members.findIdx? fun client ↦ decide (state.username client = recipient)).map (slot + ·))
        state := by
  induction members generalizing slot with
  | nil => rfl
  | cons client rest ih =>
    simp only [findByUsername, Semantics.exec_bind, exec_username, Outcome.bind_returned,
      Semantics.exec_ite, List.findIdx?_cons, decide_eq_true_eq]
    split_ifs with hname
    · simp
    · rw [ih (slot + 1), Option.map_map]
      congr 2
      funext offset
      simp only [Function.comp_apply]
      omega

/-- The search for the name of a session in `m_clients` ends at a slot of the first such
session. -/
theorem exec_findByUsername_of_found (setting : Setting) {recipient : Bytes}
    {receiver : SessionId} (hfound : state.firstNamed recipient = some receiver) :
    ∃ slot, (semantics setting).exec depth (findByUsername recipient state.clients 0) state =
      .returned (some slot) state ∧ state.clients[slot]? = some receiver := by
  obtain ⟨slot, hindex, hslot⟩ := exists_findIdx?_of_find?_eq_some hfound
  refine ⟨slot, ?_, hslot⟩
  rw [exec_findByUsername, hindex, Option.map_some, Nat.zero_add]

/-- The search for a name no session in `m_clients` has ends at the end iterator. -/
theorem exec_findByUsername_of_notFound (setting : Setting) {recipient : Bytes}
    (hnone : state.firstNamed recipient = none) :
    (semantics setting).exec depth (findByUsername recipient state.clients 0) state =
      .returned none state := by
  have hindex : state.clients.findIdx?
      (fun client ↦ decide (state.username client = recipient)) = none := by
    rw [List.findIdx?_eq_none_iff]
    simpa [Registry.firstNamed] using hnone
  rw [exec_findByUsername, hindex, Option.map_none]

/-- A direct message whose recipient is the name of a session in `m_clients` is written to the
first such session. -/
theorem exec_handleDirectMessage_of_found (setting : Setting) (hlock : setting.CanLock state)
    (message : Bytes) (client receiver : SessionId)
    (hfound : state.firstNamed (parseDirectMessage message).1 = some receiver) :
    (semantics setting).exec depth (handleDirectMessage message client) state =
      .returned () (state.record [state.attempt setting.network receiver
        (directLine (state.username client) (parseDirectMessage message).2)]) := by
  obtain ⟨slot, hsearch, hslot⟩ := exec_findByUsername_of_found depth
    (state.holding (state.held + 1)) setting hfound
  have hslotAfter : ∀ attempts, ((state.holding (state.held + 1)).record attempts).clients[slot]? =
      some receiver := fun _ ↦ hslot
  rw [handleDirectMessage]
  simp only [Semantics.exec_bind, exec_lock _ _ _ hlock, exec_clients, Outcome.bind_returned,
    hsearch, deliverDirectMessage, exec_username, exec_tryToSendMessage,
    exec_dereference setting depth (state.holding (state.held + 1)) hslot,
    exec_dereference setting depth _ (hslotAfter _), Semantics.exec_pure, exec_unlock]
  exact congrArg (Outcome.returned ()) (holding_eq_self (state.record _) rfl)

/-- A direct message whose recipient is nobody's name is answered with a notice, and then the log
reads through the end iterator. -/
theorem exec_handleDirectMessage_of_notFound (setting : Setting) (hlock : setting.CanLock state)
    (hundefined : setting.pastEnd = none) (message : Bytes) (client : SessionId)
    (hnone : state.firstNamed (parseDirectMessage message).1 = none) :
    (semantics setting).exec depth (handleDirectMessage message client) state =
      .stopped .invalidAccess ((state.record [state.attempt setting.network client
        (notFoundLine (parseDirectMessage message).1)]).holding (state.held + 1)) := by
  have hsearch := exec_findByUsername_of_notFound depth (state.holding (state.held + 1)) setting
    hnone
  have hend : ∀ attempts, ((state.holding (state.held + 1)).record attempts).clients[
      (state.holding (state.held + 1)).clients.length]? = none :=
    fun _ ↦ List.getElem?_eq_none (Nat.le_refl _)
  rw [handleDirectMessage]
  simp only [Semantics.exec_bind, exec_lock _ _ _ hlock, exec_clients, Outcome.bind_returned,
    hsearch, reportNotFound, exec_tryToSendMessage,
    exec_dereference_end setting depth _ hundefined (hend _), Outcome.bind_stopped]
  rfl

/-- Where that read is safe, the notice is all that is written. -/
theorem exec_handleDirectMessage_of_pastEnd (setting : Setting) (hlock : setting.CanLock state)
    {beyond : SessionId} (hsafe : setting.pastEnd = some beyond) (message : Bytes)
    (client : SessionId) (hnone : state.firstNamed (parseDirectMessage message).1 = none) :
    (semantics setting).exec depth (handleDirectMessage message client) state =
      .returned () (state.record [state.attempt setting.network client
        (notFoundLine (parseDirectMessage message).1)]) := by
  have hsearch := exec_findByUsername_of_notFound depth (state.holding (state.held + 1)) setting
    hnone
  have hend : ∀ attempts, ((state.holding (state.held + 1)).record attempts).clients[
      (state.holding (state.held + 1)).clients.length]? = none :=
    fun _ ↦ List.getElem?_eq_none (Nat.le_refl _)
  rw [handleDirectMessage]
  simp only [Semantics.exec_bind, exec_lock _ _ _ hlock, exec_clients, Outcome.bind_returned,
    hsearch, reportNotFound, exec_tryToSendMessage,
    exec_dereference_pastEnd setting depth _ hsafe (hend _), exec_username, Semantics.exec_pure,
    exec_unlock]
  exact congrArg (Outcome.returned ()) (holding_eq_self (state.record _) rfl)

/-- A message of a session without a name stores the name sent with it and broadcasts an
announcement. -/
theorem exec_handleChatMessage_of_unnamed (setting : Setting) (message newUsername : Bytes)
    (client : SessionId) (hunnamed : state.username client = []) :
    (semantics setting).exec depth (handleChatMessage message newUsername client) state =
      (semantics setting).exec depth (callBroadcastMessage (joinedLine newUsername) none)
        (state.rename client newUsername) := by
  simp only [handleChatMessage, Semantics.exec_bind, exec_username, Outcome.bind_returned,
    hunnamed, if_true, exec_setUsername, rename_username, Function.update_self]

/-- A message of a session with a name is broadcast under that name to the other sessions. -/
theorem exec_handleChatMessage_of_named (setting : Setting) (message newUsername : Bytes)
    (client : SessionId) (hnamed : state.username client ≠ []) :
    (semantics setting).exec depth (handleChatMessage message newUsername client) state =
      (semantics setting).exec depth
        (callBroadcastMessage (chatLine (state.username client) message) (some client)) state := by
  simp only [handleChatMessage, Semantics.exec_bind, exec_username, Outcome.bind_returned,
    if_neg hnamed]

/-- `handleMessage` records its call, and then a message whose fields cannot be read ends the
handler. -/
theorem exec_handleMessage_of_error (setting : Setting) {jsonMessage : Json} {fault : Fault}
    (hfields : messageFields jsonMessage = .error fault) (client : SessionId) :
    (semantics setting).exec depth (handleMessage jsonMessage client) state =
      .stopped fault (state.noteCall client jsonMessage) := by
  simp only [handleMessage, Semantics.exec_bind, exec_enterHandleMessage, Outcome.bind_returned,
    hfields]
  rfl

/-- `handleMessage` records its call, and then handles the message by its first characters. -/
theorem exec_handleMessage_of_ok (setting : Setting) {jsonMessage : Json}
    {message newUsername : Bytes}
    (hfields : messageFields jsonMessage = .ok (message, newUsername)) (client : SessionId) :
    (semantics setting).exec depth (handleMessage jsonMessage client) state =
      if dmCommand.isPrefixOf message then
        (semantics setting).exec depth (handleDirectMessage message client)
          (state.noteCall client jsonMessage)
      else (semantics setting).exec depth (handleChatMessage message newUsername client)
        (state.noteCall client jsonMessage) := by
  simp only [handleMessage, Semantics.exec_bind, exec_enterHandleMessage, Outcome.bind_returned,
    hfields, Program.ofExcept]
  exact Semantics.exec_ite depth _ _ _ _

end Messages

/-! ### Handlers -/

section Handlers

variable (depth : ℕ) (state : State) (setting : Setting)

/-- The read handler passes over a blank chunk. -/
theorem exec_readHandler_of_blank (parse : Bytes → Option Json) (client : SessionId)
    {chunk : Bytes} (hblank : IsBlankChunk chunk) :
    (semantics setting).exec depth (readHandler parse client (.data chunk)) state =
      .returned () { state with waitingReads := state.waitingReads ++ [client] } := by
  simp only [readHandler, if_pos hblank, Semantics.exec_bind, Semantics.exec_pure,
    Outcome.bind_returned, exec_readClientMessage]

/-- The read handler hands any other chunk to `handleMessage` and starts the next read if that
returned. -/
theorem exec_readHandler_of_not_blank (parse : Bytes → Option Json) (client : SessionId)
    {chunk : Bytes} (hblank : ¬ IsBlankChunk chunk) :
    (semantics setting).exec depth (readHandler parse client (.data chunk)) state =
      ((semantics setting).exec depth (handleMessage (parsedMessage parse chunk) client)
        state).bind fun _ after ↦
          .returned () { after with waitingReads := after.waitingReads ++ [client] } := by
  simp only [readHandler, if_neg hblank, Semantics.exec_bind, exec_readClientMessage]

/-- The accept handler at capacity closes the new socket and starts the next accept. -/
theorem exec_acceptHandler_of_full (newSocket : SessionId) (hfree : state.held = 0)
    (hfull : state.maxClients ≤ state.clients.length) :
    (semantics setting).exec depth (acceptHandler newSocket .success) state =
      .returned ()
        { state with
          isOpen := Function.update state.isOpen newSocket false
          waitingAccepts := state.waitingAccepts + 1 } := by
  have hfullHeld : (state.holding 1).maxClients ≤ (state.holding 1).clients.length := hfull
  simp only [acceptHandler, Semantics.exec_bind, exec_lock_of_free _ _ _ hfree, exec_clients,
    exec_maxClients, Outcome.bind_returned, if_pos hfullHeld, rejectConnection, exec_close,
    exec_acceptConnections, exec_unlock]
  simp [State.holding, hfree]

/-- The state in which the accept handler has published a session. -/
def State.publish (state : State) (newSocket : SessionId) : State :=
  { state with clients := state.clients ++ [newSocket] }

/-- The accept handler below capacity publishes the new session, and then starts its first read and
the next accept, unless the peer is gone. -/
theorem exec_acceptHandler_of_room (newSocket : SessionId) (hfree : state.held = 0)
    (hroom : state.clients.length < state.maxClients) :
    (semantics setting).exec depth (acceptHandler newSocket .success) state =
      if setting.network.peerKnown newSocket then
        .returned ()
          { state.publish newSocket with
            waitingReads := state.waitingReads ++ [newSocket]
            waitingAccepts := state.waitingAccepts + 1 }
      else .stopped .exception (state.publish newSocket) := by
  have hroomHeld : ¬ (state.holding 1).maxClients ≤ (state.holding 1).clients.length :=
    Nat.not_le.mpr hroom
  simp only [acceptHandler, Semantics.exec_bind, exec_lock_of_free _ _ _ hfree, exec_clients,
    exec_maxClients, Outcome.bind_returned, if_neg hroomHeld, exec_unlock, holding_held,
    holding_holding, Nat.sub_self, holding_eq_self state hfree, admitConnection, exec_pushBack,
    exec_remoteEndpoint]
  split_ifs with hknown
  · simp only [Semantics.exec_pure, Outcome.bind_returned, exec_readClientMessage,
      exec_acceptConnections]
    rw [← hfree]
    rfl
  · rw [← hfree]
    rfl

/-- The loop of `shutdown` closes the sockets of the remaining slots. -/
theorem exec_visitSlots_closeIfOpen (remaining slot : ℕ) (state : State)
    (hend : slot + remaining = state.clients.length) :
    (semantics setting).exec depth (visitSlots closeIfOpen remaining slot) state =
      .returned ()
        { state with
          isOpen := fun client ↦ state.isOpen client && client ∉ state.clients.drop slot } := by
  induction remaining generalizing slot state with
  | zero =>
    have hdone : state.clients.drop slot = [] := List.drop_eq_nil_of_le (by omega)
    simp [visitSlots, hdone]
  | succ remaining ih =>
    have hslot : slot < state.clients.length := by omega
    have hdrop := List.drop_eq_getElem_cons hslot
    simp only [visitSlots, Semantics.exec_bind,
      exec_dereference _ _ _ (List.getElem?_eq_getElem hslot), Outcome.bind_returned,
      exec_closeIfOpen]
    generalize state.clients[slot] = client at hdrop ⊢
    rw [ih (slot + 1) _ (by show slot + 1 + remaining = state.clients.length; omega), hdrop]
    congr 3
    funext other
    by_cases hother : other = client <;> simp [hother, Function.update]

/-- `shutdown` closes every socket in `m_clients`, empties it, and closes the acceptor. -/
theorem exec_shutdown (hfree : state.held = 0) :
    (semantics setting).exec depth shutdown state =
      .returned ()
        { state with
          running := false
          isOpen := fun client ↦ state.isOpen client && client ∉ state.clients
          clients := []
          acceptorOpen := false } := by
  simp only [shutdown, forEachClient, Semantics.exec_bind, exec_setRunning, Outcome.bind_returned,
    exec_clients, exec_lock_of_free setting depth { state with running := false } hfree]
  rw [exec_visitSlots_closeIfOpen depth setting _ 0 _ (by simp)]
  simp only [Outcome.bind_returned, exec_clear, exec_closeAcceptor, exec_unlock]
  simp [State.holding, hfree]

end Handlers

end KoboldKhat.Server
