import KoboldKhat.Server.FailureHandling
import KoboldKhat.Server.Trace
import Mathlib.Data.List.Count
import Mathlib.Data.List.Nodup

/-!
# What a broadcast reaches when a write fails

`broadcastMessage` with a re-entrant mutex and the range-for of the source, when at most one session
of `m_clients` cannot be written to. If no such session is addressed, or there is nothing to write,
every addressed session is written to once. Otherwise the loop reaches it, removes it, and the
removal erases its slot from the vector that the loop walks. If it was in the last slot, the loop is
over. If it was not, the next slot holds the session after the one that is skipped, and the walk
goes on to a slot past the end (`visitSlots_ne_returned`).

The writes of the loop itself are told from those of the announcements nested in it by the calls
they are inside of (`ownWrite`).
-/

set_option autoImplicit false
set_option relaxedAutoImplicit false

namespace KoboldKhat.Server

open Library

/-- The session and the line of a write that the code of the outermost call makes itself. -/
def ownWrite (moment : Moment signature State) : Option (SessionId × Bytes) :=
  match moment.callers, moment.action with
  | [_], .perform (.write client message) => some (client, message)
  | _, _ => none

/-- The writes that a call of `broadcastMessage` makes itself. -/
def broadcastWrites (setting : Setting) (depth : ℕ) (message : Bytes)
    (excludeSocket : Option SessionId) (state : State) : List (SessionId × Bytes) :=
  ((semantics setting).trace depth [] (callBroadcastMessage message excludeSocket)
    state).filterMap ownWrite

/-- Some of the writes to the session failed. -/
def failedOn (attempts : List Attempt) (client : SessionId) : Bool :=
  attempts.any fun attempt ↦ decide (attempt.client = client) && !attempt.ok

/-- The broadcast returns, so its loop has read no slot past the end of `m_clients`. It has written
its message once to each session it addresses, and exactly the sessions on which a write failed
meanwhile are gone from `m_clients`. -/
def Distributes (network : Network) (depth : ℕ) (message : Bytes)
    (excludeSocket : Option SessionId) (state : State) : Prop :=
  ∃ after attempts,
    (semantics (reentrant .slots network)).exec depth (callBroadcastMessage message excludeSocket)
      state = .returned () after ∧
    after.attempts = state.attempts ++ attempts ∧
    (∀ client ∈ addressed excludeSocket state.clients,
      (broadcastWrites (reentrant .slots network) depth message excludeSocket state).count
        (client, message) = 1) ∧
    after.clients = state.clients.filter fun client ↦ !failedOn attempts client

/-! ### The walk over the slots -/

section Walk

variable {body : SessionId → ServerProgram Unit}

/-- A walk over some slots and then some more. -/
theorem visitSlots_add (first second slot : ℕ) :
    visitSlots body (first + second) slot =
      visitSlots body first slot >>= fun _ ↦ visitSlots body second (slot + first) := by
  induction first generalizing slot with
  | zero => simp [visitSlots]
  | succ first ih =>
    rw [Nat.succ_add]
    simp only [visitSlots, ih, bind_assoc, Nat.add_assoc, Nat.add_comm 1 first]

/-- Code inside a nested call makes no write of the outermost call. -/
theorem ownWrites_nested {α : Type} (setting : Setting) (depth : ℕ) (inner outer : Procedure)
    (program : ServerProgram α) (state : State) :
    ((semantics setting).trace depth [inner, outer] program state).filterMap ownWrite = [] := by
  refine List.filterMap_eq_nil_iff.mpr fun moment hmoment ↦ ?_
  have hcallers := Semantics.trace_callers depth [inner, outer] state program moment hmoment
  obtain ⟨callers, action, before⟩ := moment
  obtain ⟨rest, rfl⟩ := hcallers
  rcases rest with _ | ⟨first, _ | ⟨second, rest⟩⟩ <;> rfl

end Walk

/-! ### Sessions that can be written to -/

section Sending

variable {network : Network} {failing : Set SessionId} {depth : ℕ} {procedure : Procedure}
  {message : Bytes} {excludeSocket : Option SessionId} {state : State}

/-- What the code of the outermost call writes on the way to its value. -/
abbrev OwnWrites {α : Type} (network : Network) (depth : ℕ) (procedure : Procedure) (state : State)
    (program : ServerProgram α) (value : α) (written : List (SessionId × Bytes)) (after : State) :
    Prop :=
  (semantics (reentrant .slots network)).Observes depth [procedure] state ownWrite program value
    written after

/-- An operation that is not a write. -/
theorem writes_of_quiet {operation : Operation} {reply : operation.Reply} {after : State}
    (hquiet : ownWrite ⟨[procedure], .perform operation, state⟩ = none)
    (hexec : (semantics (reentrant .slots network)).exec depth
      (@Program.perform signature operation) state = .returned reply after) :
    OwnWrites network depth procedure state (@Program.perform signature operation) reply []
      after := by
  refine ⟨hexec, ?_⟩
  rw [Semantics.trace_perform, List.filterMap_cons, hquiet]
  rfl

/-- The body of the loop writes the message once to a session that is not excluded and can be
written to. -/
theorem broadcastTo_writes (hfails : network.FailsOn failing) {client : SessionId}
    (hsend : excludeSocket ≠ some client → message = [] ∨ ¬state.CannotSend failing client) :
    ∃ attempts, attempts.all Attempt.ok = true ∧
      OwnWrites network depth procedure state (broadcastTo message excludeSocket client) ()
        ((addressed excludeSocket [client]).map fun client ↦ (client, message))
        (state.record attempts) := by
  by_cases hexcluded : excludeSocket = some client
  · refine ⟨[], rfl, ?_⟩
    rw [addressed_cons_of_excluded hexcluded, broadcastTo, if_pos hexcluded, record_nil]
    exact Semantics.observes_pure ()
  · have hok := (attempt_ok_iff hfails state client message).mpr (hsend hexcluded)
    refine ⟨[state.attempt network client message], by simp [hok], ?_⟩
    rw [addressed_cons_of_ne hexcluded, broadcastTo, if_neg hexcluded]
    have hwrite : OwnWrites network depth procedure state (tryToSendMessage client message)
        (state.attempt network client message).ok [(client, message)]
        (state.record [state.attempt network client message]) :=
      Semantics.observes_perform rfl
    have hdone : OwnWrites network depth procedure
        (state.record [state.attempt network client message])
        (if (state.attempt network client message).ok then pure () else callRemoveClient client) ()
        [] (state.record [state.attempt network client message]) := by
      rw [if_pos hok]
      exact Semantics.observes_pure ()
    exact hwrite.bind hdone

/-- The walk over slots whose sessions can be written to, unless they are excluded. -/
theorem visitSlots_writes (hfails : network.FailsOn failing) {before visited rest : List SessionId}
    (hclients : state.clients = before ++ visited ++ rest)
    (hsend : ∀ client ∈ visited, excludeSocket ≠ some client →
      message = [] ∨ ¬state.CannotSend failing client) :
    ∃ attempts, attempts.all Attempt.ok = true ∧
      OwnWrites network depth procedure state
        (visitSlots (broadcastTo message excludeSocket) visited.length before.length) ()
        ((addressed excludeSocket visited).map fun client ↦ (client, message))
        (state.record attempts) := by
  induction visited generalizing before state with
  | nil =>
    refine ⟨[], rfl, ?_⟩
    rw [record_nil]
    exact Semantics.observes_pure ()
  | cons client visited ih =>
    have hslot : state.clients[before.length]? = some client := by simp [hclients]
    have hread : OwnWrites network depth procedure state (dereference before.length) client []
        state :=
      writes_of_quiet rfl (exec_dereference _ depth state hslot)
    obtain ⟨first, hfirst, hbody⟩ := @broadcastTo_writes network failing depth procedure message
      excludeSocket state hfails client (hsend client List.mem_cons_self)
    have hafter : (state.record first).clients = before ++ [client] ++ visited ++ rest := by
      simp [hclients]
    obtain ⟨later, hlater, hrest⟩ := ih hafter fun other hother ↦
      hsend other (List.mem_cons_of_mem client hother)
    refine ⟨first ++ later, by rw [List.all_append, hfirst, hlater]; rfl, ?_⟩
    have haddressed : addressed excludeSocket (client :: visited) =
        addressed excludeSocket [client] ++ addressed excludeSocket visited :=
      List.filter_append [client] visited
    rw [haddressed, List.map_append, ← record_record]
    rw [List.length_append, List.length_singleton] at hrest
    exact hread.bind (hbody.bind hrest)

/-- The loop of a broadcast runs between the lock and the unlock. -/
theorem broadcastMessage_writes {written : List (SessionId × Bytes)} {after : State}
    (hloop : OwnWrites network depth procedure (state.holding (state.held + 1))
      (visitSlots (broadcastTo message excludeSocket) state.clients.length 0) () written after) :
    OwnWrites network depth procedure state (broadcastMessage .slots message excludeSocket) ()
      written (after.holding (after.held - 1)) := by
  have hlock : OwnWrites network depth procedure state lock () []
      (state.holding (state.held + 1)) :=
    writes_of_quiet rfl (exec_lock _ depth state (Or.inl rfl))
  have hmembers : OwnWrites network depth procedure (state.holding (state.held + 1)) clients
      state.clients [] (state.holding (state.held + 1)) := writes_of_quiet rfl rfl
  have hunlock : OwnWrites network depth procedure after unlock () []
      (after.holding (after.held - 1)) := writes_of_quiet rfl rfl
  rw [← List.append_nil written]
  exact hlock.bind ((hmembers.bind hloop).bind hunlock)

/-- A call of `broadcastMessage` from outside makes the writes of its body. -/
theorem callBroadcastMessage_writes {written : List (SessionId × Bytes)} {after : State}
    (hbody : OwnWrites network depth (.broadcastMessage message excludeSocket) state
      (broadcastMessage .slots message excludeSocket) () written after) :
    (semantics (reentrant .slots network)).exec (depth + 1)
        (callBroadcastMessage message excludeSocket) state = .returned () after ∧
      broadcastWrites (reentrant .slots network) (depth + 1) message excludeSocket state =
        written :=
  Semantics.Observes.call hbody

/-- A broadcast to sessions that can all be written to writes to them and changes nothing else. -/
theorem exec_callBroadcastMessage_of_canSend (hfails : network.FailsOn failing)
    (hsend : ∀ client ∈ state.clients, excludeSocket ≠ some client →
      message = [] ∨ ¬state.CannotSend failing client) :
    ∃ attempts, attempts.all Attempt.ok = true ∧
      (semantics (reentrant .slots network)).exec (depth + 1)
          (callBroadcastMessage message excludeSocket) state =
        .returned () (state.record attempts) ∧
      broadcastWrites (reentrant .slots network) (depth + 1) message excludeSocket state =
        (addressed excludeSocket state.clients).map fun client ↦ (client, message) := by
  have hclients : (state.holding (state.held + 1)).clients = [] ++ state.clients ++ [] :=
    (List.append_nil _).symm
  obtain ⟨attempts, hok, hloop⟩ := @visitSlots_writes network failing depth
    (.broadcastMessage message excludeSocket) message excludeSocket _ hfails _ _ _ hclients hsend
  exact ⟨attempts, hok, callBroadcastMessage_writes (broadcastMessage_writes hloop)⟩

/-- The one session that cannot be written to is removed: its departure is announced to the others,
which can be, and then it is gone. -/
theorem exec_callRemoveClient_of_only (hfails : network.FailsOn failing) {client : SessionId}
    (honly : ∀ other ∈ state.clients, state.CannotSend failing other → other = client) :
    ∃ attempts, attempts.all Attempt.ok = true ∧
      (semantics (reentrant .slots network)).exec (depth + 2) (callRemoveClient client) state =
        .returned () ((state.record attempts).discard client) := by
  by_cases hunnamed : state.username client = []
  · refine ⟨[], rfl, ?_⟩
    rw [exec_callRemoveClient_of_unnamed (depth + 1) _ state (canLock_reentrant .slots network _)
      client hunnamed, record_nil]
  · have hsend : ∀ other ∈ state.clients, some client ≠ some other →
        disconnectedLine (state.username client) = [] ∨ ¬state.CannotSend failing other :=
      fun other hmember hne ↦ Or.inr fun hfailed ↦
        hne (congrArg some (honly other hmember hfailed).symm)
    obtain ⟨attempts, hok, hexec, -⟩ := @exec_callBroadcastMessage_of_canSend network failing depth
      (disconnectedLine (state.username client)) (some client) state hfails hsend
    refine ⟨attempts, hok, ?_⟩
    rw [exec_callRemoveClient_of_reentrant .slots network (depth + 1) state hunnamed, hexec]
    rfl

/-- The body of the loop, with something to write, removes the one session that cannot be written
to. -/
theorem broadcastTo_removes (hfails : network.FailsOn failing) (hmessage : message ≠ [])
    {client : SessionId}
    (honly : ∀ other ∈ state.clients, state.CannotSend failing other → other = client)
    (hincluded : excludeSocket ≠ some client) (hfailed : state.CannotSend failing client) :
    ∃ attempts, attempts.all Attempt.ok = true ∧
      OwnWrites network (depth + 2) procedure state (broadcastTo message excludeSocket client) ()
        [(client, message)]
        ((state.record (state.attempt network client message :: attempts)).discard client) := by
  have hnot : (state.attempt network client message).ok ≠ true :=
    not_ok_of_cannotSend hfails hmessage hfailed
  obtain ⟨attempts, hok, hremoves⟩ := @exec_callRemoveClient_of_only network failing depth
    (state.record [state.attempt network client message]) hfails client honly
  refine ⟨attempts, hok, ?_⟩
  have hwrite : OwnWrites network (depth + 2) procedure state (tryToSendMessage client message)
      (state.attempt network client message).ok [(client, message)]
      (state.record [state.attempt network client message]) :=
    Semantics.observes_perform rfl
  have hcall : OwnWrites network (depth + 2) procedure
      (state.record [state.attempt network client message])
      (if (state.attempt network client message).ok then pure () else callRemoveClient client) ()
      []
      (((state.record [state.attempt network client message]).record attempts).discard client) := by
    rw [if_neg hnot]
    refine ⟨hremoves, ?_⟩
    have htrace := @Semantics.trace_invoke_succ signature State
      (semantics (reentrant .slots network)) (depth + 1) [procedure]
      (state.record [state.attempt network client message]) (.removeClient client)
    rw [callRemoveClient, htrace, List.filterMap_cons]
    exact ownWrites_nested _ (depth + 1) _ procedure _ _
  rw [broadcastTo, if_neg hincluded]
  rw [record_record] at hcall
  exact hwrite.bind hcall

/-- After the one session that cannot be written to is removed, there is no other one. -/
theorem eq_of_cannotSend_discard {client : SessionId}
    (honly : ∀ other ∈ state.clients, state.CannotSend failing other → other = client) :
    ∀ other ∈ (state.discard client).clients, (state.discard client).CannotSend failing other →
      other = client := by
  intro other hother hlater
  rcases (cannotSend_discard_iff state client other).mp hlater with hbefore | hsame
  · exact honly other (List.mem_of_mem_erase hother) hbefore
  · exact hsame

/-- Whatever session the loop is at, its body returns: it leaves at most the one session that cannot
be written to, and `m_clients` is not longer than before. -/
theorem broadcastTo_returns (hfails : network.FailsOn failing) {client only : SessionId}
    (hmember : client ∈ state.clients)
    (honly : ∀ other ∈ state.clients, state.CannotSend failing other → other = only) :
    ∃ after : State, (semantics (reentrant .slots network)).exec (depth + 2)
        (broadcastTo message excludeSocket client) state = .returned () after ∧
      after.clients.length ≤ state.clients.length ∧
      ∀ other ∈ after.clients, after.CannotSend failing other → other = only := by
  by_cases hsend : excludeSocket ≠ some client → message = [] ∨ ¬state.CannotSend failing client
  · obtain ⟨attempts, -, hexec, -⟩ := @broadcastTo_writes network failing (depth + 2)
      (.broadcastMessage message excludeSocket) message excludeSocket state hfails client hsend
    exact ⟨state.record attempts, hexec, Nat.le_refl _, honly⟩
  · push Not at hsend
    obtain ⟨hincluded, hmessage, hfailed⟩ := hsend
    have hsame : client = only := honly client hmember hfailed
    rw [← hsame] at honly ⊢
    obtain ⟨attempts, -, hexec, -⟩ := @broadcastTo_removes network failing depth
      (.broadcastMessage message excludeSocket) message excludeSocket state hfails hmessage client
      honly hincluded hfailed
    exact ⟨_, hexec, List.length_erase_le, eq_of_cannotSend_discard honly⟩

/-- A loop with more slots to walk than `m_clients` has left does not return. -/
theorem visitSlots_ne_returned (hfails : network.FailsOn failing) {only : SessionId}
    {remaining slot : ℕ} (hpast : state.clients.length < slot + remaining) (hmore : remaining ≠ 0)
    (honly : ∀ other ∈ state.clients, state.CannotSend failing other → other = only)
    (after : State) :
    (semantics (reentrant .slots network)).exec (depth + 2)
      (visitSlots (broadcastTo message excludeSocket) remaining slot) state ≠
        .returned () after := by
  induction remaining generalizing slot state with
  | zero => exact absurd rfl hmore
  | succ remaining ih =>
    rw [visitSlots, Semantics.exec_bind]
    cases hslot : state.clients[slot]? with
    | none =>
      rw [exec_dereference_end _ _ _ rfl hslot]
      intro hreturned
      cases hreturned
    | some client =>
      obtain ⟨middle, hbody, hlength, hleft⟩ := @broadcastTo_returns network failing depth message
        excludeSocket state hfails client only (List.mem_of_getElem? hslot) honly
      have hinside : slot < state.clients.length := (List.getElem?_eq_some_iff.mp hslot).1
      rw [exec_dereference _ _ _ hslot, Outcome.bind_returned, Semantics.exec_bind, hbody,
        Outcome.bind_returned]
      exact ih (by omega) (by omega) hleft

/-! ### The position of the session that cannot be written to -/

/-- No write failed if all returned. -/
theorem failedOn_of_all_ok {attempts : List Attempt} (hok : attempts.all Attempt.ok = true)
    (client : SessionId) : failedOn attempts client = false := by
  refine List.any_eq_false.mpr fun attempt hmember ↦ ?_
  simp [List.all_eq_true.mp hok attempt hmember]

/-- A broadcast that returned, wrote its message to the addressed sessions in turn and lost exactly
those on which a write failed, distributes its message if these sessions are distinct. -/
theorem distributes_iff_nodup {after : State} {attempts : List Attempt}
    (hexec : (semantics (reentrant .slots network)).exec depth
      (callBroadcastMessage message excludeSocket) state = .returned () after)
    (hattempts : after.attempts = state.attempts ++ attempts)
    (hwrites : broadcastWrites (reentrant .slots network) depth message excludeSocket state =
      (addressed excludeSocket state.clients).map fun client ↦ (client, message))
    (hclients : after.clients = state.clients.filter fun client ↦ !failedOn attempts client) :
    Distributes network depth message excludeSocket state ↔
      (addressed excludeSocket state.clients).Nodup := by
  have hcount : ∀ client, (broadcastWrites (reentrant .slots network) depth message excludeSocket
      state).count (client, message) = (addressed excludeSocket state.clients).count client := by
    intro client
    rw [hwrites]
    exact List.count_map_of_injective _ _ (fun _ _ hsame ↦ (Prod.mk.inj hsame).1) client
  rw [List.nodup_iff_count_eq_one]
  constructor
  · rintro ⟨_, _, _, _, honce, _⟩ client hmember
    rw [← hcount]
    exact honce client hmember
  · intro honce
    refine ⟨after, attempts, hexec, hattempts, fun client hmember ↦ ?_, hclients⟩
    rw [hcount]
    exact honce client hmember

/-- If every addressed session can be written to, or there is nothing to write, only a session that
is in `m_clients` twice can be in the way. -/
theorem distributes_of_canSend (hfails : network.FailsOn failing)
    (hsend : ∀ client ∈ state.clients, excludeSocket ≠ some client →
      message = [] ∨ ¬state.CannotSend failing client) :
    Distributes network (depth + 3) message excludeSocket state ↔
      (addressed excludeSocket state.clients).Nodup := by
  obtain ⟨attempts, hok, hexec, hwrites⟩ := @exec_callBroadcastMessage_of_canSend network failing
    (depth + 2) message excludeSocket state hfails hsend
  refine distributes_iff_nodup hexec rfl hwrites ?_
  simp [failedOn_of_all_ok hok]

/-- The loop up to the first place of the session that cannot be written to, which it removes. -/
theorem visitSlots_through (hfails : network.FailsOn failing) (hmessage : message ≠ [])
    {client : SessionId}
    {before rest : List SessionId} (hclients : state.clients = before ++ client :: rest)
    (hbefore : client ∉ before)
    (honly : ∀ other ∈ state.clients, state.CannotSend failing other → other = client)
    (hincluded : excludeSocket ≠ some client) (hfailed : state.CannotSend failing client) :
    ∃ attempts, (∀ other, failedOn attempts other = decide (client = other)) ∧
      OwnWrites network (depth + 2) procedure state
        (visitSlots (broadcastTo message excludeSocket) (before.length + 1) 0) ()
        ((addressed excludeSocket (before ++ [client])).map fun client ↦ (client, message))
        ((state.record attempts).discard client) := by
  have hsend : ∀ other ∈ before, excludeSocket ≠ some other →
      message = [] ∨ ¬state.CannotSend failing other := by
    refine fun other hother _ ↦ Or.inr fun hlost ↦ ?_
    have hmember : other ∈ state.clients := hclients ▸ List.mem_append_left _ hother
    exact hbefore (honly other hmember hlost ▸ hother)
  obtain ⟨earlier, hearlier, hwalk⟩ := @visitSlots_writes network failing (depth + 2) procedure
    message excludeSocket state hfails [] before (client :: rest) hclients hsend
  obtain ⟨later, hlater, hbody⟩ := @broadcastTo_removes network failing depth procedure message
    excludeSocket (state.record earlier) hfails hmessage client honly hincluded hfailed
  have hslot : (state.record earlier).clients[before.length]? = some client := by simp [hclients]
  have hread : OwnWrites network (depth + 2) procedure (state.record earlier)
      (dereference before.length) client [] (state.record earlier) :=
    writes_of_quiet rfl (exec_dereference _ _ _ hslot)
  have hnot : ((state.record earlier).attempt network client message).ok = false :=
    Bool.eq_false_iff.mpr (not_ok_of_cannotSend hfails hmessage hfailed)
  refine ⟨earlier ++ (state.record earlier).attempt network client message :: later,
    fun other ↦ ?_, ?_⟩
  · have hfirst := failedOn_of_all_ok hearlier other
    have hlast := failedOn_of_all_ok hlater other
    have hclient : ((state.record earlier).attempt network client message).client = client :=
      attemptOf_client ..
    unfold failedOn at hfirst hlast ⊢
    rw [List.any_append, List.any_cons, hfirst, hlast, hnot, hclient]
    simp
  · have haddressed : addressed excludeSocket (before ++ [client]) =
        addressed excludeSocket before ++ [client] := by
      simp [addressed, hincluded]
    rw [visitSlots_add, haddressed, List.map_append, ← record_record, Nat.zero_add]
    exact hwalk.bind (hread.bind (hbody.bind (Semantics.observes_pure ())))

/-- If the session that cannot be written to is not in the last slot, the loop reads a slot past the
end. -/
theorem not_distributes_of_not_last (hfails : network.FailsOn failing) (hmessage : message ≠ [])
    {client : SessionId}
    {before rest : List SessionId} (hclients : state.clients = before ++ client :: rest)
    (hbefore : client ∉ before) (hrest : rest ≠ [])
    (honly : ∀ other ∈ state.clients, state.CannotSend failing other → other = client)
    (hincluded : excludeSocket ≠ some client) (hfailed : state.CannotSend failing client) :
    ¬Distributes network (depth + 3) message excludeSocket state := by
  rintro ⟨after, attempts, hexec, -⟩
  rw [exec_callBroadcastMessage_of_reentrant] at hexec
  obtain ⟨_, looped, hloop, -⟩ := Outcome.bind_eq_returned_iff.mp hexec
  obtain ⟨made, -, hwalk, -⟩ := @visitSlots_through network failing depth
    (.broadcastMessage message excludeSocket) message excludeSocket
    (state.holding (state.held + 1)) hfails hmessage client before rest hclients hbefore honly
    hincluded hfailed
  have hslots : (semantics (reentrant .slots network)).exec (depth + 2)
      (visitSlots (broadcastTo message excludeSocket) (before.length + 1 + rest.length) 0)
      (state.holding (state.held + 1)) = .returned () looped := by
    have hlength : before.length + 1 + rest.length = state.clients.length := by
      rw [hclients, List.length_append, List.length_cons]
      omega
    rw [hlength]
    exact hloop
  rw [visitSlots_add, Semantics.exec_bind, hwalk, Outcome.bind_returned] at hslots
  have hleft := @eq_of_cannotSend_discard failing
    ((state.holding (state.held + 1)).record made) client honly
  refine visitSlots_ne_returned hfails ?_ (mt List.length_eq_zero_iff.mp hrest) hleft looped hslots
  have hlength : (state.clients.erase client).length = state.clients.length - 1 :=
    List.length_erase_of_mem (by simp [hclients])
  have hall : state.clients.length = before.length + (rest.length + 1) := by simp [hclients]
  show (state.clients.erase client).length < _
  omega

/-- If the session that cannot be written to is in the last slot, the loop ends with its removal. -/
theorem distributes_of_last (hfails : network.FailsOn failing) (hmessage : message ≠ [])
    {client : SessionId}
    {before : List SessionId} (hclients : state.clients = before ++ [client])
    (hbefore : client ∉ before)
    (honly : ∀ other ∈ state.clients, state.CannotSend failing other → other = client)
    (hincluded : excludeSocket ≠ some client) (hfailed : state.CannotSend failing client) :
    Distributes network (depth + 3) message excludeSocket state ↔
      (addressed excludeSocket state.clients).Nodup := by
  obtain ⟨made, hmade, hwalk⟩ := @visitSlots_through network failing depth
    (.broadcastMessage message excludeSocket) message excludeSocket
    (state.holding (state.held + 1)) hfails hmessage client before [] hclients hbefore honly
    hincluded hfailed
  have hlength : before.length + 1 = state.clients.length := by simp [hclients]
  rw [hlength, ← hclients] at hwalk
  obtain ⟨hexec, hwrites⟩ := callBroadcastMessage_writes (broadcastMessage_writes hwalk)
  refine distributes_iff_nodup hexec rfl hwrites ?_
  have hkept : (before.filter fun other ↦ !decide (client = other)) = before := by
    refine List.filter_eq_self.mpr fun other hother ↦ ?_
    have hne : client ≠ other := fun hsame ↦ hbefore (hsame ▸ hother)
    simp [hne]
  show state.clients.erase client = _
  simp [hmade, hclients, List.erase_append_right _ hbefore, hkept]

/-- With a re-entrant mutex, for every list of sessions of which at most one cannot be written to,
and every excluded socket: a broadcast reads no slot past the end, writes its message once to each
session it addresses, and leaves in `m_clients` those on which no write failed, exactly when the
sessions it addresses are distinct and, if there is something to write, the one that cannot be
written to, if it is among them, is the last element of `m_clients`. -/
theorem distributes_iff (hfails : network.FailsOn failing)
    (hone : ∀ first ∈ state.clients, ∀ second ∈ state.clients, state.CannotSend failing first →
      state.CannotSend failing second → first = second) :
    Distributes network (depth + 3) message excludeSocket state ↔
      (addressed excludeSocket state.clients).Nodup ∧
        (message ≠ [] → ∀ client ∈ addressed excludeSocket state.clients,
          state.CannotSend failing client → state.clients.getLast? = some client) := by
  by_cases hsend : ∀ client ∈ state.clients, excludeSocket ≠ some client →
    message = [] ∨ ¬state.CannotSend failing client
  · rw [distributes_of_canSend hfails hsend]
    refine ⟨fun hnodup ↦ ⟨hnodup, fun hmessage client hmember hfailed ↦ ?_⟩, And.left⟩
    obtain ⟨hclient, hincluded⟩ := List.mem_filter.mp hmember
    have hcan := hsend client hclient (of_decide_eq_true hincluded)
    exact absurd hfailed (hcan.resolve_left hmessage)
  · push Not at hsend
    obtain ⟨client, hmember, hincluded, hmessage, hfailed⟩ := hsend
    have honly : ∀ other ∈ state.clients, state.CannotSend failing other → other = client :=
      fun other hother hlost ↦ hone other hother client hmember hlost hfailed
    obtain ⟨before, rest, hclients, hbefore⟩ := List.eq_append_cons_of_mem hmember
    by_cases hrest : rest = []
    · rw [hrest] at hclients
      rw [distributes_of_last hfails hmessage hclients hbefore honly hincluded hfailed]
      refine ⟨fun hnodup ↦ ⟨hnodup, fun _ other hother hlost ↦ ?_⟩, And.left⟩
      rw [honly other (List.mem_of_mem_filter hother) hlost, hclients, List.getLast?_concat]
    · refine iff_of_false (not_distributes_of_not_last hfails hmessage hclients hbefore hrest honly
        hincluded hfailed) ?_
      rintro ⟨hnodup, hlast⟩
      have haddressed : client ∈ addressed excludeSocket state.clients :=
        List.mem_filter.mpr ⟨hmember, decide_eq_true hincluded⟩
      have hend : rest.getLast? = some client := by
        have hwhole := hlast hmessage client haddressed hfailed
        rw [hclients, List.getLast?_append_of_ne_nil _ (List.cons_ne_nil client rest)] at hwhole
        obtain ⟨first, others, rfl⟩ := List.exists_cons_of_ne_nil hrest
        rwa [List.getLast?_cons_cons] at hwhole
      have hagain : client ∈ addressed excludeSocket rest :=
        List.mem_filter.mpr ⟨List.mem_of_getLast? hend, decide_eq_true hincluded⟩
      have hsplit : addressed excludeSocket state.clients =
          addressed excludeSocket before ++ client :: addressed excludeSocket rest := by
        rw [hclients, ← addressed_cons_of_ne hincluded rest]
        exact List.filter_append before (client :: rest)
      rw [hsplit] at hnodup
      exact (List.nodup_cons.mp hnodup.of_append_right).1 hagain

end Sending

/-- The sockets of the two sessions are open. -/
theorem mem_of_twoKobolds_cannotSend {failing : Set SessionId} :
    ∀ client ∈ twoKobolds.clients, twoKobolds.CannotSend failing client → client ∈ failing := by
  refine List.forall_mem_cons.mpr ⟨fun hfailed ↦ ?_, List.forall_mem_singleton.mpr fun hfailed ↦ ?_⟩
  · exact hfailed.resolve_right nofun
  · exact hfailed.resolve_right nofun

/-- When the last of two sessions cannot be written to, a broadcast reaches both and removes it. -/
theorem distributes_of_last_kobold :
    Distributes (failingOn fun client ↦ client == 1) 3 (ascii "hello") none twoKobolds := by
  have hlost : ∀ client ∈ twoKobolds.clients,
      twoKobolds.CannotSend { client | (client == 1) = true } client → client = 1 :=
    fun client hmember hfailed ↦ beq_iff_eq.mp (mem_of_twoKobolds_cannotSend client hmember hfailed)
  have hone : ∀ first ∈ twoKobolds.clients, ∀ second ∈ twoKobolds.clients,
      twoKobolds.CannotSend { client | (client == 1) = true } first →
      twoKobolds.CannotSend { client | (client == 1) = true } second → first = second :=
    fun first hfirst second hsecond hone hother ↦
      (hlost first hfirst hone).trans (hlost second hsecond hother).symm
  refine (@distributes_iff _ _ 0 _ _ _ (failingOn_failsOn _) hone).mpr ⟨by decide, ?_⟩
  intro _ client hmember hfailed
  rw [hlost client (List.mem_of_mem_filter hmember) hfailed]
  rfl

/-- When the first of two sessions cannot be written to, the loop skips the second one and reads a
slot past the end. -/
theorem not_distributes_of_first_kobold :
    (failingOn fun client ↦ client == 0).FailsOn {0} ∧
      ¬Distributes (failingOn fun client ↦ client == 0) 3 (ascii "hello") none twoKobolds := by
  have hset : { client : SessionId | (client == 0) = true } = {0} := by
    ext client
    exact beq_iff_eq
  have hfails : (failingOn fun client ↦ client == 0).FailsOn {0} :=
    hset ▸ failingOn_failsOn fun client ↦ client == 0
  refine ⟨hfails, ?_⟩
  exact @not_distributes_of_not_last _ _ 0 _ _ twoKobolds hfails (by decide) 0 [] [1] rfl
    List.not_mem_nil (List.cons_ne_nil 1 []) mem_of_twoKobolds_cannotSend nofun (.inl rfl)

end KoboldKhat.Server
