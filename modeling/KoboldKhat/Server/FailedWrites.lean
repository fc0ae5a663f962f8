import KoboldKhat.Server.Confidentiality
import KoboldKhat.Server.Removal
import KoboldKhat.Server.Shutdown

/-!
# What becomes of a session that could not be written to

`tryToSendMessage` reports whether it sent its line, and its callers do not agree on what follows.
`broadcastMessage` removes the session, so when it ends every session it failed to write to is out
of `m_clients`, with a closed socket on which nothing is ever written again. The `/dm` branch looks
at neither of its two results. It leaves a session that got half a line in `m_clients`, where the
next broadcast finds it. The two agree exactly when the one write of the branch succeeds, or fails
on a session that was removed before (`failuresRemoved_iff`).

The runs are those of the idealised server of `Removal`, for every network. Both uses of an iterator
that the language leaves undefined are safe in it: the loop of `broadcastMessage` goes on to the
next session, and the read of the end iterator in the `/dm` branch gives some session, whichever it
is. What follows holds as well of the server that stops at that read.
-/

set_option autoImplicit false
set_option relaxedAutoImplicit false

namespace KoboldKhat.Server

open Library

/-! ### Closed sockets -/

section Closed

variable {setting : Setting} {depth : ℕ} {parse : Bytes → Option Json} {first last : State}
  {events : List Event} {deeds : List Deed} {client : SessionId}

/-- A session has been accepted and closed, and has been sent these bytes. -/
structure State.ClosedAfter (state : State) (client : SessionId) (sent : Bytes) : Prop where
  accepted : client < state.accepted
  closed : state.isOpen client = false
  outgoing : state.outgoing client = sent

/-- No operation opens a socket or writes to a closed one. -/
theorem closedAfter_perform {state : State} {sent : Bytes} (operation : Operation)
    (hclosed : state.ClosedAfter client sent) :
    (perform setting operation state).state.ClosedAfter client sent := by
  cases operation with
  | lock =>
    simp only [perform]
    split_ifs <;> exact ⟨hclosed.accepted, hclosed.closed, hclosed.outgoing⟩
  | write receiver message =>
    refine ⟨hclosed.accepted, hclosed.closed, ?_⟩
    show (state.record [state.attempt setting.network receiver message]).outgoing client = sent
    by_cases hsame : receiver = client
    · rw [← hsame, outgoing_record_closed (hsame ▸ hclosed.closed), hsame]
      exact hclosed.outgoing
    · rw [← hclosed.outgoing]
      simp [State.outgoing, List.filter_append, State.attempt, hsame]
  | registry operation =>
    simp only [perform]
    cases operation with
    | close other =>
      refine ⟨hclosed.accepted, ?_, hclosed.outgoing⟩
      by_cases hsame : client = other
      · rw [hsame]
        exact Function.update_self ..
      · exact (Function.update_of_ne hsame _ _).trans hclosed.closed
    | dereference slot =>
      simp only [registryStep]
      cases state.clients[slot]?.or setting.pastEnd <;>
        exact ⟨hclosed.accepted, hclosed.closed, hclosed.outgoing⟩
    | _ => exact ⟨hclosed.accepted, hclosed.closed, hclosed.outgoing⟩
  | _ => exact ⟨hclosed.accepted, hclosed.closed, hclosed.outgoing⟩

/-- Nothing is sent to a session once it has been closed. -/
theorem TracedEnds.closedAfter (hends : TracedEnds setting depth parse first events deeds last)
    {sent : Bytes} (hclosed : first.ClosedAfter client sent) : last.ClosedAfter client sent := by
  refine hends.preserves (fun _ state ↦ state.ClosedAfter client sent) hclosed ?_
  intro deeds before event hbefore
  have hprepared : (event.prepare before).ClosedAfter client sent := by
    cases event with
    | runAccept result =>
      cases result with
      | error => exact ⟨hbefore.accepted, hbefore.closed, hbefore.outgoing⟩
      | success =>
        refine ⟨Nat.lt_succ_of_lt hbefore.accepted, ?_, hbefore.outgoing⟩
        exact (Function.update_of_ne (Nat.ne_of_lt hbefore.accepted) _ _).trans hbefore.closed
    | _ => exact ⟨hbefore.accepted, hbefore.closed, hbefore.outgoing⟩
  exact @Semantics.exec_preserves _ _ _ (semantics setting) depth (event.prepare before)
    (fun state ↦ state.ClosedAfter client sent)
    (fun operation _ hstate ↦ closedAfter_perform operation hstate) _ hprepared

end Closed

/-! ### Handling a message -/

/-- Every session the handling of a chunk failed to write to is out of `m_clients`, and its socket
is closed, and it is sent nothing any more, whatever happens next. -/
def FailuresRemoved (parse : Bytes → Option Json) (network : Network) (pastEnd : Option SessionId)
    (depth : ℕ) (before after : State) : Prop :=
  ∀ attempt ∈ after.attempts.drop before.attempts.length, attempt.ok = false →
    after.Gone attempt.client ∧ ∀ events deeds last,
      TracedEnds (completing network pastEnd) depth parse after events deeds last →
        last.outgoing attempt.client = after.outgoing attempt.client

/-- The session to which the `/dm` branch writes: the recipient, or the sender if there is none. -/
def State.directTarget (state : State) (message : Bytes) (client : SessionId) : SessionId :=
  (state.firstNamed (parseDirectMessage message).1).getD client

section Handling

variable {parse : Bytes → Option Json} {network : Network} {pastEnd : Option SessionId}
  {depth maxClients : ℕ} {state after : State} {events : List Event} {deeds : List Deed}
  {client target : SessionId} {chunk message newUsername line : Bytes}

/-- Nothing is sent to a session that is gone. -/
theorem outgoing_of_gone (hgone : after.Gone client) (haccepted : client < after.accepted)
    {events : List Event} {deeds : List Deed} {last : State}
    (hends : TracedEnds (completing network pastEnd) depth parse after events deeds last) :
    last.outgoing client = after.outgoing client :=
  (hends.closedAfter ⟨haccepted, hgone.2, rfl⟩).outgoing

/-- When one write of a line was made and nothing else has changed for its session, the write
succeeded or the session was gone before. -/
theorem failuresRemoved_iff_of_single (hline : line ≠ []) (hclients : after.clients = state.clients)
    (hopen : after.isOpen = state.isOpen) (haccepted : after.accepted = state.accepted)
    (hattempts : after.attempts = state.attempts ++ [state.attempt network target line])
    (htarget : target < state.accepted) :
    FailuresRemoved parse network pastEnd depth state after ↔
      state.CanWrite network target ∨ state.Gone target := by
  have hgone : after.Gone target ↔ state.Gone target := by
    rw [Registry.Gone, Registry.Gone, hclients, hopen]
  have hdrop : after.attempts.drop state.attempts.length =
      [state.attempt network target line] := by
    rw [hattempts, List.drop_left]
  rw [FailuresRemoved, hdrop, ← attempt_ok_iff_canWrite hline]
  constructor
  · intro hremoved
    by_cases hok : (state.attempt network target line).ok = true
    · exact Or.inl hok
    · have hboth := hremoved _ List.mem_cons_self (Bool.eq_false_iff.mpr hok)
      rw [State.attempt, attemptOf_client] at hboth
      exact Or.inr (hgone.mp hboth.1)
  · intro hwritten attempt hattempt hfailed
    rw [List.mem_singleton.mp hattempt] at hfailed ⊢
    have hbefore : state.Gone target := by
      rcases hwritten with hok | hbefore
      · exact absurd (hok.symm.trans hfailed) Bool.noConfusion
      · exact hbefore
    rw [State.attempt, attemptOf_client]
    refine ⟨hgone.mpr hbefore, fun events deeds last hends ↦ ?_⟩
    exact outgoing_of_gone (hgone.mpr hbefore) (haccepted ▸ htarget) hends

/-- When every session to which a write failed was removed, nothing is sent to one any more. -/
theorem failuresRemoved_of_settles {removed : List SessionId} {named settled : State}
    (hmembers : ∀ client ∈ state.clients, client < state.accepted)
    (hnamed : state.SameSessions named) (hattempts : named.attempts = state.attempts)
    (hsettles : Settles removed named settled) (client : SessionId) :
    FailuresRemoved parse network pastEnd depth state (settled.startRead client) := by
  obtain ⟨attempts, hadded, hfailed⟩ := hsettles.attempts
  have hdrop : (settled.startRead client).attempts.drop state.attempts.length = attempts := by
    show settled.attempts.drop state.attempts.length = attempts
    rw [hadded, hattempts, List.drop_left]
  rw [FailuresRemoved, hdrop]
  intro attempt hattempt hnotOk
  obtain ⟨hremoved, hmember⟩ := hfailed attempt hattempt hnotOk
  have hgone : (settled.startRead client).Gone attempt.client := hsettles.gone hremoved
  have haccepted : settled.accepted = state.accepted :=
    (congrArg Registry.accepted hsettles.registry).trans hnamed.accepted
  refine ⟨hgone, fun events deeds last hends ↦ outgoing_of_gone hgone ?_ hends⟩
  show attempt.client < settled.accepted
  rw [haccepted]
  exact hmembers _ (hnamed.clients ▸ hmember)

/-- For every reachable state, every message and every pattern of failing writes: when the handling
of the message ends, every session it failed to write to is out of `m_clients`, closed and sent
nothing any more, exactly when the message is not a direct one, or its one write can be made, or
goes to a session that is gone already. -/
theorem failuresRemoved_iff
    (hreachable : Traced (completing network pastEnd) depth parse (initial maxClients) events deeds
      state)
    (henabled : (Event.runRead client (.data chunk)).Enabled state)
    (hbrings : (Event.runRead client (.data chunk)).Brings parse client message newUsername)
    (hends : ∀ after,
      stepAt (completing network pastEnd) depth parse (.runRead client (.data chunk)) state ≠
        .stopped .exhausted after) :
    FailuresRemoved parse network pastEnd depth state
        (stepAt (completing network pastEnd) depth parse (.runRead client (.data chunk))
          state).state ↔
      (dmCommand.isPrefixOf message = true →
        state.CanWrite network (state.directTarget message client) ∨
          state.Gone (state.directTarget message client)) := by
  obtain ⟨hregistry, -⟩ := hreachable.wellFormed (wellFormed_initial maxClients) rfl
  have hlock : (completing network pastEnd).CanLock (state.handling parse client chunk) :=
    canLock_reentrant .safe network _
  rw [stepAt_message _ depth hbrings] at hends ⊢
  by_cases hcommand : dmCommand.isPrefixOf message = true
  · rw [if_pos hcommand, imp_iff_right hcommand, State.directTarget]
    cases hfound : state.firstNamed (parseDirectMessage message).1 with
    | some receiver =>
      rw [exec_handleDirectMessage_of_found depth _ _ hlock message client receiver hfound]
      obtain ⟨hmember, -⟩ := mem_of_firstNamed hfound
      exact failuresRemoved_iff_of_single (directLine_ne_nil _ _) rfl rfl rfl rfl
        (hregistry.member_lt _ hmember)
    | none =>
      have htarget := lt_accepted_of_ready hregistry henabled
      cases hend : pastEnd with
      | none =>
        subst hend
        rw [exec_handleDirectMessage_of_notFound depth _ _ hlock rfl message client hfound]
        exact failuresRemoved_iff_of_single (notFoundLine_ne_nil _) rfl rfl rfl rfl htarget
      | some beyond =>
        subst hend
        rw [exec_handleDirectMessage_of_pastEnd depth _ _ hlock rfl message client hfound]
        exact failuresRemoved_iff_of_single (notFoundLine_ne_nil _) rfl rfl rfl rfl htarget
  · rw [if_neg hcommand] at hends ⊢
    refine iff_of_true ?_ fun hdirect ↦ absurd hdirect hcommand
    have hsettles := @handleChatMessage_settles network pastEnd depth
      (state.handling parse client chunk) hregistry.nodup message newUsername client
    cases houtcome : (semantics (completing network pastEnd)).exec depth
        (handleChatMessage message newUsername client) (state.handling parse client chunk) with
    | returned value after =>
      rw [houtcome] at hsettles
      obtain ⟨named, removed, hnamed, hattempts, hremoved⟩ := hsettles
      have hmembers : ∀ member ∈ (state.handling parse client chunk).clients,
          member < (state.handling parse client chunk).accepted := hregistry.member_lt
      exact failuresRemoved_of_settles hmembers hnamed hattempts hremoved client
    | stopped fault after =>
      rw [houtcome] at hsettles hends
      exact absurd (congrArg (Outcome.stopped · after) hsettles) (hends after)

end Handling

/-- A network that cuts the writes to the second session from the fifth write on. -/
def lateCut : Network :=
  ⟨fun number client ↦ if 4 ≤ number ∧ client = 1 then .cut 3 else .whole, fun _ ↦ true⟩

/-- Two users introduce themselves, and then a chunk of the first of them has been read. -/
def aboutToSay (chunk : Bytes) : List Event :=
  acquainted ++ [.readCompletes 0 (.data chunk)]

/-- A chat that cannot be relayed to the other user removes that user. -/
theorem failuresRemoved_of_chat :
    ∃ deeds state, Traced (completing lateCut (some 0)) 6 rumours (initial 10) (aboutToSay [6])
        deeds state ∧
      state.clients = [0, 1] ∧
      (stepAt (completing lateCut (some 0)) 6 rumours (.runRead 0 (.data [6]))
        state).state.clients = [0] ∧
      FailuresRemoved rumours lateCut (some 0) 6 state
        (stepAt (completing lateCut (some 0)) 6 rumours (.runRead 0 (.data [6])) state).state := by
  have hsome : (playAt (completing lateCut (some 0)) 6 rumours (aboutToSay [6])
      (initial 10)).isSome = true := by decide
  have hreachable := traced_playAt hsome
  have hbrings : (Event.runRead 0 (.data [6])).Brings rumours 0 (ascii "hello")
      (ascii "kobold") := ⟨[6], rfl, by decide, rfl⟩
  have hreturned : stepAt (completing lateCut (some 0)) 6 rumours (.runRead 0 (.data [6]))
      ((playAt (completing lateCut (some 0)) 6 rumours (aboutToSay [6]) (initial 10)).get hsome).2 =
        .returned () _ := rfl
  refine ⟨_, _, hreachable, rfl, rfl, ?_⟩
  refine (failuresRemoved_iff hreachable (List.mem_singleton.mpr rfl) hbrings ?_).mpr nofun
  intro after hstopped
  cases hreturned.symm.trans hstopped

/-- A direct message that is cut short leaves its recipient in `m_clients`. -/
theorem not_failuresRemoved_of_direct :
    ∃ deeds state, Traced (completing lateCut (some 0)) 6 rumours (initial 10) (aboutToSay [3])
        deeds state ∧
      (Event.runRead 0 (.data [3])).Enabled state ∧
      (Event.runRead 0 (.data [3])).Brings rumours 0 (ascii "/dm goblin see you")
        (ascii "kobold") ∧
      (∀ after, stepAt (completing lateCut (some 0)) 6 rumours (.runRead 0 (.data [3])) state ≠
        .stopped .exhausted after) ∧
      ¬ FailuresRemoved rumours lateCut (some 0) 6 state
        (stepAt (completing lateCut (some 0)) 6 rumours (.runRead 0 (.data [3])) state).state := by
  have hsome : (playAt (completing lateCut (some 0)) 6 rumours (aboutToSay [3])
      (initial 10)).isSome = true := by decide
  have hreachable := traced_playAt hsome
  have hbrings : (Event.runRead 0 (.data [3])).Brings rumours 0 (ascii "/dm goblin see you")
      (ascii "kobold") := ⟨[3], rfl, by decide, rfl⟩
  have hreturned : stepAt (completing lateCut (some 0)) 6 rumours (.runRead 0 (.data [3]))
      ((playAt (completing lateCut (some 0)) 6 rumours (aboutToSay [3]) (initial 10)).get hsome).2 =
        .returned () _ := rfl
  refine ⟨_, _, hreachable, List.mem_singleton.mpr rfl, hbrings, ?_, ?_⟩
  · intro after hstopped
    cases hreturned.symm.trans hstopped
  · intro hremoved
    have hgone := (hremoved ⟨1, directLine (ascii "kobold") (ascii "see you"), ascii "[DM", false⟩
      (List.mem_singleton.mpr rfl) rfl).1
    exact hgone.1 (List.mem_cons_of_mem _ List.mem_cons_self)

end KoboldKhat.Server
