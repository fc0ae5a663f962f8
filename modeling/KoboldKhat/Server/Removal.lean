import KoboldKhat.Server.DirectMessages
import KoboldKhat.Server.FailureHandling

/-!
# Removal that completes

Runs of the server when `m_clientsMutex` is taken to be re-entrant and erasure during a loop to be
harmless, so that the removal of a session whose write failed goes on to its end. A read past the
end of `m_clients` may be taken to be harmless as well. Whichever writes
fail, a broadcast or a removal that returns has removed every session it failed to write to, and has
changed nothing else in the registry (`calls_settle`). The only other end is that the calls nest
deeper than the bound. The invariant of the sessions holds in every state reached
(`Traced.wellFormed`).
-/

set_option autoImplicit false
set_option relaxedAutoImplicit false

namespace KoboldKhat.Server

open Library

/-- The setting in which a removal completes. -/
abbrev completing (network : Network) (pastEnd : Option SessionId := none) : Setting :=
  reentrant .safe network pastEnd

/-- Sessions have been removed, among them every one to which a write failed, and nothing else has
changed in the registry. Writes fail only to sessions in `m_clients`. -/
structure Settles (removed : List SessionId) (before after : State) : Prop where
  registry : after.toRegistry = before.toRegistry.without removed
  held : after.held = before.held
  attempts : ∃ attempts, after.attempts = before.attempts ++ attempts ∧
    ∀ attempt ∈ attempts, attempt.ok = false →
      attempt.client ∈ removed ∧ attempt.client ∈ before.clients

namespace Settles

variable {removed others : List SessionId} {first second third : State}

theorem refl (state : State) : Settles [] state state :=
  ⟨(without_nil _).symm, rfl, [], (List.append_nil _).symm, nofun⟩

theorem trans (hfirst : Settles removed first second) (hsecond : Settles others second third) :
    Settles (removed ++ others) first third := by
  obtain ⟨attempts, hattempts, hfailed⟩ := hfirst.attempts
  obtain ⟨later, hlater, hfailedLater⟩ := hsecond.attempts
  refine ⟨?_, hsecond.held.trans hfirst.held, attempts ++ later, ?_, ?_⟩
  · rw [hsecond.registry, hfirst.registry, without_without]
  · rw [hlater, hattempts, List.append_assoc]
  · intro attempt hattempt hnotOk
    rcases List.mem_append.mp hattempt with hearly | hlate
    · obtain ⟨hremoved, hmember⟩ := hfailed attempt hearly hnotOk
      exact ⟨List.mem_append_left _ hremoved, hmember⟩
    · obtain ⟨hremoved, hmember⟩ := hfailedLater attempt hlate hnotOk
      rw [hfirst.registry] at hmember
      exact ⟨List.mem_append_right _ hremoved, (mem_clients_without.mp hmember).1⟩

/-- A session that was removed is gone. -/
theorem gone (hsettles : Settles removed first second) {client : SessionId}
    (hmember : client ∈ removed) : second.Gone client := by
  rw [hsettles.registry]
  exact gone_without_of_mem hmember

theorem nodup (hsettles : Settles removed first second) (hnodup : first.clients.Nodup) :
    second.clients.Nodup := by
  rw [hsettles.registry]
  exact hnodup.filter _

/-- A write settles once its session is removed if it failed. -/
theorem of_record {attempt : Attempt}
    (hsettles : Settles removed (first.record [attempt]) second)
    (hremoved : attempt.ok = false → attempt.client ∈ removed ∧ attempt.client ∈ first.clients) :
    Settles removed first second := by
  obtain ⟨attempts, hattempts, hfailed⟩ := hsettles.attempts
  refine ⟨hsettles.registry, hsettles.held, attempt :: attempts, ?_, ?_⟩
  · rw [hattempts, record_attempts, List.append_assoc, List.singleton_append]
  · intro other hother
    rcases List.mem_cons.mp hother with rfl | hlater
    · exact hremoved
    · exact hfailed other hlater

/-- The end of a removal. -/
theorem discard (hsettles : Settles removed first second) (hnodup : first.clients.Nodup)
    (client : SessionId) : Settles (removed ++ [client]) first (second.discard client) :=
  hsettles.trans ⟨discard_eq_without (hsettles.nodup hnodup) client, rfl, [],
    (List.append_nil _).symm, nofun⟩

end Settles

/-! ### Single writes -/

/-- The next write to the session returns. -/
def State.CanWrite (network : Network) (state : State) (client : SessionId) : Prop :=
  state.isOpen client = true ∧ network.write state.attempts.length client = .whole

/-- A write of something returns exactly when its socket is open and the network lets it. -/
theorem attempt_ok_iff_canWrite {network : Network} {state : State} {client : SessionId}
    {message : Bytes} (hmessage : message ≠ []) :
    (state.attempt network client message).ok = true ↔ state.CanWrite network client := by
  rw [State.attempt, State.CanWrite]
  cases hopen : state.isOpen client with
  | false =>
    rw [attemptOf_closed network _ client hmessage]
    simp
  | true =>
    rw [attemptOf_open network _ client hmessage]
    cases hanswer : network.write state.attempts.length client <;>
      simp [WriteAnswer.returns]

/-- A write to an open socket returns when the network lets it, whatever there is to write. -/
theorem attempt_ok_of_canWrite {network : Network} {state : State} {client : SessionId}
    (hcan : state.CanWrite network client) (message : Bytes) :
    (state.attempt network client message).ok = true := by
  rw [State.attempt, hcan.1, attemptOf_of_whole hcan.2 message]
  rfl

/-! ### Calls -/

section Calls

variable {network : Network} {pastEnd : Option SessionId} {depth : ℕ}

/-- The call removed sessions, among them its own one if it is a removal. -/
def Settled (procedure : Procedure) (before after : State) : Prop :=
  ∃ removed, Settles removed before after ∧
    ∀ client, procedure = .removeClient client → client ∈ removed

/-- The calls nested too deep. -/
abbrev TooDeep (fault : Fault) (_ : State) : Prop :=
  fault = .exhausted

/-- The loop of a broadcast settles if each removal it makes does. -/
theorem forEachClient_settles
    (hremove : ∀ client state, state.clients.Nodup →
      ((semantics (completing network pastEnd)).exec depth (callRemoveClient client)
        state).Satisfies (fun _ after ↦ Settled (.removeClient client) state after) TooDeep)
    (message : Bytes) (excludeSocket : Option SessionId) {base : State}
    (hnodup : base.clients.Nodup) :
    ((semantics (completing network pastEnd)).exec depth
      (forEachClient .safe (broadcastTo message excludeSocket)) base).Satisfies
        (fun _ after ↦ ∃ removed, Settles removed base after) TooDeep := by
  refine forEachClient_satisfies .safe depth ?_ nofun ⟨[], .refl base⟩
  rintro client state ⟨removed, hsettles⟩ hmember
  by_cases hexcluded : excludeSocket = some client
  · rw [exec_broadcastTo_of_excluded .safe network depth state message hexcluded]
    exact ⟨removed, hsettles⟩
  by_cases hok : (state.attempt network client message).ok = true
  · rw [exec_broadcastTo_of_ok .safe network depth state message hexcluded hok]
    have hwritten : Settles [] state (state.record [state.attempt network client message]) :=
      (Settles.refl _).of_record fun hnotOk ↦ absurd (hok.symm.trans hnotOk) Bool.noConfusion
    exact ⟨removed ++ [], hsettles.trans hwritten⟩
  · rw [exec_broadcastTo_of_failed .safe network depth state message hexcluded hok]
    refine (hremove client (state.record _) (hsettles.nodup hnodup)).mono ?_ fun _ _ hstop ↦ hstop
    rintro - after ⟨others, hothers, hclient⟩
    have hwritten : Settles others state after :=
      hothers.of_record fun _ ↦ (attemptOf_client ..).symm ▸ ⟨hclient client rfl, hmember⟩
    exact ⟨removed ++ others, hsettles.trans hwritten⟩

/-- Every call that returns has removed the sessions it failed to write to. -/
theorem calls_settle (depth : ℕ) (procedure : Procedure) (state : State)
    (hnodup : state.clients.Nodup) :
    ((semantics (completing network pastEnd)).exec depth (Program.invoke procedure) state).Satisfies
      (fun _ after ↦ Settled procedure state after) TooDeep := by
  induction depth generalizing procedure state with
  | zero => exact rfl
  | succ depth ih =>
    cases procedure with
    | broadcastMessage message excludeSocket =>
      show ((semantics (completing network pastEnd)).exec (depth + 1)
        (callBroadcastMessage message excludeSocket) state).Satisfies _ _
      rw [exec_callBroadcastMessage_of_reentrant]
      have hloop := @forEachClient_settles network pastEnd depth
        (fun client middle hmiddle ↦ ih (.removeClient client) middle hmiddle) message excludeSocket
        (state.holding (state.held + 1)) hnodup
      refine Outcome.satisfies_bind hloop ?_
      rintro - after ⟨removed, hregistry, hheld, hattempts⟩
      refine ⟨removed, ⟨hregistry, ?_, hattempts⟩, nofun⟩
      rw [holding_held, hheld, holding_held, Nat.add_sub_cancel]
    | removeClient client =>
      show ((semantics (completing network pastEnd)).exec (depth + 1) (callRemoveClient client)
        state).Satisfies _ _
      have hend : ∀ {removed after}, Settles removed state after →
          Settled (.removeClient client) state (after.discard client) := by
        intro removed after hsettles
        refine ⟨removed ++ [client], hsettles.discard hnodup client, fun other hother ↦ ?_⟩
        rw [Procedure.removeClient.inj hother]
        exact List.mem_append_right _ List.mem_cons_self
      by_cases hunnamed : state.username client = []
      · rw [exec_callRemoveClient_of_unnamed depth _ state (canLock_reentrant .safe network _)
          client hunnamed]
        exact hend (.refl state)
      · rw [exec_callRemoveClient_of_reentrant .safe network depth state hunnamed]
        refine Outcome.satisfies_bind (ih (.broadcastMessage _ _) state hnodup) ?_
        rintro - after ⟨removed, hsettles, -⟩
        exact hend hsettles

end Calls

/-! ### Runs -/

section Runs

variable {parse : Bytes → Option Json} {network : Network} {pastEnd : Option SessionId} {depth : ℕ}
  {state first last : State} {events : List Event} {deeds : List Deed}

/-- A call from a free mutex leaves it free. -/
theorem callBroadcastMessage_settles (hnodup : state.clients.Nodup) (message : Bytes)
    (excludeSocket : Option SessionId) :
    ((semantics (completing network pastEnd)).exec depth
      (callBroadcastMessage message excludeSocket) state).Satisfies
      (fun _ after ↦ ∃ removed, Settles removed state after) TooDeep := by
  refine (calls_settle depth (.broadcastMessage message excludeSocket) state hnodup).mono ?_
    fun _ _ hstop ↦ hstop
  rintro - after ⟨removed, hsettles, -⟩
  exact ⟨removed, hsettles⟩

/-- A message that is not a direct message may store a name, and then removes sessions. -/
theorem handleChatMessage_settles (hnodup : state.clients.Nodup) (message newUsername : Bytes)
    (client : SessionId) :
    ((semantics (completing network pastEnd)).exec depth
      (handleChatMessage message newUsername client) state).Satisfies
      (fun _ after ↦ ∃ named removed, state.SameSessions named ∧
        named.attempts = state.attempts ∧ Settles removed named after) TooDeep := by
  by_cases hunnamed : state.username client = []
  · rw [exec_handleChatMessage_of_unnamed depth state _ message newUsername client hunnamed]
    have hnamed : (state.rename client newUsername).clients.Nodup := hnodup
    refine (callBroadcastMessage_settles hnamed _ _).mono ?_ fun _ _ hstop ↦ hstop
    rintro - after ⟨removed, hsettles⟩
    exact ⟨state.rename client newUsername, removed, ⟨rfl, rfl⟩, rfl, hsettles⟩
  · rw [exec_handleChatMessage_of_named depth state _ message newUsername client hunnamed]
    refine (callBroadcastMessage_settles hnodup _ _).mono ?_ fun _ _ hstop ↦ hstop
    rintro - after ⟨removed, hsettles⟩
    exact ⟨state, removed, ⟨rfl, rfl⟩, rfl, hsettles⟩

/-- The event makes no broadcast and removes no session. -/
def Event.Plain : Event → Prop
  | .runRead _ _ => False
  | .broadcast _ _ => False
  | _ => True

/-- What makes no broadcast does not depend on the mutex being re-entrant. -/
theorem stepAt_plain (setting : Setting) (hfree : state.held = 0) {event : Event}
    (hplain : event.Plain) :
    stepAt setting depth parse event state = step parse setting.network event state := by
  cases event with
  | runRead client result => exact hplain.elim
  | broadcast message excludeSocket => exact hplain.elim
  | runAccept result =>
    cases result with
    | error => rfl
    | success =>
      have hfreePrepared : ((Event.runAccept .success).prepare state).held = 0 := hfree
      rw [step, stepAt, stepAt, Event.program]
      by_cases hfull : state.maxClients ≤ state.clients.length
      · rw [exec_acceptHandler_of_full depth _ setting state.accepted hfreePrepared hfull,
          exec_acceptHandler_of_full 4 _ (standard _) state.accepted hfreePrepared hfull]
      · have hroom : state.clients.length < state.maxClients := Nat.lt_of_not_le hfull
        rw [exec_acceptHandler_of_room depth _ setting state.accepted hfreePrepared hroom,
          exec_acceptHandler_of_room 4 _ (standard _) state.accepted hfreePrepared hroom]
        rfl
  | shutdown =>
    exact (exec_shutdown depth state setting hfree).trans
      (exec_shutdown 4 state (standard _) hfree).symm
  | _ => rfl

/-- A session whose read has completed has been accepted. -/
theorem lt_accepted_of_ready (hregistry : state.WellFormed) {client : SessionId}
    {result : ReadResult} (hready : (client, result) ∈ state.readyReads) :
    client < state.accepted := by
  by_contra hnot
  have hreads := outstandingReads_runRead state client client hready
  rw [hregistry.fresh_reads client (Nat.le_of_not_lt hnot), if_pos rfl] at hreads
  exact Nat.succ_ne_zero _ hreads

/-- A session whose message was handled has its next read, whatever sessions the handling
removed. -/
theorem wellFormed_startRead (hregistry : state.WellFormed) {client : SessionId}
    {result : ReadResult} (hready : (client, result) ∈ state.readyReads) {named after : State}
    (hnamed : ((Event.runRead client result).prepare state).SameSessions named)
    {removed : List SessionId} (hsettles : Settles removed named after) :
    (after.startRead client).WellFormed := by
  have hsame : (after.startRead client).toRegistry =
      (named.startRead client).toRegistry.without removed := by
    show { after.toRegistry with waitingReads := after.waitingReads ++ [client] } = _
    rw [hsettles.registry]
    rfl
  have hstarted : (named.startRead client).WellFormed :=
    hregistry.of_eq hnamed.clients hnamed.isOpen hnamed.accepted
      (outstandingReads_next hready hnamed)
  rw [hsame]
  exact wellFormed_without hstarted removed

/-- A read handler that was given a chunk keeps the invariant and leaves the mutex free. -/
theorem stepAt_data_wellFormed {client : SessionId} {chunk : Bytes} (hregistry : state.WellFormed)
    (hfree : state.held = 0) (hready : (client, .data chunk) ∈ state.readyReads) :
    (stepAt (completing network pastEnd) depth parse (.runRead client (.data chunk))
      state).Satisfies (fun _ after ↦ after.WellFormed ∧ after.held = 0) (fun _ _ ↦ True) := by
  by_cases hblank : IsBlankChunk chunk
  · rw [stepAt_blank _ depth hblank]
    exact ⟨wellFormed_startRead hregistry hready ⟨rfl, rfl⟩ (.refl _), hfree⟩
  cases hfields : messageFields (parsedMessage parse chunk) with
  | error fault =>
    rw [stepAt_unreadable _ depth hblank hfields]
    trivial
  | ok fields =>
    rw [stepAt_message _ depth ⟨chunk, rfl, hblank, hfields⟩]
    split_ifs with hcommand
    · have hlock : (completing network pastEnd).CanLock (state.handling parse client chunk) :=
        canLock_reentrant .safe network _
      have hdirect := handleDirectMessage_records _ depth hlock fields.1 client
      refine Outcome.satisfies_bind hdirect ?_
      rintro - after ⟨attempt, rfl⟩
      have hsame : ((Event.runRead client (.data chunk)).prepare state).SameSessions
          ((state.handling parse client chunk).record [attempt]) := ⟨rfl, rfl⟩
      exact ⟨wellFormed_startRead hregistry hready hsame (.refl _), hfree⟩
    · have hnodup : (state.handling parse client chunk).clients.Nodup := hregistry.nodup
      have hchat := @handleChatMessage_settles network pastEnd depth _ hnodup fields.1 fields.2
        client
      refine Outcome.satisfies_bind (hchat.mono (fun _ _ hafter ↦ hafter)
        fun _ _ _ ↦ trivial) ?_
      rintro - after ⟨named, removed, hnamed, -, hsettles⟩
      have hsame : ((Event.runRead client (.data chunk)).prepare state).SameSessions named :=
        ⟨hnamed.registry, hnamed.held⟩
      exact ⟨wellFormed_startRead hregistry hready hsame hsettles,
        (hsettles.held.trans hnamed.held).trans hfree⟩

/-- Every event that returns keeps the invariant of the sessions and leaves the mutex free. -/
theorem stepAt_wellFormed {event : Event} (hregistry : state.WellFormed) (hfree : state.held = 0)
    (henabled : event.Enabled state) :
    (stepAt (completing network pastEnd) depth parse event state).Satisfies
      (fun _ after ↦ after.WellFormed ∧ after.held = 0) (fun _ _ ↦ True) := by
  have hquiet : event.Plain →
      (stepAt (completing network pastEnd) depth parse event state).Satisfies
        (fun _ after ↦ after.WellFormed ∧ after.held = 0) (fun _ _ ↦ True) := by
    intro hplain
    rw [stepAt_plain _ hfree hplain]
    exact (step_effect_or_halt parse network state hfree event).mono
      (fun _ after heffect ↦ ⟨heffect.wellFormed henabled hregistry, heffect.held hfree⟩)
      fun _ _ _ ↦ trivial
  cases event with
  | broadcast message excludeSocket =>
    have hnodup : ((Event.broadcast message excludeSocket).prepare state).clients.Nodup :=
      hregistry.nodup
    refine (callBroadcastMessage_settles hnodup message excludeSocket).mono ?_ fun _ _ _ ↦ trivial
    rintro - after ⟨removed, hsettles⟩
    rw [hsettles.registry]
    exact ⟨wellFormed_without hregistry removed, hsettles.held.trans hfree⟩
  | runRead client result =>
    have hnodup : ((Event.runRead client result).prepare state).clients.Nodup := hregistry.nodup
    cases result with
    | error =>
      refine (calls_settle depth (.removeClient client) _ hnodup).mono ?_ fun _ _ _ ↦ trivial
      rintro - after ⟨removed, hsettles, hremoved⟩
      rw [hsettles.registry]
      exact ⟨wellFormed_departures hregistry henabled (hremoved client rfl),
        hsettles.held.trans hfree⟩
    | data chunk => exact stepAt_data_wellFormed hregistry hfree henabled
  | _ => exact hquiet trivial

/-- The invariant of the sessions holds, and the mutex is free, in every state that a run of the
idealised server reaches. -/
theorem Traced.wellFormed
    (hrun : Traced (completing network pastEnd) depth parse first events deeds last)
    (hregistry : first.WellFormed) (hfree : first.held = 0) :
    last.WellFormed ∧ last.held = 0 := by
  induction hrun with
  | nil => exact ⟨hregistry, hfree⟩
  | snoc run enabled returned ih =>
    have hafter := @stepAt_wellFormed parse network pastEnd depth _ _ ih.1 ih.2 enabled
    rw [returned] at hafter
    exact hafter

end Runs

end KoboldKhat.Server
