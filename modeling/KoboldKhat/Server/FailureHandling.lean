import KoboldKhat.Server.LockDiscipline

/-!
# Failed writes under a re-entrant mutex

What `broadcastMessage` and `removeClient` do about failed writes when `m_clientsMutex` is taken to
be re-entrant, so that the deadlock of `LockDiscipline` is out of the way. A session whose write
fails is removed, and before it is erased its departure is announced to the others. If two sessions
with names in `m_clients` cannot be written to, each announcement finds the other one, and the calls
nest without end (`broadcast_exhausted`, `removeClient_exhausted`). If there is at most one, every
nested broadcast leaves it out, and the calls are at most five deep (`broadcast_satisfies`,
`removeClient_satisfies`). A broadcast of nothing fails nowhere and removes nobody.

Erasing from a vector inside a range-for over it leaves open how the loop goes on, so termination is
asked for both readings of it, `Walk.slots` and `Walk.safe`.
-/

set_option autoImplicit false
set_option relaxedAutoImplicit false

namespace KoboldKhat.Server

open Library

/-- The session is in `m_clients` under a name and cannot be written to. -/
structure Registry.Dead (registry : Registry) (failing : Set SessionId) (client : SessionId) :
    Prop where
  member : client ∈ registry.clients
  named : registry.username client ≠ []
  cannotSend : registry.CannotSend failing client

/-- At most one session with a name in `m_clients` cannot be written to. -/
def Registry.AtMostOneDead (registry : Registry) (failing : Set SessionId) : Prop :=
  ∀ first second, registry.Dead failing first → registry.Dead failing second → first = second

/-- The setting in which the mutex is re-entrant. -/
def reentrant (walk : Walk) (network : Network) (pastEnd : Option SessionId := none) : Setting :=
  ⟨.reentrant, walk, network, pastEnd⟩

/-! ### One step of the loop -/

section Loop

variable (walk : Walk) (network : Network) {pastEnd : Option SessionId} (depth : ℕ)
  {failing : Set SessionId}

theorem canLock_reentrant (state : State) : (reentrant walk network pastEnd).CanLock state :=
  Or.inl rfl

/-- The body of the loop for the excluded session. -/
theorem exec_broadcastTo_of_excluded (state : State) (message : Bytes)
    {excludeSocket : Option SessionId} {client : SessionId}
    (hexcluded : excludeSocket = some client) :
    (semantics (reentrant walk network pastEnd)).exec depth
        (broadcastTo message excludeSocket client) state = .returned () state := by
  rw [broadcastTo, if_pos hexcluded, Semantics.exec_pure]

/-- The body of the loop for a session the write to which returns. -/
theorem exec_broadcastTo_of_ok (state : State) (message : Bytes) {excludeSocket : Option SessionId}
    {client : SessionId} (hincluded : excludeSocket ≠ some client)
    (hok : (state.attempt network client message).ok = true) :
    (semantics (reentrant walk network pastEnd)).exec depth
        (broadcastTo message excludeSocket client) state =
      .returned () (state.record [state.attempt network client message]) := by
  rw [broadcastTo, if_neg hincluded, Semantics.exec_bind, exec_tryToSendMessage,
    Outcome.bind_returned, Semantics.exec_ite]
  exact if_pos hok

/-- The body of the loop for a session the write to which fails removes it. -/
theorem exec_broadcastTo_of_failed (state : State) (message : Bytes)
    {excludeSocket : Option SessionId} {client : SessionId}
    (hincluded : excludeSocket ≠ some client)
    (hfailed : (state.attempt network client message).ok ≠ true) :
    (semantics (reentrant walk network pastEnd)).exec depth
        (broadcastTo message excludeSocket client) state =
      (semantics (reentrant walk network pastEnd)).exec depth (callRemoveClient client)
        (state.record [state.attempt network client message]) := by
  rw [broadcastTo, if_neg hincluded, Semantics.exec_bind, exec_tryToSendMessage,
    Outcome.bind_returned, Semantics.exec_ite]
  exact if_neg hfailed

/-- The body of the loop for a session that can be written to. -/
theorem exec_broadcastTo_of_canSend (hfails : network.FailsOn failing) (state : State)
    (message : Bytes) {excludeSocket : Option SessionId} {client : SessionId}
    (hincluded : excludeSocket ≠ some client) (hsend : ¬ state.CannotSend failing client) :
    (semantics (reentrant walk network pastEnd)).exec depth
        (broadcastTo message excludeSocket client) state =
      .returned () (state.record [state.attempt network client message]) :=
  exec_broadcastTo_of_ok walk network depth state message hincluded
    ((attempt_ok_iff hfails state client message).mpr (Or.inr hsend))

/-- The body of the loop, with something to write, removes a session that cannot be written to. -/
theorem exec_broadcastTo_of_cannotSend (hfails : network.FailsOn failing) (state : State)
    {message : Bytes} (hmessage : message ≠ []) {excludeSocket : Option SessionId}
    {client : SessionId} (hincluded : excludeSocket ≠ some client)
    (hfailed : state.CannotSend failing client) :
    (semantics (reentrant walk network pastEnd)).exec depth
        (broadcastTo message excludeSocket client) state =
      (semantics (reentrant walk network pastEnd)).exec depth (callRemoveClient client)
        (state.record [state.attempt network client message]) :=
  exec_broadcastTo_of_failed walk network depth state message hincluded
    (not_ok_of_cannotSend hfails hmessage hfailed)

/-- The removal of a session with a name announces its departure first. -/
theorem exec_callRemoveClient_of_reentrant (state : State) {client : SessionId}
    (hnamed : state.username client ≠ []) :
    (semantics (reentrant walk network pastEnd)).exec (depth + 1) (callRemoveClient client) state =
      ((semantics (reentrant walk network pastEnd)).exec depth
        (callBroadcastMessage (disconnectedLine (state.username client)) (some client))
        state).bind fun _ after ↦ .returned () (after.discard client) := by
  refine (Semantics.exec_invoke_succ depth state _).trans ?_
  show (semantics (reentrant walk network pastEnd)).exec depth (removeClient client) state = _
  simp only [removeClient, Semantics.exec_bind, exec_username, Outcome.bind_returned,
    if_neg hnamed, exec_closeAndErase depth _ _ (canLock_reentrant walk network _)]

/-- A broadcast runs its loop between the lock and the unlock. -/
theorem exec_callBroadcastMessage_of_reentrant (state : State) (message : Bytes)
    (excludeSocket : Option SessionId) :
    (semantics (reentrant walk network pastEnd)).exec (depth + 1)
        (callBroadcastMessage message excludeSocket) state =
      ((semantics (reentrant walk network pastEnd)).exec depth
        (forEachClient walk (broadcastTo message excludeSocket))
        (state.holding (state.held + 1))).bind fun _ after ↦
          .returned () (after.holding (after.held - 1)) := by
  refine (Semantics.exec_invoke_succ depth state _).trans ?_
  show (semantics (reentrant walk network pastEnd)).exec depth
    (broadcastMessage walk message excludeSocket) state = _
  simp only [broadcastMessage, Semantics.exec_bind, exec_unlock, Outcome.bind_returned,
    exec_lock _ depth _ (canLock_reentrant walk network _)]

/-- What the body of a loop over `m_clients` preserves for the sessions in it, the loop preserves,
however it goes on after an erasure. A loop over the slots may stop past the end. -/
theorem forEachClient_satisfies {setting : Setting} {body : SessionId → ServerProgram Unit}
    {invariant : State → Prop} {onStop : Fault → State → Prop}
    (hbody : ∀ client state, invariant state → client ∈ state.clients →
      ((semantics setting).exec depth (body client) state).Satisfies
        (fun _ after ↦ invariant after) onStop)
    (hend : walk = .slots → setting.pastEnd = none ∧
      ∀ state, invariant state → onStop .invalidAccess state)
    {state : State}
    (hstate : invariant state) :
    ((semantics setting).exec depth (forEachClient walk body) state).Satisfies
      (fun _ after ↦ invariant after) onStop := by
  rw [forEachClient, Semantics.exec_bind, exec_clients, Outcome.bind_returned]
  cases walk with
  | slots =>
    show ((semantics setting).exec depth (visitSlots body state.clients.length 0) state).Satisfies
      (fun _ after ↦ invariant after) onStop
    generalize state.clients.length = remaining
    generalize 0 = slot
    induction remaining generalizing slot state with
    | zero => exact hstate
    | succ remaining ih =>
      rw [visitSlots, Semantics.exec_bind]
      cases hslot : state.clients[slot]? with
      | none =>
        obtain ⟨hundefined, hstop⟩ := hend rfl
        rw [exec_dereference_end _ _ _ hundefined hslot]
        exact hstop state hstate
      | some client =>
        rw [exec_dereference _ _ _ hslot, Outcome.bind_returned, Semantics.exec_bind]
        exact Outcome.satisfies_bind (hbody client state hstate (List.mem_of_getElem? hslot))
          fun _ after hafter ↦ ih hafter (slot + 1)
  | safe =>
    show ((semantics setting).exec depth (visitMembers body state.clients) state).Satisfies
      (fun _ after ↦ invariant after) onStop
    generalize state.clients = members
    induction members generalizing state with
    | nil => exact hstate
    | cons client rest ih =>
      rw [visitMembers, Semantics.exec_bind, exec_clients, Outcome.bind_returned,
        Semantics.exec_bind, Semantics.exec_ite]
      refine Outcome.satisfies_bind ?_ fun _ after hafter ↦ ih hafter
      split_ifs with hmember
      · exact hbody client state hstate hmember
      · exact hstate

end Loop

/-! ### Termination -/

/-- The stop has another reason than the bound on nested calls. -/
abbrev NotExhausted (fault : Fault) (_ : State) : Prop :=
  fault ≠ .exhausted

/-- No session became dead, the user names are the same, and nobody that could not be written to can
be now. -/
structure Milder (failing : Set SessionId) (before after : Registry) : Prop where
  username : after.username = before.username
  dead : ∀ client, after.Dead failing client → before.Dead failing client
  cannotSend : ∀ client, before.CannotSend failing client → after.CannotSend failing client

section Termination

variable (walk : Walk) {network : Network} {failing : Set SessionId}

theorem Milder.refl (registry : Registry) : Milder failing registry registry :=
  ⟨rfl, fun _ hdead ↦ hdead, fun _ hfailed ↦ hfailed⟩

theorem Milder.trans {first second third : Registry} (hfirst : Milder failing first second)
    (hsecond : Milder failing second third) : Milder failing first third where
  username := hsecond.username.trans hfirst.username
  dead := fun client hdead ↦ hfirst.dead client (hsecond.dead client hdead)
  cannotSend := fun client hfailed ↦ hsecond.cannotSend client (hfirst.cannotSend client hfailed)

/-- A session that is removed can no longer be written to. -/
theorem cannotSend_discard_iff (state : State) (client other : SessionId) :
    (state.discard client).CannotSend failing other ↔
      state.CannotSend failing other ∨ other = client := by
  unfold Registry.CannotSend
  rw [discard_isOpen]
  by_cases hsame : other = client
  · simp [hsame]
  · simp [hsame]

/-- Removing a session that could not be written to makes no session dead. -/
theorem Milder.discard {state : State} {client : SessionId}
    (hfailed : state.CannotSend failing client) :
    Milder failing state.toRegistry (state.discard client).toRegistry where
  username := rfl
  dead := by
    intro other hdead
    refine ⟨List.mem_of_mem_erase hdead.member, hdead.named, ?_⟩
    rcases (cannotSend_discard_iff state client other).mp hdead.cannotSend with hother | rfl
    · exact hother
    · exact hfailed
  cannotSend := fun other hother ↦ (cannotSend_discard_iff state client other).mpr (Or.inl hother)

/-- A broadcast ends, and makes no session dead, if each removal it may make does. A broadcast of
nothing makes none. -/
theorem broadcast_satisfies_of_remove (hfails : network.FailsOn failing) (depth : ℕ)
    (base : State) (message : Bytes) (excludeSocket : Option SessionId)
    (hremove : ∀ client state, message ≠ [] → Milder failing base.toRegistry state.toRegistry →
      client ∈ state.clients → state.CannotSend failing client → excludeSocket ≠ some client →
      ((semantics (reentrant walk network)).exec depth (callRemoveClient client) state).Satisfies
        (fun _ after ↦ Milder failing base.toRegistry after.toRegistry) NotExhausted) :
    ((semantics (reentrant walk network)).exec (depth + 1)
      (callBroadcastMessage message excludeSocket) base).Satisfies
        (fun _ after ↦ Milder failing base.toRegistry after.toRegistry) NotExhausted := by
  rw [exec_callBroadcastMessage_of_reentrant]
  have hbody : ∀ client state, Milder failing base.toRegistry state.toRegistry →
      client ∈ state.clients →
      ((semantics (reentrant walk network)).exec depth (broadcastTo message excludeSocket client)
        state).Satisfies (fun _ after ↦ Milder failing base.toRegistry after.toRegistry)
          NotExhausted := by
    intro client state hmilder hmember
    by_cases hexcluded : excludeSocket = some client
    · rw [exec_broadcastTo_of_excluded walk network depth state message hexcluded]
      exact hmilder
    · by_cases hok : (state.attempt network client message).ok = true
      · rw [exec_broadcastTo_of_ok walk network depth state message hexcluded hok]
        exact hmilder
      · obtain ⟨hmessage, hfailed⟩ := cannotSend_of_not_ok hfails hok
        rw [exec_broadcastTo_of_failed walk network depth state message hexcluded hok]
        exact hremove client (state.record _) hmessage hmilder hmember hfailed hexcluded
  refine Outcome.satisfies_bind (forEachClient_satisfies walk depth hbody
    (fun _ ↦ ⟨rfl, fun _ _ ↦ nofun⟩) (Milder.refl base.toRegistry)) fun _ after hmilder ↦ ?_
  exact hmilder

/-- A broadcast that leaves out every dead session ends: the sessions it removes have no name. -/
theorem broadcast_satisfies_of_excluded (hfails : network.FailsOn failing) (depth : ℕ)
    (state : State) (message : Bytes) (excludeSocket : Option SessionId)
    (hdead : ∀ client, state.Dead failing client → excludeSocket = some client) :
    ((semantics (reentrant walk network)).exec (depth + 2)
      (callBroadcastMessage message excludeSocket) state).Satisfies
        (fun _ after ↦ Milder failing state.toRegistry after.toRegistry) NotExhausted := by
  refine broadcast_satisfies_of_remove walk hfails (depth + 1) state message excludeSocket ?_
  intro client middle _ hmilder hmember hfailed hincluded
  have hunnamed : middle.username client = [] := by
    by_contra hnamed
    exact hincluded (hdead client (hmilder.dead client ⟨hmember, hnamed, hfailed⟩))
  rw [exec_callRemoveClient_of_unnamed depth _ middle (canLock_reentrant walk network _) client
    hunnamed]
  exact hmilder.trans (.discard hfailed)

/-- The removal of the only dead session ends. -/
theorem removeClient_satisfies_of_dead (hfails : network.FailsOn failing) (depth : ℕ)
    (state : State) {client : SessionId} (hdead : state.Dead failing client)
    (honly : ∀ other, state.Dead failing other → other = client) :
    ((semantics (reentrant walk network)).exec (depth + 3) (callRemoveClient client)
      state).Satisfies (fun _ after ↦ Milder failing state.toRegistry after.toRegistry)
        NotExhausted := by
  rw [exec_callRemoveClient_of_reentrant walk network (depth + 2) state hdead.named]
  have hbroadcast := broadcast_satisfies_of_excluded walk hfails depth state
    (disconnectedLine (state.username client)) (some client)
    fun other hother ↦ congrArg some (honly other hother).symm
  refine Outcome.satisfies_bind hbroadcast fun _ middle hmilder ↦ ?_
  exact hmilder.trans (.discard (hmilder.cannotSend client hdead.cannotSend))

/-- With at most one dead session, or with nothing to write, a broadcast ends. -/
theorem broadcast_satisfies (hfails : network.FailsOn failing) (depth : ℕ) (state : State)
    (message : Bytes) (hdead : message = [] ∨ state.AtMostOneDead failing)
    (excludeSocket : Option SessionId) :
    ((semantics (reentrant walk network)).exec (depth + 4)
      (callBroadcastMessage message excludeSocket) state).Satisfies
        (fun _ after ↦ Milder failing state.toRegistry after.toRegistry) NotExhausted := by
  refine broadcast_satisfies_of_remove walk hfails (depth + 3) state message excludeSocket ?_
  intro client middle hmessage hmilder hmember hfailed _
  by_cases hunnamed : middle.username client = []
  · rw [exec_callRemoveClient_of_unnamed (depth + 2) _ middle (canLock_reentrant walk network _)
      client hunnamed]
    exact hmilder.trans (.discard hfailed)
  · have hclient : middle.Dead failing client := ⟨hmember, hunnamed, hfailed⟩
    have hremoved := removeClient_satisfies_of_dead walk hfails depth middle hclient
      fun other hother ↦ hdead.resolve_left hmessage other client (hmilder.dead other hother)
        (hmilder.dead client hclient)
    exact hremoved.mono (fun _ after hafter ↦ hmilder.trans hafter) fun _ _ hstop ↦ hstop

/-- The removal of a session ends if it has no name or at most one session is dead. -/
theorem removeClient_satisfies (hfails : network.FailsOn failing) (depth : ℕ) (state : State)
    (client : SessionId)
    (hdead : state.username client = [] ∨ state.AtMostOneDead failing) :
    ((semantics (reentrant walk network)).exec (depth + 5) (callRemoveClient client)
      state).Satisfies (fun _ _ ↦ True) NotExhausted := by
  by_cases hunnamed : state.username client = []
  · rw [exec_callRemoveClient_of_unnamed (depth + 4) _ state (canLock_reentrant walk network _)
      client hunnamed]
    trivial
  · rw [exec_callRemoveClient_of_reentrant walk network (depth + 4) state hunnamed]
    exact Outcome.satisfies_bind (broadcast_satisfies walk hfails depth state _
      (Or.inr (hdead.resolve_left hunnamed)) _) fun _ _ _ ↦ trivial

end Termination

/-! ### Divergence -/

/-- The stop is due to the bound on nested calls. -/
abbrev Exhausted (fault : Fault) (_ : State) : Prop :=
  fault = .exhausted

/-- Two sessions are dead, and the loop is not disturbed by erasures: it is the idealised one, or
only sessions with names cannot be written to. -/
structure Endless (walk : Walk) (failing : Set SessionId) (registry : Registry) : Prop where
  two : ∃ first second, first ≠ second ∧ registry.Dead failing first ∧
    registry.Dead failing second
  undisturbed : walk = .safe ∨ ∀ client ∈ registry.clients,
    registry.CannotSend failing client → registry.username client ≠ []

/-- The loop went past a session of `m_clients`: it was excluded or not dead, and if anything has
changed in the registry it was removed, having no name. -/
structure Passed (failing : Set SessionId) (excludeSocket : Option SessionId) (client : SessionId)
    (before after : Registry) : Prop where
  notDead : excludeSocket = some client ∨ ¬ before.Dead failing client
  change : after = before ∨ (client ∈ before.clients ∧ before.username client = [] ∧
    before.CannotSend failing client ∧ ∀ other, other ≠ client → before.Dead failing other →
      after.Dead failing other)

section Divergence

variable {walk : Walk} {network : Network} {failing : Set SessionId}

/-- Some dead session is not excluded. -/
theorem Endless.exists_target {registry : Registry} (hendless : Endless walk failing registry)
    (excludeSocket : Option SessionId) :
    ∃ target, registry.Dead failing target ∧ excludeSocket ≠ some target := by
  obtain ⟨first, second, hne, hfirst, hsecond⟩ := hendless.two
  by_cases hexcluded : excludeSocket = some first
  · refine ⟨second, hsecond, fun hsame ↦ hne ?_⟩
    exact Option.some.inj (hexcluded.symm.trans hsame)
  · exact ⟨first, hfirst, hexcluded⟩

/-- The session the loop went past is not a dead one that was not excluded. -/
theorem Passed.ne {excludeSocket : Option SessionId} {client target : SessionId}
    {before after : Registry} (hpassed : Passed failing excludeSocket client before after)
    (hdead : before.Dead failing target) (hincluded : excludeSocket ≠ some target) :
    target ≠ client := by
  rintro rfl
  rcases hpassed.notDead with hexcluded | hnotDead
  · exact hincluded hexcluded
  · exact hnotDead hdead

/-- A dead session stays dead when the loop goes past another session. -/
theorem Passed.dead {excludeSocket : Option SessionId} {client target : SessionId}
    {before after : Registry} (hpassed : Passed failing excludeSocket client before after)
    (hdead : before.Dead failing target) (hne : target ≠ client) : after.Dead failing target := by
  rcases hpassed.change with rfl | ⟨-, -, -, hkept⟩
  · exact hdead
  · exact hkept target hne hdead

/-- Going past a session leaves two sessions dead. -/
theorem Passed.endless {excludeSocket : Option SessionId} {client : SessionId}
    {before after : Registry} (hpassed : Passed failing excludeSocket client before after)
    (hendless : Endless walk failing before) : Endless walk failing after := by
  rcases hpassed.change with rfl | ⟨hmember, hunnamed, hfailed, hkept⟩
  · exact hendless
  · obtain ⟨first, second, hne, hfirst, hsecond⟩ := hendless.two
    have hother : ∀ other, before.Dead failing other → other ≠ client := by
      rintro other hdead rfl
      exact hdead.named hunnamed
    refine ⟨⟨first, second, hne, hkept first (hother first hfirst) hfirst,
      hkept second (hother second hsecond) hsecond⟩, Or.inl ?_⟩
    exact hendless.undisturbed.resolve_right fun hnamed ↦ hnamed client hmember hfailed hunnamed

/-- The removal of a session without a name leaves the dead sessions dead. -/
theorem dead_discard (state : State) {client other : SessionId} (hne : other ≠ client)
    (hdead : state.Dead failing other) : (state.discard client).Dead failing other where
  member := (List.mem_erase_of_ne hne).mpr hdead.member
  named := hdead.named
  cannotSend := (cannotSend_discard_iff state client other).mpr (Or.inl hdead.cannotSend)

/-- The body of the loop goes past a session, or the calls it makes nest too deep. -/
theorem broadcastTo_passed (hfails : network.FailsOn failing) (depth : ℕ) {state : State}
    (hendless : Endless walk failing state.toRegistry)
    (hremove : ∀ client state, Endless walk failing state.toRegistry → state.username client ≠ [] →
      ((semantics (reentrant walk network)).exec depth (callRemoveClient client) state).Satisfies
        (fun _ _ ↦ False) Exhausted)
    {message : Bytes} (hmessage : message ≠ []) (excludeSocket : Option SessionId)
    {client : SessionId} (hmember : client ∈ state.clients) :
    ((semantics (reentrant walk network)).exec depth (broadcastTo message excludeSocket client)
      state).Satisfies
        (fun _ after ↦ Passed failing excludeSocket client state.toRegistry after.toRegistry)
        Exhausted := by
  by_cases hexcluded : excludeSocket = some client
  · rw [exec_broadcastTo_of_excluded walk network depth state message hexcluded]
    exact ⟨Or.inl hexcluded, Or.inl rfl⟩
  by_cases hfailed : state.CannotSend failing client
  · rw [exec_broadcastTo_of_cannotSend walk network depth hfails state hmessage hexcluded hfailed]
    by_cases hunnamed : state.username client = []
    · cases depth with
      | zero => exact rfl
      | succ depth =>
        rw [exec_callRemoveClient_of_unnamed depth _ (state.record _)
          (canLock_reentrant walk network _) client hunnamed]
        exact ⟨Or.inr fun hdead ↦ hdead.named hunnamed, Or.inr ⟨hmember, hunnamed, hfailed,
          fun other hne hdead ↦ dead_discard (state.record _) hne hdead⟩⟩
    · exact (hremove client (state.record _) hendless hunnamed).mono
        (fun _ _ hfalse ↦ hfalse.elim) fun _ _ hstop ↦ hstop
  · rw [exec_broadcastTo_of_canSend walk network depth hfails state message hexcluded hfailed]
    exact ⟨Or.inr fun hdead ↦ hfailed hdead.cannotSend, Or.inl rfl⟩

/-- The loop over the sessions does not end before it finds a dead one. -/
theorem visitMembers_exhausted (depth : ℕ) {body : SessionId → ServerProgram Unit}
    (excludeSocket : Option SessionId)
    (hbody : ∀ client state, Endless walk failing state.toRegistry → client ∈ state.clients →
      ((semantics (reentrant walk network)).exec depth (body client) state).Satisfies
        (fun _ after ↦ Passed failing excludeSocket client state.toRegistry after.toRegistry)
        Exhausted)
    (members : List SessionId) {state : State} (hendless : Endless walk failing state.toRegistry)
    {target : SessionId} (htarget : target ∈ members) (hdead : state.Dead failing target)
    (hincluded : excludeSocket ≠ some target) :
    ((semantics (reentrant walk network)).exec depth (visitMembers body members) state).Satisfies
      (fun _ _ ↦ False) Exhausted := by
  induction members generalizing state with
  | nil => cases htarget
  | cons client rest ih =>
    rw [visitMembers, Semantics.exec_bind, exec_clients, Outcome.bind_returned,
      Semantics.exec_bind, Semantics.exec_ite]
    split_ifs with hmember
    · refine Outcome.satisfies_bind (hbody client state hendless hmember) fun _ after hpassed ↦ ?_
      have hne := hpassed.ne hdead hincluded
      exact ih (hpassed.endless hendless) (List.mem_of_ne_of_mem hne htarget)
        (hpassed.dead hdead hne)
    · have hne : target ≠ client := by
        rintro rfl
        exact hmember hdead.member
      exact ih hendless (List.mem_of_ne_of_mem hne htarget) hdead

/-- The loop over the slots does not end before it finds a dead session. -/
theorem visitSlots_exhausted (depth : ℕ) {body : SessionId → ServerProgram Unit}
    (excludeSocket : Option SessionId)
    (hbody : ∀ client state, Endless .slots failing state.toRegistry → client ∈ state.clients →
      ((semantics (reentrant .slots network)).exec depth (body client) state).Satisfies
        (fun _ after ↦ Passed failing excludeSocket client state.toRegistry after.toRegistry)
        Exhausted)
    (remaining slot : ℕ) {state : State} (hendless : Endless .slots failing state.toRegistry)
    (hend : slot + remaining = state.clients.length) {target : SessionId}
    (htarget : target ∈ state.clients.drop slot) (hdead : state.Dead failing target)
    (hincluded : excludeSocket ≠ some target) :
    ((semantics (reentrant .slots network)).exec depth (visitSlots body remaining slot)
      state).Satisfies (fun _ _ ↦ False) Exhausted := by
  induction remaining generalizing slot state with
  | zero =>
    rw [List.drop_eq_nil_of_le (by omega)] at htarget
    cases htarget
  | succ remaining ih =>
    have hslot : slot < state.clients.length := by omega
    rw [visitSlots, Semantics.exec_bind, exec_dereference _ _ _ (List.getElem?_eq_getElem hslot),
      Outcome.bind_returned, Semantics.exec_bind]
    refine Outcome.satisfies_bind (hbody _ state hendless (List.getElem_mem hslot))
      fun _ after hpassed ↦ ?_
    have hne := hpassed.ne hdead hincluded
    have hsame : after.toRegistry = state.toRegistry := by
      rcases hpassed.change with hsame | ⟨hmember, hunnamed, hfailed, -⟩
      · exact hsame
      · rcases hendless.undisturbed with hsafe | hnamed
        · cases hsafe
        · exact absurd hunnamed (hnamed _ hmember hfailed)
    rw [List.drop_eq_getElem_cons hslot] at htarget
    refine ih (slot + 1) (hsame ▸ hendless) ?_ ?_ (hsame ▸ hdead)
    · rw [hsame]
      omega
    · rw [hsame]
      exact List.mem_of_ne_of_mem hne htarget

/-- With two dead sessions, no bound on nested calls is enough for a broadcast of something. -/
theorem broadcast_exhausted (hfails : network.FailsOn failing) (depth : ℕ) {state : State}
    (hendless : Endless walk failing state.toRegistry) {message : Bytes} (hmessage : message ≠ [])
    (excludeSocket : Option SessionId) :
    ((semantics (reentrant walk network)).exec depth
      (callBroadcastMessage message excludeSocket) state).Satisfies (fun _ _ ↦ False)
        Exhausted := by
  induction depth using Nat.strong_induction_on generalizing state message excludeSocket with
  | _ depth ih =>
    cases depth with
    | zero => exact rfl
    | succ depth =>
      have hremove : ∀ client state, Endless walk failing state.toRegistry →
          state.username client ≠ [] →
          ((semantics (reentrant walk network)).exec depth (callRemoveClient client)
            state).Satisfies (fun _ _ ↦ False) Exhausted := by
        intro client middle hmiddle hnamed
        cases depth with
        | zero => exact rfl
        | succ depth =>
          rw [exec_callRemoveClient_of_reentrant walk network depth middle hnamed]
          exact Outcome.satisfies_bind_of_stops
            (ih depth (by omega) hmiddle (disconnectedLine_ne_nil _) _)
      have hbody := fun client (middle : State) (hmiddle : Endless walk failing middle.toRegistry)
        (hmember : client ∈ middle.clients) ↦
          broadcastTo_passed hfails depth hmiddle hremove hmessage excludeSocket hmember
      obtain ⟨target, hdead, hincluded⟩ := hendless.exists_target excludeSocket
      rw [exec_callBroadcastMessage_of_reentrant]
      refine Outcome.satisfies_bind_of_stops ?_
      rw [forEachClient, Semantics.exec_bind, exec_clients, Outcome.bind_returned]
      cases walk with
      | slots =>
        exact visitSlots_exhausted depth excludeSocket hbody _ 0 hendless (Nat.zero_add _)
          hdead.member hdead hincluded
      | safe =>
        exact visitMembers_exhausted depth excludeSocket hbody _ hendless hdead.member hdead
          hincluded

/-- With two dead sessions, no bound on nested calls is enough for the removal of a session with a
name. -/
theorem removeClient_exhausted (hfails : network.FailsOn failing) (depth : ℕ) {state : State}
    (hendless : Endless walk failing state.toRegistry) {client : SessionId}
    (hnamed : state.username client ≠ []) :
    ((semantics (reentrant walk network)).exec depth (callRemoveClient client) state).Satisfies
      (fun _ _ ↦ False) Exhausted := by
  cases depth with
  | zero => exact rfl
  | succ depth =>
    rw [exec_callRemoveClient_of_reentrant walk network depth state hnamed]
    exact Outcome.satisfies_bind_of_stops
      (broadcast_exhausted hfails depth hendless (disconnectedLine_ne_nil _) _)

end Divergence

/-- With a re-entrant mutex, for every state and every set of sessions that cannot be written to: a
broadcast terminates, however its loop goes on after an erasure, exactly when there is nothing to
write or at most one session with a name in `m_clients` cannot be written to; and a removal exactly
when its session has no name or at most one session with a name cannot be written to. -/
theorem failureHandling_terminates_iff {network : Network} {failing : Set SessionId}
    (hfails : network.FailsOn failing) (state : State) :
    (∀ message excludeSocket,
      (∀ walk, (semantics (reentrant walk network)).Terminates
        (callBroadcastMessage message excludeSocket) state) ↔
          message = [] ∨ state.AtMostOneDead failing) ∧
    ∀ client,
      (∀ walk, (semantics (reentrant walk network)).Terminates (callRemoveClient client) state) ↔
        state.username client = [] ∨ state.AtMostOneDead failing := by
  have htwo : ¬ state.AtMostOneDead failing → Endless .safe failing state.toRegistry := by
    intro hnot
    unfold Registry.AtMostOneDead at hnot
    push Not at hnot
    obtain ⟨first, second, hfirst, hsecond, hne⟩ := hnot
    exact ⟨⟨first, second, hne, hfirst, hsecond⟩, Or.inl rfl⟩
  refine ⟨fun message excludeSocket ↦ ⟨fun hterminates ↦ ?_, fun hdead walk ↦ ?_⟩,
    fun client ↦ ⟨fun hterminates ↦ ?_, fun hdead walk ↦ ?_⟩⟩
  · by_contra hnot
    obtain ⟨hmessage, hnot⟩ := not_or.mp hnot
    exact Semantics.not_terminates_of_satisfies state
      (fun depth ↦ broadcast_exhausted hfails depth (htwo hnot) hmessage excludeSocket)
      (hterminates .safe)
  · exact .of_satisfies 4 state
      (broadcast_satisfies walk hfails 0 state message hdead excludeSocket)
  · by_contra hnot
    obtain ⟨hnamed, hnot⟩ := not_or.mp hnot
    exact Semantics.not_terminates_of_satisfies state
      (fun depth ↦ removeClient_exhausted hfails depth (htwo hnot) hnamed) (hterminates .safe)
  · exact .of_satisfies 5 state (removeClient_satisfies walk hfails 0 state client hdead)

/-- Two sessions of the name `kobold` in `m_clients`. -/
def twoKobolds : State :=
  { initial 10 with
    clients := [0, 1]
    accepted := 2
    username := fun _ ↦ ascii "kobold"
    isOpen := fun client ↦ decide (client < 2) }

/-- When only the first of two named sessions cannot be written to, broadcasts terminate. -/
theorem failureHandling_terminates_of_one_dead :
    (semantics (reentrant .slots (failingOn fun client ↦ client == 0))).Terminates
        (callBroadcastMessage (ascii "hello") none) twoKobolds ∧
      (semantics (reentrant .safe (failingOn fun client ↦ client == 0))).Terminates
        (callBroadcastMessage (ascii "hello") none) twoKobolds := by
  have hdead : ∀ client, twoKobolds.Dead { client | (client == 0) = true } client →
      client = 0 := by
    intro client hdead
    have hcases : client = 0 ∨ client = 1 := by
      simpa using (show client ∈ [0, 1] from hdead.member)
    rcases hcases with rfl | rfl
    · rfl
    · rcases hdead.cannotSend with hfailing | hclosed
      · cases hfailing
      · cases hclosed
  have hterminates := ((failureHandling_terminates_iff (failingOn_failsOn _) twoKobolds).1
    (ascii "hello") none).mpr <| Or.inr fun first second hfirst hsecond ↦
      (hdead first hfirst).trans (hdead second hsecond).symm
  exact ⟨hterminates .slots, hterminates .safe⟩

/-- When neither of two named sessions can be written to, a broadcast does not terminate, however
its loop goes on after an erasure. -/
theorem failureHandling_diverges :
    ¬ (semantics (reentrant .slots (failingOn fun _ ↦ true))).Terminates
        (callBroadcastMessage (ascii "hello") none) twoKobolds ∧
      ¬ (semantics (reentrant .safe (failingOn fun _ ↦ true))).Terminates
        (callBroadcastMessage (ascii "hello") none) twoKobolds := by
  have hnamed : twoKobolds.username 0 ≠ [] := by decide
  have hdead : ∀ client ∈ twoKobolds.clients,
      twoKobolds.Dead { _client : SessionId | true = true } client :=
    fun client hmember ↦ ⟨hmember, hnamed, Or.inl rfl⟩
  have hendless : ∀ walk, Endless walk { _client : SessionId | true = true }
      twoKobolds.toRegistry := fun walk ↦
    ⟨⟨0, 1, by decide, hdead 0 (by decide), hdead 1 (by decide)⟩, Or.inr fun _ _ _ ↦ hnamed⟩
  have hmessage : ascii "hello" ≠ [] := by decide
  exact ⟨Semantics.not_terminates_of_satisfies _ fun depth ↦
      broadcast_exhausted (failingOn_failsOn _) depth (hendless .slots) hmessage _,
    Semantics.not_terminates_of_satisfies _ fun depth ↦
      broadcast_exhausted (failingOn_failsOn _) depth (hendless .safe) hmessage _⟩

end KoboldKhat.Server
