import KoboldKhat.Server.Steps

/-!
# The session registry

What ties `m_clients`, the open sockets and the reads in flight together in every state between two
handlers (`Registry.WellFormed`). Every way in which an event can return preserves it
(`Effect.wellFormed`), so it holds in every reachable state (`Reachable.wellFormed`).

Membership, openness and the chain of reads are changed at different moments by different
functions, but an event changes them together: a session enters `m_clients` with an open socket and
one read, gives up its read only to start the next one or to be removed, and is closed when it
leaves. The read of a session that `shutdown` removed may still complete, and its handler may start
another one on the closed socket; there is still only one.
-/

set_option autoImplicit false
set_option relaxedAutoImplicit false

namespace KoboldKhat.Server

open Library

/-- The invariant of the sessions between two handlers. -/
structure Registry.WellFormed (registry : Registry) : Prop where
  /-- The sessions in `m_clients` are listed in the order of their acceptance. -/
  ordered : registry.clients.Pairwise (· < ·)
  /-- The sessions in `m_clients` have been accepted. -/
  member_lt : ∀ client ∈ registry.clients, client < registry.accepted
  /-- The sessions in `m_clients` have open sockets. -/
  member_open : ∀ client ∈ registry.clients, registry.isOpen client = true
  /-- The sessions in `m_clients` have one read each. -/
  member_reads : ∀ client ∈ registry.clients, registry.outstandingReads client = 1
  /-- No session has two reads. -/
  reads_le : ∀ client, registry.outstandingReads client ≤ 1
  /-- The sockets of the other sessions are closed. -/
  closed : ∀ client, client ∉ registry.clients → registry.isOpen client = false
  /-- Sessions that have not been accepted have no read. -/
  fresh_reads : ∀ client, registry.accepted ≤ client → registry.outstandingReads client = 0

namespace Registry.WellFormed

variable {registry : Registry}

/-- `m_clients` contains no session twice. -/
theorem nodup (hregistry : registry.WellFormed) : registry.clients.Nodup :=
  hregistry.ordered.imp fun hlt ↦ Nat.ne_of_lt hlt

/-- The next connection is not in `m_clients`. -/
theorem accepted_notMem (hregistry : registry.WellFormed) :
    registry.accepted ∉ registry.clients :=
  fun hmember ↦ Nat.lt_irrefl _ (hregistry.member_lt _ hmember)

/-- The invariant depends on `m_clients`, the sockets and the numbers of reads only. -/
theorem of_eq {other : Registry} (hregistry : registry.WellFormed)
    (hclients : other.clients = registry.clients) (hopen : other.isOpen = registry.isOpen)
    (haccepted : other.accepted = registry.accepted)
    (hreads : ∀ client, other.outstandingReads client = registry.outstandingReads client) :
    other.WellFormed where
  ordered := hclients ▸ hregistry.ordered
  member_lt := by rw [hclients, haccepted]; exact hregistry.member_lt
  member_open := by rw [hclients, hopen]; exact hregistry.member_open
  member_reads := fun client hmember ↦
    (hreads client).trans (hregistry.member_reads client (hclients ▸ hmember))
  reads_le := fun client ↦ hreads client ▸ hregistry.reads_le client
  closed := by rw [hclients, hopen]; exact hregistry.closed
  fresh_reads := fun client hfresh ↦
    (hreads client).trans (hregistry.fresh_reads client (haccepted ▸ hfresh))

end Registry.WellFormed

/-! ### Removed sessions -/

/-- The registry after sessions are closed and erased from `m_clients`. -/
def Registry.without (registry : Registry) (removed : List SessionId) : Registry :=
  { registry with
    isOpen := fun client ↦ registry.isOpen client && client ∉ removed
    clients := registry.clients.filter (· ∉ removed) }

/-- The session is not in `m_clients`, and its socket is closed. -/
def Registry.Gone (registry : Registry) (client : SessionId) : Prop :=
  client ∉ registry.clients ∧ registry.isOpen client = false

section Removed

variable {registry : Registry} {removed : List SessionId} {client : SessionId}

theorem mem_clients_without :
    client ∈ (registry.without removed).clients ↔ client ∈ registry.clients ∧ client ∉ removed := by
  simp [Registry.without, List.mem_filter]

theorem isOpen_without_of_notMem (hnot : client ∉ removed) :
    (registry.without removed).isOpen client = registry.isOpen client := by
  simp [Registry.without, hnot]

/-- A session that was removed is gone. -/
theorem gone_without_of_mem (hmember : client ∈ removed) :
    (registry.without removed).Gone client := by
  refine ⟨fun hclients ↦ (mem_clients_without.mp hclients).2 hmember, ?_⟩
  simp [Registry.without, hmember]

theorem without_nil (registry : Registry) : registry.without [] = registry := by
  simp [Registry.without]

/-- Removing sessions in two goes. -/
theorem without_without (registry : Registry) (first second : List SessionId) :
    (registry.without first).without second = registry.without (first ++ second) := by
  simp only [Registry.without, List.filter_filter, List.mem_append, not_or, Bool.decide_and,
    Bool.and_assoc]
  congr 2
  ext client
  exact Bool.and_comm _ _

/-- Closing a session and erasing it removes it from a list that holds it once. -/
theorem discard_eq_without {state : State} (hnodup : state.clients.Nodup) (client : SessionId) :
    (state.discard client).toRegistry = state.toRegistry.without [client] := by
  simp only [State.discard, Registry.without, List.mem_singleton]
  congr 1
  · rw [hnodup.erase_eq_filter]
    refine List.filter_congr fun other _ ↦ ?_
    by_cases hsame : other = client <;> simp [hsame]
  · ext other
    by_cases hsame : other = client <;> simp [hsame]

end Removed

/-! ### Reads in flight -/

section Reads

variable (state : State) (client other : SessionId)

/-- Starting a read adds one read to its session. -/
theorem outstandingReads_startRead :
    (state.startRead client).outstandingReads other =
      state.outstandingReads other + if other = client then 1 else 0 := by
  simp only [State.startRead, Registry.outstandingReads, List.count_append, List.count_singleton,
    beq_iff_eq, eq_comm (a := client)]
  omega

/-- The completion of a read leaves it in flight until its handler runs. -/
theorem outstandingReads_readCompletes (result : ReadResult)
    (hwaiting : client ∈ state.waitingReads) :
    ((Event.readCompletes client result).prepare state).outstandingReads other =
      state.outstandingReads other := by
  simp only [Event.prepare, Event.arrive, Registry.outstandingReads, List.map_append, List.map_cons,
    List.map_nil, List.count_append, List.count_singleton, List.count_erase, beq_iff_eq]
  have hpositive : 0 < state.waitingReads.count client := List.count_pos_iff.mpr hwaiting
  split_ifs with hsame
  · subst hsame
    omega
  · omega

/-- Running the handler of a read takes one read from its session. -/
theorem outstandingReads_runRead {result : ReadResult}
    (hready : (client, result) ∈ state.readyReads) :
    ((Event.runRead client result).prepare state).outstandingReads other +
      (if other = client then 1 else 0) = state.outstandingReads other := by
  have hperm : (state.readyReads.map Prod.fst).Perm
      (client :: (state.readyReads.erase (client, result)).map Prod.fst) :=
    (List.perm_cons_erase hready).map Prod.fst
  simp only [Event.prepare, Event.arrive, Registry.outstandingReads, hperm.count_eq,
    List.count_cons, beq_iff_eq, eq_comm (a := client)]
  omega

end Reads

/-! ### What a handler leaves alone -/

/-- The state differs from another one in the user names and in the records only. -/
structure State.SameSessions (before after : State) : Prop where
  /-- The registries agree up to the user names. -/
  registry : after.toRegistry = { before.toRegistry with username := after.username }
  /-- The mutex is held as often. -/
  held : after.held = before.held

namespace State.SameSessions

variable {before after : State}

theorem clients (hsame : before.SameSessions after) : after.clients = before.clients := by
  rw [hsame.registry]

theorem isOpen (hsame : before.SameSessions after) : after.isOpen = before.isOpen := by
  rw [hsame.registry]

theorem accepted (hsame : before.SameSessions after) : after.accepted = before.accepted := by
  rw [hsame.registry]

theorem maxClients (hsame : before.SameSessions after) : after.maxClients = before.maxClients := by
  rw [hsame.registry]

theorem readyAccepts (hsame : before.SameSessions after) :
    after.readyAccepts = before.readyAccepts := by
  rw [hsame.registry]

theorem outstandingAccepts (hsame : before.SameSessions after) :
    after.outstandingAccepts = before.outstandingAccepts := by
  rw [hsame.registry]
  rfl

theorem outstandingReads (hsame : before.SameSessions after) (client : SessionId) :
    after.outstandingReads client = before.outstandingReads client := by
  rw [hsame.registry]
  rfl

end State.SameSessions

/-- The handling of a message changes user names only. -/
theorem MessageEffect.sameSessions {network : Network} {state after : State}
    {message newUsername : Bytes} {client : SessionId}
    (heffect : MessageEffect network state message newUsername client after) :
    state.SameSessions after := by
  cases heffect with
  | direct receiver command found => exact ⟨rfl, rfl⟩
  | register command unnamed sent => exact ⟨rfl, rfl⟩
  | chat command named sent => exact ⟨rfl, rfl⟩

/-! ### The invariant -/

section Invariant

variable {parse : Bytes → Option Json} {network : Network} {state after : State}

/-- A connection that was rejected leaves its socket closed. -/
theorem wellFormed_reject (hregistry : state.WellFormed) :
    (((Event.runAccept .success).prepare state).closeSocket
      state.accepted).startAccept.WellFormed where
  ordered := hregistry.ordered
  member_lt := fun client hmember ↦ Nat.lt_succ_of_lt (hregistry.member_lt client hmember)
  member_open := fun client hmember ↦ by
    have hne : client ≠ state.accepted := Nat.ne_of_lt (hregistry.member_lt client hmember)
    simpa [State.startAccept, State.closeSocket, Event.prepare, Event.arrive, hne] using
      hregistry.member_open client hmember
  member_reads := hregistry.member_reads
  reads_le := hregistry.reads_le
  closed := fun client hnot ↦ by
    by_cases hsame : client = state.accepted
    · simp [State.startAccept, State.closeSocket, Event.prepare, Event.arrive, hsame]
    · simpa [State.startAccept, State.closeSocket, Event.prepare, Event.arrive, hsame] using
        hregistry.closed client hnot
  fresh_reads := fun client hfresh ↦ hregistry.fresh_reads client (Nat.le_of_succ_le hfresh)

/-- A connection that was published is open and has its first read. -/
theorem wellFormed_publish (hregistry : state.WellFormed) :
    ((((Event.runAccept .success).prepare state).publish state.accepted).startRead
      state.accepted).startAccept.WellFormed := by
  have hfresh : state.outstandingReads state.accepted = 0 :=
    hregistry.fresh_reads _ (Nat.le_refl _)
  have hreads : ∀ client, ((((Event.runAccept .success).prepare state).publish
      state.accepted).startRead state.accepted).startAccept.outstandingReads client =
        state.outstandingReads client + if client = state.accepted then 1 else 0 :=
    fun client ↦ outstandingReads_startRead _ state.accepted client
  have hclients : ∀ client, client ∈ ((((Event.runAccept .success).prepare state).publish
      state.accepted).startRead state.accepted).startAccept.clients ↔
        client ∈ state.clients ∨ client = state.accepted := by
    intro client
    simp [State.startAccept, State.startRead, State.publish, Event.prepare, Event.arrive]
  have hopen : ((((Event.runAccept .success).prepare state).publish
      state.accepted).startRead state.accepted).startAccept.isOpen =
        Function.update state.isOpen state.accepted true := rfl
  refine ⟨?_, ?_, ?_, ?_, ?_, ?_, ?_⟩
  · refine List.pairwise_append.mpr ⟨hregistry.ordered, List.pairwise_singleton _ _, ?_⟩
    intro client hmember newClient hnew
    rw [List.mem_singleton.mp hnew]
    exact hregistry.member_lt client hmember
  · intro client hmember
    obtain hold | rfl := (hclients client).mp hmember
    · exact Nat.lt_succ_of_lt (hregistry.member_lt client hold)
    · exact Nat.lt_succ_self _
  · intro client hmember
    rw [hopen]
    obtain hold | rfl := (hclients client).mp hmember
    · rw [Function.update_of_ne (Nat.ne_of_lt (hregistry.member_lt client hold))]
      exact hregistry.member_open client hold
    · rw [Function.update_self]
  · intro client hmember
    rw [hreads]
    obtain hold | rfl := (hclients client).mp hmember
    · rw [if_neg (Nat.ne_of_lt (hregistry.member_lt client hold))]
      exact hregistry.member_reads client hold
    · rw [if_pos rfl, hfresh]
  · intro client
    rw [hreads]
    split_ifs with hsame
    · subst hsame
      omega
    · exact hregistry.reads_le client
  · intro client hnot
    rw [hclients, not_or] at hnot
    rw [hopen, Function.update_of_ne hnot.2]
    exact hregistry.closed client hnot.1
  · intro client hlater
    have hlt : state.accepted < client := hlater
    rw [hreads, if_neg (Nat.ne_of_gt hlt)]
    exact hregistry.fresh_reads client (Nat.le_of_lt hlt)

/-- Removing sessions keeps the invariant. -/
theorem wellFormed_without {registry : Registry} (hregistry : registry.WellFormed)
    (removed : List SessionId) : (registry.without removed).WellFormed where
  ordered := hregistry.ordered.sublist List.filter_sublist
  member_lt := fun client hmember ↦
    hregistry.member_lt client (mem_clients_without.mp hmember).1
  member_open := fun client hmember ↦ by
    obtain ⟨hold, hkept⟩ := mem_clients_without.mp hmember
    rw [isOpen_without_of_notMem hkept]
    exact hregistry.member_open client hold
  member_reads := fun client hmember ↦
    hregistry.member_reads client (mem_clients_without.mp hmember).1
  reads_le := hregistry.reads_le
  closed := fun client hnot ↦ by
    by_cases hremoved : client ∈ removed
    · exact (gone_without_of_mem hremoved).2
    · rw [isOpen_without_of_notMem hremoved]
      exact hregistry.closed client fun hold ↦ hnot (mem_clients_without.mpr ⟨hold, hremoved⟩)
  fresh_reads := hregistry.fresh_reads

/-- A session whose read failed leaves `m_clients` with its socket closed and no read, and others
may leave with it. -/
theorem wellFormed_departures (hregistry : state.WellFormed) {client : SessionId}
    (hready : (client, .error) ∈ state.readyReads) {removed : List SessionId}
    (hremoved : client ∈ removed) :
    (((Event.runRead client .error).prepare state).without removed).WellFormed := by
  have hreads : ∀ other, (((Event.runRead client .error).prepare state).without
      removed).outstandingReads other + (if other = client then 1 else 0) =
        state.outstandingReads other :=
    fun other ↦ outstandingReads_runRead state client other hready
  have hwithout := wellFormed_without hregistry removed
  refine ⟨hwithout.ordered, hwithout.member_lt, hwithout.member_open, ?_, ?_, hwithout.closed, ?_⟩
  · intro other hmember
    obtain ⟨hold, hkept⟩ := mem_clients_without.mp hmember
    have hne : other ≠ client := by
      rintro rfl
      exact hkept hremoved
    have hcount := hreads other
    rw [if_neg hne] at hcount
    exact hcount.trans (hregistry.member_reads other hold)
  · intro other
    have hcount := hreads other
    have hle := hregistry.reads_le other
    omega
  · intro other hfresh
    have hcount := hreads other
    rw [hregistry.fresh_reads other hfresh] at hcount
    exact (Nat.add_eq_zero_iff.mp hcount).1

/-- After `shutdown` no socket is open. -/
theorem wellFormed_shutDown (hregistry : state.WellFormed) : state.shutDown.WellFormed where
  ordered := List.Pairwise.nil
  member_lt := fun _ hmember ↦ absurd hmember List.not_mem_nil
  member_open := fun _ hmember ↦ absurd hmember List.not_mem_nil
  member_reads := fun _ hmember ↦ absurd hmember List.not_mem_nil
  reads_le := hregistry.reads_le
  closed := fun client _ ↦ by
    by_cases hmember : client ∈ state.clients
    · simp [State.shutDown, hmember]
    · simp [State.shutDown, hregistry.closed client hmember]
  fresh_reads := hregistry.fresh_reads

/-- Taking a read and starting the next one on the same session keeps the number of its reads. -/
theorem outstandingReads_next {result : ReadResult} {client : SessionId}
    (hready : (client, result) ∈ state.readyReads)
    (hsame : ((Event.runRead client result).prepare state).SameSessions after)
    (other : SessionId) :
    (after.startRead client).outstandingReads other = state.outstandingReads other := by
  rw [outstandingReads_startRead, hsame.outstandingReads,
    outstandingReads_runRead state client other hready]

/-- Every way in which an enabled event can return preserves the invariant. -/
theorem Effect.wellFormed {event : Event} (heffect : Effect parse network state event after)
    (henabled : event.Enabled state) (hregistry : state.WellFormed) : after.WellFormed := by
  cases heffect with
  | start => exact hregistry.of_eq rfl rfl rfl fun _ ↦ rfl
  | acceptCompletes result => exact hregistry.of_eq rfl rfl rfl fun _ ↦ rfl
  | readCompletes client result =>
    exact hregistry.of_eq rfl rfl rfl fun other ↦
      outstandingReads_readCompletes state client other result henabled.1
  | acceptError => exact hregistry.of_eq rfl rfl rfl fun _ ↦ rfl
  | reject full => exact wellFormed_reject hregistry
  | publish room known => exact wellFormed_publish hregistry
  | depart client sent =>
    have hgone := wellFormed_departures hregistry henabled (List.mem_singleton_self client)
    have hnodup : ((Event.runRead client .error).prepare state).clients.Nodup := hregistry.nodup
    rw [← discard_eq_without hnodup client] at hgone
    exact hgone
  | blank client chunk isBlank =>
    exact hregistry.of_eq rfl rfl rfl (outstandingReads_next henabled ⟨rfl, rfl⟩)
  | message client chunk message newUsername middle notBlank fields effect =>
    have hsame := effect.sameSessions
    exact hregistry.of_eq hsame.clients hsame.isOpen hsame.accepted
      (outstandingReads_next henabled ⟨hsame.registry, hsame.held⟩)
  | broadcast message excludeSocket sent => exact hregistry.of_eq rfl rfl rfl fun _ ↦ rfl
  | shutdown => exact wellFormed_shutDown hregistry

/-- An event that returns leaves the mutex free. -/
theorem Effect.held {event : Event} (heffect : Effect parse network state event after)
    (hfree : state.held = 0) : after.held = 0 := by
  cases heffect with
  | message client chunk message newUsername middle notBlank fields effect =>
    exact effect.sameSessions.held.trans hfree
  | acceptError => exact hfree
  | acceptCompletes result => exact hfree
  | readCompletes client result => exact hfree
  | _ => exact hfree

end Invariant

/-! ### Runs -/

section Runs

variable {parse : Bytes → Option Json} {network : Network} {first last : State}
  {events : List Event}

/-- A run that starts with a free mutex ends with a free mutex. -/
theorem Run.held (hrun : Run parse network first events last) (hfree : first.held = 0) :
    last.held = 0 := by
  induction hrun with
  | nil => exact hfree
  | snoc run enabled returned ih => exact (effect_of_returned ih returned).held ih

/-- What every effect of an enabled event preserves, every run preserves. -/
theorem Run.preserves {invariant : State → Prop}
    (hstep : ∀ {before after : State} {event : Event}, before.held = 0 → event.Enabled before →
      Effect parse network before event after → invariant before → invariant after)
    (hrun : Run parse network first events last) (hfree : first.held = 0)
    (hfirst : invariant first) : invariant last := by
  induction hrun with
  | nil => exact hfirst
  | snoc run enabled returned ih =>
    have hheld := run.held hfree
    exact hstep hheld enabled (effect_of_returned hheld returned) ih

/-- The invariant holds before `start`. -/
theorem wellFormed_initial (maxClients : ℕ) : (initial maxClients).WellFormed where
  ordered := List.Pairwise.nil
  member_lt := fun _ hmember ↦ absurd hmember List.not_mem_nil
  member_open := fun _ hmember ↦ absurd hmember List.not_mem_nil
  member_reads := fun _ hmember ↦ absurd hmember List.not_mem_nil
  reads_le := fun _ ↦ Nat.zero_le _
  closed := fun _ _ ↦ rfl
  fresh_reads := fun _ _ ↦ rfl

/-- The mutex is free in every reachable state. -/
theorem Reachable.held {state : State} (hreachable : Reachable parse network state) :
    state.held = 0 := by
  obtain ⟨maxClients, events, hrun⟩ := hreachable
  exact hrun.held rfl

/-- The invariant holds in every reachable state. -/
theorem Reachable.wellFormed {state : State} (hreachable : Reachable parse network state) :
    state.WellFormed := by
  obtain ⟨maxClients, events, hrun⟩ := hreachable
  exact hrun.preserves (fun _ henabled heffect hbefore ↦ heffect.wellFormed henabled hbefore) rfl
    (wellFormed_initial maxClients)

/-- In every state between two handlers, `m_clients` lists its sessions once each and in the order
of their acceptance; they are open and have one read each; the other accepted sessions are closed;
and no session has two reads. -/
theorem session_registry_invariant {state : State} (hreachable : Reachable parse network state) :
    state.clients.Nodup ∧ state.clients.Pairwise (· < ·) ∧
      (∀ client ∈ state.clients, state.isOpen client = true ∧ state.outstandingReads client = 1) ∧
      (∀ client, client < state.accepted → client ∉ state.clients → state.isOpen client = false) ∧
      ∀ client, state.outstandingReads client ≤ 1 := by
  have hregistry := hreachable.wellFormed
  refine ⟨hregistry.nodup, hregistry.ordered, ?_, ?_, hregistry.reads_le⟩
  · intro client hmember
    exact ⟨hregistry.member_open client hmember, hregistry.member_reads client hmember⟩
  · intro client _ hnot
    exact hregistry.closed client hnot

/-- The invariant in the state after one connection was published and another one rejected. -/
theorem session_registry_invariant_after_rejection :
    ∃ state : State, Reachable (fun _ ↦ none) reliable state ∧
      (state.clients = [0] ∧ state.accepted = 2) ∧
      state.clients.Nodup ∧ state.clients.Pairwise (· < ·) ∧
      (∀ client ∈ state.clients, state.isOpen client = true ∧ state.outstandingReads client = 1) ∧
      (∀ client, client < state.accepted → client ∉ state.clients → state.isOpen client = false) ∧
      ∀ client, state.outstandingReads client ≤ 1 := by
  let events : List Event :=
    [.start, .acceptCompletes .success, .runAccept .success, .acceptCompletes .success,
      .runAccept .success]
  have hsome : (play (fun _ ↦ none) reliable events (initial 1)).isSome = true := by decide
  have hreachable := reachable_of_play (Option.some_get hsome).symm
  exact ⟨_, hreachable, ⟨rfl, rfl⟩, session_registry_invariant hreachable⟩

end Runs

end KoboldKhat.Server
