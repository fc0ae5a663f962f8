import KoboldKhat.Server.Sessions

/-!
# After `shutdown`

What the completions that are left over do once `shutdown` has returned. The reads are harmless:
their handlers find `m_clients` empty, and the one line they may attempt, the notice for a direct
message, goes to a closed socket. A completed accept is not: its handler checks the capacity but not
`m_running`, and publishes the new session. So `shutdown` is final exactly when no completed accept
carries a connection or the capacity is zero (`shutdownIsFinal_iff`).
-/

set_option autoImplicit false
set_option relaxedAutoImplicit false

namespace KoboldKhat.Server

open Library

/-- The event is the completion of an asynchronous operation or the run of its handler. -/
def Event.IsCompletion : Event → Prop
  | acceptCompletes _ => True
  | readCompletes _ _ => True
  | runAccept _ => True
  | runRead _ _ => True
  | _ => False

/-- Since the first state no session was added or read from, none is left, and nothing was
written. -/
structure Quiet (before after : State) : Prop where
  /-- `m_clients` is empty. -/
  clients : after.clients = []
  /-- There is no read of a connection accepted later. -/
  reads : ∀ client, before.accepted ≤ client → after.outstandingReads client = 0
  /-- The streams of the sessions are as they were. -/
  outgoing : ∀ client, after.outgoing client = before.outgoing client

/-- Whatever completions follow `shutdown`, in whatever order, all is quiet at every later time,
also when one of their handlers does not return. -/
def ShutdownIsFinal (parse : Bytes → Option Json) (network : Network) (state : State) : Prop :=
  ∀ shut, step parse network .shutdown state = .returned () shut →
    ∀ events later, Run parse network shut events later →
      (∀ event ∈ events, event.IsCompletion) →
        Quiet state later ∧ ∀ event fault last, event.IsCompletion → event.Enabled later →
          step parse network event later = .stopped fault last → Quiet state last

/-- No completed accept carries a connection that could be published. -/
def Registry.AdmitsNone (registry : Registry) : Prop :=
  .success ∉ registry.readyAccepts ∨ registry.maxClients = 0

/-- The invariant after a `shutdown` in a state in which no connection could be published. -/
structure Shut (before state : State) : Prop where
  quiet : Quiet before state
  free : state.held = 0
  acceptorClosed : state.acceptorOpen = false
  socketsClosed : ∀ client, state.isOpen client = false
  admitsNone : state.AdmitsNone

section Silence

variable {network : Network} {state after : State}

/-- Without clients a broadcast writes nothing. -/
theorem broadcastAttempts_of_no_clients (hclients : state.clients = []) (message : Bytes)
    (excludeSocket : Option SessionId) :
    state.broadcastAttempts network message excludeSocket = [] := by
  rw [State.broadcastAttempts, hclients]
  rfl

/-- Without clients a departure is not announced. -/
theorem departureAttempts_of_no_clients (network : Network) (hclients : state.clients = [])
    (client : SessionId) : state.departureAttempts network client = [] := by
  rw [State.departureAttempts, broadcastAttempts_of_no_clients hclients, ite_self]

/-- Without clients nobody has a name. -/
theorem firstNamed_of_no_clients (hclients : state.clients = []) (name : Bytes) :
    state.firstNamed name = none := by
  rw [Registry.firstNamed, hclients]
  rfl

/-- A write to a closed socket adds nothing to any stream. -/
theorem outgoing_record_closed {client : SessionId} (hclosed : state.isOpen client = false)
    (message : Bytes) (other : SessionId) :
    (state.record [state.attempt network client message]).outgoing other =
      state.outgoing other := by
  rw [State.attempt, hclosed]
  by_cases hsame : client = other <;> simp [State.outgoing, List.filter_append, hsame]

/-- Without clients a message that is handled writes nothing. -/
theorem MessageEffect.attempts_of_no_clients {message newUsername : Bytes} {client : SessionId}
    (heffect : MessageEffect network state message newUsername client after)
    (hclients : state.clients = []) : after.attempts = state.attempts := by
  cases heffect with
  | direct receiver command found =>
    rw [firstNamed_of_no_clients hclients] at found
    cases found
  | register command unnamed sent =>
    rw [broadcastAttempts_of_no_clients hclients, record_nil, rename_attempts]
  | chat command named sent => rw [broadcastAttempts_of_no_clients hclients, record_nil]

/-- Without clients and without open sockets, a message whose handling stopped left the registry and
the streams alone. -/
theorem MessageHalt.frame_of_no_clients {message newUsername : Bytes} {client : SessionId}
    {fault : Fault} (hhalt : MessageHalt network state message newUsername client fault after)
    (hclients : state.clients = []) (hclosed : state.isOpen client = false) :
    state.toRegistry = after.toRegistry ∧ ∀ other, after.outgoing other = state.outgoing other := by
  cases hhalt with
  | notFound command none => exact ⟨rfl, outgoing_record_closed hclosed _⟩
  | register command unnamed failed =>
    rw [broadcastAttempts_of_no_clients hclients] at failed
    cases failed
  | chat command named failed =>
    rw [broadcastAttempts_of_no_clients hclients] at failed
    cases failed

end Silence

namespace Shut

variable {parse : Bytes → Option Json} {network : Network} {before state after : State}
  {event : Event}

/-- No connection can be published in a shut state. -/
theorem no_room (hshut : Shut before state) (henabled : (Event.runAccept .success).Enabled state) :
    ¬ state.clients.length < state.maxClients := by
  rw [hshut.quiet.clients]
  obtain hnone | hzero := hshut.admitsNone
  · exact absurd henabled hnone
  · rw [hzero]
    exact Nat.lt_irrefl 0

/-- The next read of a session that had one keeps the reads of later connections at zero. -/
theorem startRead (hshut : Shut before state) {client : SessionId} {result : ReadResult}
    (hready : (client, result) ∈ state.readyReads)
    (hsame : ((Event.runRead client result).prepare state).SameSessions after)
    (hattempts : after.attempts = state.attempts) : Shut before (after.startRead client) where
  quiet :=
    { clients := hsame.clients.trans hshut.quiet.clients
      reads := fun other hlater ↦
        (outstandingReads_next hready hsame other).trans (hshut.quiet.reads other hlater)
      outgoing := fun other ↦ by
        rw [← hshut.quiet.outgoing other]
        simp only [State.startRead, State.outgoing, hattempts] }
  free := hsame.held.trans hshut.free
  acceptorClosed := by
    show after.acceptorOpen = false
    rw [hsame.registry]
    exact hshut.acceptorClosed
  socketsClosed := fun other ↦ by
    show after.isOpen other = false
    rw [hsame.isOpen]
    exact hshut.socketsClosed other
  admitsNone := by
    show Registry.AdmitsNone after.toRegistry
    rw [hsame.registry]
    exact hshut.admitsNone

/-- Every completion keeps a shut state shut. -/
theorem of_effect (hshut : Shut before state) (hcompletion : event.IsCompletion)
    (henabled : event.Enabled state) (heffect : Effect parse network state event after) :
    Shut before after := by
  cases heffect with
  | start => exact hcompletion.elim
  | broadcast message excludeSocket sent => exact hcompletion.elim
  | shutdown => exact hcompletion.elim
  | acceptCompletes result =>
    have herror : result = .error := by
      cases result with
      | error => rfl
      | success =>
        have hopen := henabled.2 rfl
        rw [hshut.acceptorClosed] at hopen
        cases hopen
    refine ⟨⟨hshut.quiet.clients, hshut.quiet.reads, hshut.quiet.outgoing⟩, hshut.free,
      hshut.acceptorClosed, hshut.socketsClosed, ?_⟩
    refine hshut.admitsNone.imp_left fun hnone ↦ ?_
    simp [Event.prepare, Event.arrive, herror, hnone]
  | readCompletes client result =>
    refine ⟨⟨hshut.quiet.clients, fun other hlater ↦ ?_, hshut.quiet.outgoing⟩, hshut.free,
      hshut.acceptorClosed, hshut.socketsClosed, hshut.admitsNone⟩
    rw [outstandingReads_readCompletes state client other result henabled.1]
    exact hshut.quiet.reads other hlater
  | acceptError =>
    exact ⟨⟨hshut.quiet.clients, hshut.quiet.reads, hshut.quiet.outgoing⟩, hshut.free,
      hshut.acceptorClosed, hshut.socketsClosed,
      hshut.admitsNone.imp_left fun hnone hmember ↦ hnone (List.mem_of_mem_erase hmember)⟩
  | reject full =>
    refine ⟨⟨hshut.quiet.clients, hshut.quiet.reads, hshut.quiet.outgoing⟩, hshut.free,
      hshut.acceptorClosed, fun client ↦ ?_,
      hshut.admitsNone.imp_left fun hnone hmember ↦ hnone (List.mem_of_mem_erase hmember)⟩
    by_cases hnew : client = state.accepted <;>
      simp [State.startAccept, State.closeSocket, Event.prepare, Event.arrive, hnew,
        hshut.socketsClosed]
  | publish room known => exact absurd room (hshut.no_room henabled)
  | depart client sent =>
    have hsilent := departureAttempts_of_no_clients network hshut.quiet.clients client
    have hreads := fun other ↦ outstandingReads_runRead state client other henabled
    rw [hsilent, record_nil]
    refine ⟨⟨?_, fun other hlater ↦ ?_, hshut.quiet.outgoing⟩, hshut.free, hshut.acceptorClosed,
      fun other ↦ ?_, hshut.admitsNone⟩
    · rw [discard_clients]
      show state.clients.erase client = []
      rw [hshut.quiet.clients]
      rfl
    · have hnone := hshut.quiet.reads other hlater
      have hcount := hreads other
      rw [hnone] at hcount
      exact (Nat.add_eq_zero_iff.mp hcount).1
    · by_cases hsame : other = client <;>
        simp [Event.prepare, Event.arrive, hsame, hshut.socketsClosed]
  | blank client chunk isBlank => exact hshut.startRead henabled ⟨rfl, rfl⟩ rfl
  | message client chunk message newUsername middle notBlank fields effect =>
    have hsame := effect.sameSessions
    exact hshut.startRead henabled ⟨hsame.registry, hsame.held⟩
      (effect.attempts_of_no_clients hshut.quiet.clients)

/-- A completion whose handler did not return left a shut state quiet. -/
theorem quiet_of_halt (hshut : Shut before state) (henabled : event.Enabled state) {fault : Fault}
    (hcompletion : event.IsCompletion) (hhalt : Halt parse network state event fault after) :
    Quiet before after := by
  have htaken : ∀ client result, (client, result) ∈ state.readyReads →
      ∀ registry : Registry, registry = ((Event.runRead client result).prepare state).toRegistry →
        ∀ other, before.accepted ≤ other → registry.outstandingReads other = 0 := by
    intro client result hready registry hregistry other hlater
    have hcount := outstandingReads_runRead state client other hready
    rw [hshut.quiet.reads other hlater] at hcount
    rw [hregistry]
    exact (Nat.add_eq_zero_iff.mp hcount).1
  cases hhalt with
  | peerGone room unknown => exact absurd room (hshut.no_room henabled)
  | depart client failed =>
    rw [departureAttempts_of_no_clients _ hshut.quiet.clients] at failed
    cases failed
  | fields client chunk fault notBlank fields =>
    exact ⟨hshut.quiet.clients, htaken client _ henabled _ rfl, hshut.quiet.outgoing⟩
  | message client chunk message newUsername fault after notBlank fields halt =>
    obtain ⟨hregistry, houtgoing⟩ := halt.frame_of_no_clients hshut.quiet.clients
      (hshut.socketsClosed client)
    refine ⟨?_, htaken client _ henabled _ hregistry.symm, fun other ↦ ?_⟩
    · rw [← hregistry]
      exact hshut.quiet.clients
    · exact (houtgoing other).trans (hshut.quiet.outgoing other)
  | broadcast message excludeSocket failed => exact hcompletion.elim

/-- Completions keep a shut state shut over whole runs. -/
theorem of_run {first last : State} {events : List Event} (hshut : Shut before first)
    (hrun : Run parse network first events last) (hevents : ∀ event ∈ events, event.IsCompletion) :
    Shut before last := by
  induction hrun with
  | nil => exact hshut
  | snoc run enabled returned ih =>
    have hmiddle := ih fun event hmember ↦ hevents event (List.mem_append_left _ hmember)
    have hlast := hevents _ (List.mem_append_right _ List.mem_cons_self)
    exact hmiddle.of_effect hlast enabled (effect_of_returned hmiddle.free returned)

end Shut

/-- `shutdown` returns and shuts a state in which no connection could be published. -/
theorem shut_shutDown {state : State} (hregistry : state.WellFormed) (hfree : state.held = 0)
    (hnone : state.AdmitsNone) : Shut state state.shutDown where
  quiet := ⟨rfl, fun client hlater ↦ hregistry.fresh_reads client hlater, fun _ ↦ rfl⟩
  free := hfree
  acceptorClosed := rfl
  socketsClosed := fun client ↦ (wellFormed_shutDown hregistry).closed client List.not_mem_nil
  admitsNone := hnone

/-- The handler of a completed accept publishes its connection after a `shutdown`, unless the
capacity is zero. -/
theorem clients_of_lateAccept (parse : Bytes → Option Json) (network : Network) {state : State}
    (hfree : state.held = 0) (hclients : state.clients = []) (hroom : 0 < state.maxClients) :
    (step parse network (.runAccept .success) state).state.clients = [state.accepted] := by
  have hpublished : state.clients ++ [state.accepted] = [state.accepted] := by
    rw [hclients, List.nil_append]
  cases hstep : step parse network (.runAccept .success) state with
  | returned value after =>
    cases effect_of_returned hfree hstep with
    | reject full => simp [hclients, Nat.not_le_of_lt hroom] at full
    | publish room known => exact hpublished
  | stopped fault after =>
    cases halt_of_stopped hfree hstep with
    | peerGone room unknown => exact hpublished

/-- In every reachable state, `shutdown` is final exactly when no completed accept carries a
connection or the capacity is zero. -/
theorem shutdownIsFinal_iff {parse : Bytes → Option Json} {network : Network} {state : State}
    (hreachable : Reachable parse network state) :
    ShutdownIsFinal parse network state ↔
      .success ∉ state.readyAccepts ∨ state.maxClients = 0 := by
  have hfree := hreachable.held
  have hshutdown : step parse network .shutdown state = .returned () state.shutDown :=
    exec_shutdown 4 state (standard network) hfree
  constructor
  · intro hfinal
    by_contra hadmits
    obtain ⟨hready, hpositive⟩ := not_or.mp hadmits
    rw [Decidable.not_not] at hready
    obtain ⟨-, hstopped⟩ := hfinal _ hshutdown [] _ (.nil _) nofun
    have hfreeAfter : state.shutDown.held = 0 := hfree
    have hpublished := clients_of_lateAccept parse network hfreeAfter rfl
      (Nat.pos_of_ne_zero hpositive)
    have hcompletion : (Event.runAccept .success).IsCompletion := trivial
    have henabled : (Event.runAccept .success).Enabled state.shutDown := hready
    cases hstep : step parse network (.runAccept .success) state.shutDown with
    | returned value after =>
      have hrun := (Run.nil state.shutDown).snoc henabled hstep
      have hquiet := (hfinal _ hshutdown _ _ hrun (by simpa using hcompletion)).1
      rw [hstep, Outcome.state_returned, hquiet.clients] at hpublished
      cases hpublished
    | stopped fault after =>
      have hquiet := hstopped _ fault after hcompletion henabled hstep
      rw [hstep, Outcome.state_stopped, hquiet.clients] at hpublished
      cases hpublished
  · intro hnone shut hreturned events later hrun hevents
    rw [hshutdown] at hreturned
    cases hreturned
    have hshut := (shut_shutDown hreachable.wellFormed hfree hnone).of_run hrun hevents
    refine ⟨hshut.quiet, ?_⟩
    intro event fault last hcompletion henabled hstopped
    exact hshut.quiet_of_halt henabled hcompletion (halt_of_stopped hshut.free hstopped)

/-- `shutdown` is final when the next accept has not completed. -/
theorem shutdownIsFinal_after_accept :
    ∃ state, Reachable (fun _ ↦ none) reliable state ∧ state.clients = [0] ∧
      ShutdownIsFinal (fun _ ↦ none) reliable state := by
  have hsome : (play (fun _ ↦ none) reliable
      [.start, .acceptCompletes .success, .runAccept .success] (initial 10)).isSome = true := by
    decide
  have hreachable := reachable_of_play (Option.some_get hsome).symm
  refine ⟨_, hreachable, rfl, (shutdownIsFinal_iff hreachable).mpr (Or.inl ?_)⟩
  exact show AcceptResult.success ∉ [] from List.not_mem_nil

/-- A connection that was accepted before `shutdown` is published after it. -/
theorem not_shutdownIsFinal_of_lateAccept :
    ∃ state, Reachable (fun _ ↦ none) reliable state ∧ state.readyAccepts = [.success] ∧
      ¬ ShutdownIsFinal (fun _ ↦ none) reliable state := by
  have hsome : (play (fun _ ↦ none) reliable [.start, .acceptCompletes .success]
      (initial 10)).isSome = true := by
    decide
  refine ⟨_, reachable_of_play (Option.some_get hsome).symm, rfl, ?_⟩
  intro hfinal
  have hquiet := (hfinal _ rfl [.runAccept .success] _ (play_eq_run (.nil _) rfl)
    (by simp [Event.IsCompletion])).1
  cases hquiet.clients

end KoboldKhat.Server
