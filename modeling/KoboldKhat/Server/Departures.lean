import KoboldKhat.Server.FailedWrites
import KoboldKhat.Server.Reports

/-!
# How often a departure is announced

`removeClient` announces the departure of every session with a name it is called for, and it is
called from two places: by a broadcast for a session whose write failed, and by the read handler for
one whose read failed. It looks neither at `m_clients` nor at the socket first. A session that a
failed write has removed still has its read in flight, which the closing of its socket aborts, so
the read handler announces its departure again; and if the read had completed with a message before,
the handler relays that message after the departure.

At most one session's writes fail here, and removals complete as in `Removal`. Then every departure
is announced at most once and nothing is relayed after it, in every run in which no read handler
announces or relays anything for a session that a failed write has removed (`departures_final`).
-/

set_option autoImplicit false
set_option relaxedAutoImplicit false

namespace KoboldKhat.Server

open Library

/-! ### Departures -/

/-- A failed write has removed the session while it had a name. -/
def Lost (deeds : List Deed) (client : SessionId) : Prop :=
  ∃ deed ∈ deeds, deed.moment.action = .call (.removeClient client) ∧
    deed.moment.callers ≠ [] ∧ deed.moment.state.username client ≠ []

/-- What comes after the announcement of a departure is neither its announcement nor a relay for its
session. -/
def FinalBefore (earlier later : Purpose) : Prop :=
  ∀ client, earlier = .departed client → later ≠ .departed client ∧ later ≠ .relayed client

/-- The departure of every session is announced at most once, and no message of the session is
relayed after it. -/
def DeparturesFinal (deeds : List Deed) : Prop :=
  ((broadcasts deeds).map Prod.fst).Pairwise FinalBefore

/-- The event makes the read handler of a session announce its departure or relay a message. -/
def Event.SpeaksFor (parse : Bytes → Option Json) (event : Event) (client : SessionId) : Prop :=
  event = .runRead client .error ∨ ∃ message newUsername,
    event.Brings parse client message newUsername ∧ dmCommand.isPrefixOf message = false

section Reports

variable {deeds : List Deed} {client : SessionId}

/-- A session is lost exactly when that is reported. -/
theorem lost_iff : Lost deeds client ↔ .loss client ∈ reports deeds := by
  rw [reports, List.mem_filterMap, Lost]
  refine exists_congr fun deed ↦ and_congr_right fun _ ↦ ?_
  rw [Deed.report]
  cases deed.moment.action with
  | perform operation => simp
  | call procedure =>
    cases procedure with
    | broadcastMessage message excludeSocket =>
      cases hpurpose : purposeOf deed.event deed.moment.callers excludeSocket <;> simp [hpurpose]
    | removeClient other =>
      by_cases hsame : other = client
      · rw [hsame]
        simp
      · simp [hsame]

end Reports

/-! ### One event -/

/-- What the reports of one event may say about departures. -/
structure Sayable (parse : Bytes → Option Json) (event : Event) (state : State)
    (said : List Report) : Prop where
  final : (said.filterMap Report.purpose).Pairwise FinalBefore
  departed : ∀ client, .broadcast (.departed client) ∈ said →
    client ∈ state.clients ∨ event.SpeaksFor parse client
  relayed : ∀ client, .broadcast (.relayed client) ∈ said → event.SpeaksFor parse client

/-- What an event that returned leaves: sessions accepted before have not come back, have kept their
names and have no more reads than before, and those whose departure was announced are out of
`m_clients`, and have no read unless a failed write removed them. -/
structure Leaves (said : List Report) (before after : State) : Prop where
  accepted : before.accepted ≤ after.accepted
  clients : ∀ client < before.accepted, client ∈ after.clients → client ∈ before.clients
  username : ∀ client, before.username client ≠ [] →
    after.username client = before.username client
  reads : ∀ client < before.accepted,
    after.outstandingReads client ≤ before.outstandingReads client
  departed : ∀ client, .broadcast (.departed client) ∈ said → client < before.accepted ∧
    client ∉ after.clients ∧ after.username client ≠ [] ∧
      (after.outstandingReads client = 0 ∨ .loss client ∈ said)

section OneEvent

variable {parse : Bytes → Option Json} {network : Network} {depth : ℕ} {event : Event}
  {lost : SessionId} {state base after : State} {said : List Report}
  {excludeSocket : Option SessionId}

theorem sayable_nil (parse : Bytes → Option Json) (event : Event) (state : State) :
    Sayable parse event state [] :=
  ⟨.nil, nofun, nofun⟩

/-- Without reports an event leaves what it does not touch. -/
theorem leaves_nil (haccepted : state.accepted ≤ after.accepted)
    (hclients : ∀ client < state.accepted, client ∈ after.clients → client ∈ state.clients)
    (husername : after.username = state.username)
    (hreads : ∀ client < state.accepted,
      after.outstandingReads client ≤ state.outstandingReads client) :
    Leaves [] state after :=
  ⟨haccepted, hclients, fun client _ ↦ congrFun husername client, hreads, nofun⟩

/-- An event that makes no broadcast and removes no session leaves sessions as they are, or removes
them. -/
theorem Effect.leaves (heffect : Effect parse network state event after) (hplain : event.Plain)
    (henabled : event.Enabled state) : Leaves [] state after := by
  cases heffect with
  | readCompletes client result =>
    exact leaves_nil (Nat.le_refl _) (fun _ _ hmember ↦ hmember) rfl fun other _ ↦
      Nat.le_of_eq (outstandingReads_readCompletes state client other result henabled.1)
  | reject full =>
    exact leaves_nil (Nat.le_succ _) (fun _ _ hmember ↦ hmember) rfl fun _ _ ↦ Nat.le_refl _
  | publish room known =>
    refine leaves_nil (Nat.le_succ _) ?_ rfl ?_
    · intro client hlt hmember
      rcases List.mem_append.mp hmember with hold | hnew
      · exact hold
      · exact absurd (List.mem_singleton.mp hnew) (Nat.ne_of_lt hlt)
    · intro client hlt
      have hreads := outstandingReads_startRead
        (((Event.runAccept .success).prepare state).publish state.accepted) state.accepted client
      rw [if_neg (Nat.ne_of_lt hlt)] at hreads
      exact Nat.le_of_eq hreads
  | shutdown =>
    exact leaves_nil (Nat.le_refl _) nofun rfl fun _ _ ↦ Nat.le_refl _
  | depart client sent => exact hplain.elim
  | blank client chunk isBlank => exact hplain.elim
  | message client chunk message newUsername middle notBlank fields effect => exact hplain.elim
  | broadcast message excludeSocket sent => exact hplain.elim
  | _ => exact leaves_nil (Nat.le_refl _) (fun _ _ hmember ↦ hmember) rfl fun _ _ ↦ Nat.le_refl _

/-- What a broadcast adds: nothing, or the loss of a session and its departure. -/
theorem Losing.said_cases (hlosing : Losing lost excludeSocket base said after) :
    (∃ removed, after.toRegistry = base.toRegistry.without removed) ∧
      (said = [] ∨ said = [.loss lost, .broadcast (.departed lost)] ∧ lost ∈ base.clients ∧
        excludeSocket ≠ some lost ∧ base.username lost ≠ [] ∧ lost ∉ after.clients) := by
  cases hlosing with
  | nobody registry held => exact ⟨⟨[], registry.trans (without_nil _).symm⟩, Or.inl rfl⟩
  | lost member included registry held =>
    refine ⟨⟨[lost], registry⟩, ?_⟩
    rw [State.losses]
    split_ifs with hunnamed
    · exact Or.inl rfl
    · refine Or.inr ⟨rfl, member, included, hunnamed, ?_⟩
      rw [registry]
      exact (gone_without_of_mem List.mem_cons_self).1

/-- A broadcast may be reported by an event that speaks for the session it is about, if it excludes
that session. -/
theorem Losing.sayable (hlosing : Losing lost excludeSocket base said after)
    (hclients : base.clients = state.clients) (purpose : Purpose)
    (hdeparted : ∀ client, purpose = .departed client →
      event.SpeaksFor parse client ∧ excludeSocket = some client)
    (hrelayed : ∀ client, purpose = .relayed client → event.SpeaksFor parse client) :
    Sayable parse event state (.broadcast purpose :: said) := by
  obtain ⟨-, rfl | ⟨rfl, hmember, hincluded, -, -⟩⟩ := hlosing.said_cases
  · refine ⟨List.pairwise_singleton _ _, ?_, ?_⟩
    · intro client hsaid
      exact Or.inr (hdeparted client (Report.broadcast.inj (List.mem_singleton.mp hsaid)).symm).1
    · intro client hsaid
      exact hrelayed client (Report.broadcast.inj (List.mem_singleton.mp hsaid)).symm
  · refine ⟨?_, ?_, ?_⟩
    · show [purpose, Purpose.departed lost].Pairwise FinalBefore
      rw [List.pairwise_pair]
      intro client hpurpose
      refine ⟨?_, nofun⟩
      intro hsame
      rw [Purpose.departed.inj hsame] at hincluded
      exact hincluded (hdeparted client hpurpose).2
    · intro client hsaid
      simp only [List.mem_cons, Report.broadcast.injEq, reduceCtorEq, Purpose.departed.injEq,
        List.not_mem_nil, or_false, false_or] at hsaid
      rcases hsaid with hpurpose | rfl
      · exact Or.inr (hdeparted client hpurpose.symm).1
      · exact Or.inl (hclients ▸ hmember)
    · intro client hsaid
      simp only [List.mem_cons, Report.broadcast.injEq, reduceCtorEq, List.not_mem_nil,
        or_false] at hsaid
      exact hrelayed client hsaid.symm

/-- A broadcast leaves the loss of at most one session, if what follows it leaves the sessions
alone. -/
theorem Losing.leaves (hregistry : state.WellFormed)
    (hlosing : Losing lost excludeSocket base said after) (hclients : base.clients = state.clients)
    (hnames : ∀ other, state.username other ≠ [] → base.username other = state.username other)
    {final : State} (haccepted : final.accepted = state.accepted)
    (hmembers : final.clients = after.clients) (husername : final.username = after.username)
    (hreads : ∀ other, final.outstandingReads other = state.outstandingReads other)
    {purpose : Purpose} (hpurpose : ∀ other, purpose ≠ .departed other) :
    Leaves (.broadcast purpose :: said) state final := by
  obtain ⟨⟨removed, hafter⟩, hsaid⟩ := hlosing.said_cases
  have hbase : final.username = base.username :=
    husername.trans (congrArg Registry.username hafter :)
  refine ⟨Nat.le_of_eq haccepted.symm, ?_, ?_, fun other _ ↦ Nat.le_of_eq (hreads other), ?_⟩
  · intro other _ hmember
    rw [hmembers, hafter] at hmember
    exact hclients ▸ (mem_clients_without.mp hmember).1
  · intro other hnamed
    exact (congrFun hbase other).trans (hnames other hnamed)
  · intro other hdeparted
    rcases List.mem_cons.mp hdeparted with hfirst | hlater
    · exact absurd (Report.broadcast.inj hfirst).symm (hpurpose other)
    · rcases hsaid with rfl | ⟨rfl, hmember, -, hnamed, hgone⟩
      · cases hlater
      · obtain rfl : other = lost := by simpa using hlater
        exact ⟨hregistry.member_lt other (hclients ▸ hmember), hmembers ▸ hgone,
          (congrFun hbase other).trans_ne hnamed, Or.inr (by simp)⟩

/-- A message that is broadcast leaves the loss of at most one session and the next read. -/
theorem Losing.leaves_message (hregistry : state.WellFormed) {client : SessionId}
    {result : ReadResult} (hready : (client, result) ∈ state.readyReads)
    (hsame : ((Event.runRead client result).prepare state).SameSessions base)
    (hnames : ∀ other, state.username other ≠ [] → base.username other = state.username other)
    (hlosing : Losing lost excludeSocket base said after) {purpose : Purpose}
    (hpurpose : ∀ other, purpose ≠ .departed other) :
    Leaves (.broadcast purpose :: said) state (after.startRead client) := by
  obtain ⟨⟨removed, hafter⟩, -⟩ := hlosing.said_cases
  have haccepted : (after.startRead client).accepted = state.accepted :=
    (congrArg Registry.accepted hafter).trans hsame.accepted
  refine hlosing.leaves hregistry hsame.clients hnames haccepted rfl rfl ?_ hpurpose
  intro other
  rw [← outstandingReads_next hready hsame other]
  show Registry.outstandingReads
    { after.toRegistry with waitingReads := after.waitingReads ++ [client] } other = _
  rw [hafter]
  rfl

/-- A session whose read failed is gone without a read, and at most one other with it. -/
theorem Losing.leaves_depart (hregistry : state.WellFormed) {client : SessionId}
    (hready : (client, .error) ∈ state.readyReads) (hnamed : state.username client ≠ [])
    (hlosing : Losing lost excludeSocket ((Event.runRead client .error).prepare state) said
      after) :
    Leaves (.broadcast (.departed client) :: said) state (after.discard client) := by
  obtain ⟨⟨removed, hafter⟩, hsaid⟩ := hlosing.said_cases
  have husername : after.username = state.username := (congrArg Registry.username hafter :)
  have haccepted : after.accepted = state.accepted := (congrArg Registry.accepted hafter :)
  have hnodup : after.clients.Nodup := by
    rw [hafter]
    exact hregistry.nodup.filter _
  have hfinal : (after.discard client).toRegistry =
      ((Event.runRead client .error).prepare state).without (removed ++ [client]) := by
    rw [discard_eq_without hnodup, hafter, without_without]
  have hreads : ∀ other, (after.discard client).outstandingReads other +
      (if other = client then 1 else 0) = state.outstandingReads other := by
    intro other
    rw [hfinal]
    exact outstandingReads_runRead state client other hready
  refine ⟨Nat.le_of_eq haccepted.symm, ?_, fun other _ ↦ congrFun husername other, ?_, ?_⟩
  · intro other _ hmember
    rw [hfinal] at hmember
    exact (mem_clients_without.mp hmember).1
  · intro other _
    exact Nat.le.intro (hreads other)
  · intro other hdeparted
    rcases List.mem_cons.mp hdeparted with hfirst | hlater
    · obtain rfl := Purpose.departed.inj (Report.broadcast.inj hfirst)
      refine ⟨lt_accepted_of_ready hregistry hready, ?_, (congrFun husername other).trans_ne hnamed,
        Or.inl ?_⟩
      · rw [hfinal]
        exact (gone_without_of_mem (List.mem_append_right _ List.mem_cons_self)).1
      · have hcount := hreads other
        have hle := hregistry.reads_le other
        rw [if_pos rfl] at hcount
        omega
    · rcases hsaid with rfl | ⟨rfl, hmember, -, hnamedLost, hgone⟩
      · cases hlater
      · obtain rfl : other = lost := by simpa using hlater
        refine ⟨hregistry.member_lt other hmember, ?_,
          (congrFun husername other).trans_ne hnamedLost, Or.inr (by simp)⟩
        exact fun hstill ↦ hgone (List.mem_of_mem_erase hstill)

/-- The reports of an event are sayable, and if it returns it leaves what they say. -/
def Reported (parse : Bytes → Option Json) (network : Network) (depth : ℕ) (event : Event)
    (state : State) : Prop :=
  ∃ said, reports (deedsAt (completing network) depth parse event state) = said ∧
    Sayable parse event state said ∧
    (stepAt (completing network) depth parse event state).Satisfies
      (fun _ after ↦ Leaves said state after) (fun _ _ ↦ True)

theorem reported_of_says
    (hspoken : Says (completing network) depth event [] (event.program parse state.toRegistry)
      (event.prepare state) () said after) (hsayable : Sayable parse event state said)
    (hleaves : Leaves said state after) : Reported parse network depth event state := by
  refine ⟨said, hspoken.2, hsayable, ?_⟩
  rw [stepAt, hspoken.1]
  exact hleaves

theorem reported_of_callless (hcallless : Callless (event.program parse state.toRegistry))
    (hleaves : (stepAt (completing network) depth parse event state).Satisfies
      (fun _ after ↦ Leaves [] state after) (fun _ _ ↦ True)) :
    Reported parse network depth event state :=
  ⟨[], reports_of_callless hcallless _ depth event [] _, sayable_nil parse event state, hleaves⟩

/-- A read that is followed by the next one leaves the registry as it is. -/
theorem leaves_startRead {client : SessionId} {result : ReadResult}
    (hready : (client, result) ∈ state.readyReads)
    (hsame : ((Event.runRead client result).prepare state).SameSessions after)
    (husername : after.username = state.username) : Leaves [] state (after.startRead client) :=
  leaves_nil (Nat.le_of_eq hsame.accepted.symm) (fun _ _ hmember ↦ hsame.clients ▸ hmember)
    husername fun other _ ↦ Nat.le_of_eq (outstandingReads_next hready hsame other)

section Reading

variable {client : SessionId} {chunk message newUsername : Bytes}

/-- A message that brings a session its name is reported. -/
theorem reported_introduction (hfails : network.FailsOnly lost) (hregistry : state.WellFormed)
    (hready : (client, .data chunk) ∈ state.readyReads)
    (hbrings : (Event.runRead client (.data chunk)).Brings parse client message newUsername)
    (hcommand : dmCommand.isPrefixOf message = false) (hunnamed : state.username client = []) :
    Reported parse network (depth + 3) (.runRead client (.data chunk)) state := by
  have hopen : ((state.handling parse client chunk).rename client newUsername).AllOpen :=
    ⟨hregistry.nodup, hregistry.member_open⟩
  obtain ⟨said, after, hspoken, hlosing⟩ := @says_callBroadcastMessage_losing network depth lost _
    hfails hopen (.runRead client (.data chunk)) [] (joinedLine newUsername) none
  have hstored : (state.handling parse client chunk).username client = [] := hunnamed
  have hchat : Says (completing network) (depth + 3) (.runRead client (.data chunk)) []
      (handleChatMessage message newUsername client) (state.handling parse client chunk) ()
      (.broadcast (.joined client) :: said) after :=
    says_handleChatMessage_of_unnamed hstored hspoken
  have hclients : ((state.handling parse client chunk).rename client newUsername).clients =
      state.clients := rfl
  have hsame : ((Event.runRead client (.data chunk)).prepare state).SameSessions
      ((state.handling parse client chunk).rename client newUsername) := ⟨rfl, rfl⟩
  refine reported_of_says (says_readHandler hbrings hcommand hchat)
    (hlosing.sayable hclients (.joined client) nofun nofun)
    (hlosing.leaves_message hregistry hready hsame ?_ nofun)
  intro other hnamed
  have hne : other ≠ client := by
    rintro rfl
    exact hnamed hunnamed
  exact Function.update_of_ne hne newUsername state.username

/-- A message that is relayed is reported. -/
theorem reported_relay (hfails : network.FailsOnly lost) (hregistry : state.WellFormed)
    (hready : (client, .data chunk) ∈ state.readyReads)
    (hbrings : (Event.runRead client (.data chunk)).Brings parse client message newUsername)
    (hcommand : dmCommand.isPrefixOf message = false) (hnamed : state.username client ≠ []) :
    Reported parse network (depth + 3) (.runRead client (.data chunk)) state := by
  have hopen : (state.handling parse client chunk).AllOpen :=
    ⟨hregistry.nodup, hregistry.member_open⟩
  obtain ⟨said, after, hspoken, hlosing⟩ := @says_callBroadcastMessage_losing network depth lost _
    hfails hopen (.runRead client (.data chunk)) []
    (chatLine (state.username client) message) (some client)
  have hstored : (state.handling parse client chunk).username client ≠ [] := hnamed
  have hchat : Says (completing network) (depth + 3) (.runRead client (.data chunk)) []
      (handleChatMessage message newUsername client) (state.handling parse client chunk) ()
      (.broadcast (.relayed client) :: said) after :=
    says_handleChatMessage_of_named hstored hspoken
  have hclients : (state.handling parse client chunk).clients = state.clients := rfl
  have hsame : ((Event.runRead client (.data chunk)).prepare state).SameSessions
      (state.handling parse client chunk) := ⟨rfl, rfl⟩
  refine reported_of_says (says_readHandler hbrings hcommand hchat)
    (hlosing.sayable hclients (.relayed client) nofun ?_)
    (hlosing.leaves_message hregistry hready hsame (fun _ _ ↦ rfl) nofun)
  intro other hother
  rw [← Purpose.relayed.inj hother]
  exact Or.inr ⟨message, newUsername, hbrings, hcommand⟩

/-- Every other chunk makes no calls. -/
theorem reported_silent (hready : (client, .data chunk) ∈ state.readyReads)
    (hdirect : ∀ message newUsername,
      (Event.runRead client (.data chunk)).Brings parse client message newUsername →
        dmCommand.isPrefixOf message = true) :
    Reported parse network depth (.runRead client (.data chunk)) state := by
  refine reported_of_callless (callless_readHandler hdirect) ?_
  by_cases hblank : IsBlankChunk chunk
  · rw [stepAt_blank _ depth hblank]
    exact leaves_startRead hready ⟨rfl, rfl⟩ rfl
  cases hfields : messageFields (parsedMessage parse chunk) with
  | error fault =>
    rw [stepAt_unreadable _ depth hblank hfields]
    trivial
  | ok fields =>
    obtain ⟨message, newUsername⟩ := fields
    have hbrings : (Event.runRead client (.data chunk)).Brings parse client message newUsername :=
      ⟨chunk, rfl, hblank, hfields⟩
    have hlock : (completing network).CanLock (state.handling parse client chunk) :=
      canLock_reentrant .safe network _
    rw [stepAt_message _ depth hbrings, if_pos (hdirect message newUsername hbrings)]
    refine Outcome.satisfies_bind (handleDirectMessage_records _ depth hlock message client) ?_
    rintro - after ⟨attempt, rfl⟩
    have hsame : ((Event.runRead client (.data chunk)).prepare state).SameSessions
        ((state.handling parse client chunk).record [attempt]) := ⟨rfl, rfl⟩
    exact leaves_startRead hready hsame rfl

end Reading

/-- A read that failed is reported. -/
theorem reported_depart (hfails : network.FailsOnly lost) (hregistry : state.WellFormed)
    {client : SessionId} (hready : (client, .error) ∈ state.readyReads) :
    Reported parse network (depth + 4) (.runRead client .error) state := by
  have hopen : ((Event.runRead client .error).prepare state).AllOpen :=
    ⟨hregistry.nodup, hregistry.member_open⟩
  by_cases hunnamed : state.username client = []
  · have hremove := @says_callRemoveClient_of_unnamed (completing network) (depth + 3)
      (.runRead client .error) [] client ((Event.runRead client .error).prepare state)
      (canLock_reentrant .safe network _) hunnamed
    refine reported_of_says hremove (sayable_nil _ _ _) ?_
    refine leaves_nil (Nat.le_refl _) (fun _ _ hmember ↦ List.mem_of_mem_erase hmember) rfl ?_
    intro other _
    exact Nat.le.intro (outstandingReads_runRead state client other hready)
  · obtain ⟨said, middle, hspoken, hlosing⟩ := @says_callBroadcastMessage_losing network depth
      lost _ hfails hopen (.runRead client .error) [.removeClient client]
      (disconnectedLine (state.username client)) (some client)
    have hnamed : ((Event.runRead client .error).prepare state).username client ≠ [] := hunnamed
    have hremove := says_callRemoveClient_of_named hnamed hspoken
      (canLock_reentrant .safe network _)
    have hclients : ((Event.runRead client .error).prepare state).clients = state.clients := rfl
    refine reported_of_says hremove (hlosing.sayable hclients (.departed client) ?_ nofun)
      (hlosing.leaves_depart hregistry hready hunnamed)
    intro other hother
    rw [← Purpose.departed.inj hother]
    exact ⟨Or.inl rfl, rfl⟩

/-- Every event is reported. -/
theorem reported (hfails : network.FailsOnly lost) (hregistry : state.WellFormed)
    (hfree : state.held = 0) (henabled : event.Enabled state) :
    Reported parse network (depth + 4) event state := by
  have hcallless : event.Plain → Reported parse network (depth + 4) event state := by
    intro hplain
    refine reported_of_callless (callless_program parse _ hplain) ?_
    rw [stepAt_plain _ hfree hplain]
    exact (step_effect_or_halt parse network state hfree event).mono
      (fun _ _ heffect ↦ heffect.leaves hplain henabled) fun _ _ _ ↦ trivial
  cases event with
  | broadcast message excludeSocket =>
    have hopen : ((Event.broadcast message excludeSocket).prepare state).AllOpen :=
      ⟨hregistry.nodup, hregistry.member_open⟩
    obtain ⟨said, after, hspoken, hlosing⟩ := @says_callBroadcastMessage_losing network (depth + 1)
      lost _ hfails hopen (.broadcast message excludeSocket) [] message excludeSocket
    have hclients : ((Event.broadcast message excludeSocket).prepare state).clients =
      state.clients := rfl
    obtain ⟨⟨removed, hafter⟩, -⟩ := hlosing.said_cases
    refine reported_of_says hspoken (hlosing.sayable hclients .external nofun nofun)
      (hlosing.leaves hregistry hclients (fun _ _ ↦ rfl)
        (congrArg Registry.accepted hafter :) rfl rfl (fun other ↦ ?_) nofun)
    rw [hafter]
    rfl
  | runRead client result =>
    cases result with
    | error => exact reported_depart hfails hregistry henabled
    | data chunk =>
      by_cases hchat : ∃ message newUsername,
          (Event.runRead client (.data chunk)).Brings parse client message newUsername ∧
            dmCommand.isPrefixOf message = false
      · obtain ⟨message, newUsername, hbrings, hcommand⟩ := hchat
        by_cases hunnamed : state.username client = []
        · exact reported_introduction hfails hregistry henabled hbrings hcommand hunnamed
        · exact reported_relay hfails hregistry henabled hbrings hcommand hunnamed
      · refine reported_silent henabled fun message newUsername hbrings ↦ ?_
        by_contra hcommand
        exact hchat ⟨message, newUsername, hbrings, Bool.eq_false_iff.mpr hcommand⟩
  | _ => exact hcallless trivial

end OneEvent

/-! ### Runs -/

/-- The read handlers announce and relay nothing for a session that a failed write has removed. -/
def Heeds (parse : Bytes → Option Json) (deeds : List Deed) (event : Event) : Prop :=
  ∀ client, event.SpeaksFor parse client → ¬ Lost deeds client

/-- A run with its deeds, all of whose events heed the sessions that were lost before. -/
inductive HeedfulRun (setting : Setting) (depth : ℕ) (parse : Bytes → Option Json)
    (first : State) : List Event → List Deed → State → Prop
  | nil : HeedfulRun setting depth parse first [] [] first
  | snoc {middle last : State} {events : List Event} {deeds : List Deed} {event : Event}
      (run : HeedfulRun setting depth parse first events deeds middle)
      (enabled : event.Enabled middle) (heeds : Heeds parse deeds event)
      (returned : stepAt setting depth parse event middle = .returned () last) :
      HeedfulRun setting depth parse first (events ++ [event])
        (deeds ++ deedsAt setting depth parse event middle) last

/-- A run with its deeds, all of whose events heed the sessions that were lost before, and the last
of which may have stopped. -/
inductive HeedfulEnds (setting : Setting) (depth : ℕ) (parse : Bytes → Option Json)
    (first : State) : List Event → List Deed → Prop
  | returned {last : State} {events : List Event} {deeds : List Deed}
      (run : HeedfulRun setting depth parse first events deeds last) :
      HeedfulEnds setting depth parse first events deeds
  | last {middle : State} {events : List Event} {deeds : List Deed} {event : Event}
      (run : HeedfulRun setting depth parse first events deeds middle)
      (enabled : event.Enabled middle) (heeds : Heeds parse deeds event) :
      HeedfulEnds setting depth parse first (events ++ [event])
        (deeds ++ deedsAt setting depth parse event middle)

/-- What is known of the departures announced so far. -/
structure Accounts (deeds : List Deed) (state : State) : Prop where
  final : DeparturesFinal deeds
  departed : ∀ client, .broadcast (.departed client) ∈ reports deeds → client < state.accepted ∧
    client ∉ state.clients ∧ state.username client ≠ [] ∧
      (state.outstandingReads client = 0 ∨ Lost deeds client)

section Runs

variable {parse : Bytes → Option Json} {network : Network} {depth maxClients : ℕ}
  {lost : SessionId} {first state after : State} {events : List Event} {deeds : List Deed}
  {event : Event} {client : SessionId}

/-- A heedful run is a run. -/
theorem HeedfulRun.traced {setting : Setting}
    (hrun : HeedfulRun setting depth parse first events deeds state) :
    Traced setting depth parse first events deeds state := by
  induction hrun with
  | nil => exact .nil _
  | snoc run enabled heeds returned ih => exact ih.snoc enabled returned

/-- A session for which an event speaks has a read. -/
theorem outstandingReads_of_speaksFor (henabled : event.Enabled state)
    (hspeaks : event.SpeaksFor parse client) : state.outstandingReads client ≠ 0 := by
  have hready : ∃ result, (client, result) ∈ state.readyReads := by
    rcases hspeaks with rfl | ⟨message, newUsername, ⟨chunk, rfl, -⟩, -⟩
    · exact ⟨_, henabled⟩
    · exact ⟨_, henabled⟩
  obtain ⟨result, hmember⟩ := hready
  have hreads := outstandingReads_runRead state client client hmember
  rw [if_pos rfl] at hreads
  omega

/-- An event that heeds the sessions lost before speaks for none whose departure was announced. -/
theorem Accounts.step (haccounts : Accounts deeds state) (henabled : event.Enabled state)
    (hheeds : Heeds parse deeds event)
    (hreported : Reported parse network depth event state) :
    DeparturesFinal (deeds ++ deedsAt (completing network) depth parse event state) ∧
      (stepAt (completing network) depth parse event state).Satisfies
        (fun _ after ↦
          Accounts (deeds ++ deedsAt (completing network) depth parse event state) after)
        (fun _ _ ↦ True) := by
  obtain ⟨said, hsaid, hsayable, hleaves⟩ := hreported
  have hsilent : ∀ other, .broadcast (.departed other) ∈ reports deeds →
      ¬ event.SpeaksFor parse other := by
    intro other hdeparted hspeaks
    obtain ⟨-, -, -, hnone | hlost⟩ := haccounts.departed other hdeparted
    · exact outstandingReads_of_speaksFor henabled hspeaks hnone
    · exact hheeds other hspeaks hlost
  have hfinal : DeparturesFinal
      (deeds ++ deedsAt (completing network) depth parse event state) := by
    have hbefore := haccounts.final
    rw [DeparturesFinal, purposes_eq] at hbefore ⊢
    rw [reports_append, hsaid, List.filterMap_append, List.pairwise_append]
    refine ⟨hbefore, hsayable.final, ?_⟩
    rintro earlier hearlier later hlater other rfl
    have hdeparted := mem_purposes.mp hearlier
    constructor
    · rintro rfl
      rcases hsayable.departed other (mem_purposes.mp hlater) with hmember | hspeaks
      · exact (haccounts.departed other hdeparted).2.1 hmember
      · exact hsilent other hdeparted hspeaks
    · rintro rfl
      exact hsilent other hdeparted (hsayable.relayed other (mem_purposes.mp hlater))
  refine ⟨hfinal, hleaves.mono (fun _ after hleft ↦ ⟨hfinal, ?_⟩) fun _ _ _ ↦ trivial⟩
  intro other hdeparted
  rw [reports_append, hsaid, List.mem_append] at hdeparted
  rcases hdeparted with hold | hnew
  · obtain ⟨haccepted, hgone, hnamed, hreads⟩ := haccounts.departed other hold
    refine ⟨Nat.lt_of_lt_of_le haccepted hleft.accepted,
      fun hmember ↦ hgone (hleft.clients other haccepted hmember),
      (hleft.username other hnamed).trans_ne hnamed, ?_⟩
    rcases hreads with hnone | hlost
    · exact Or.inl (Nat.le_zero.mp (hnone ▸ hleft.reads other haccepted))
    · refine Or.inr (lost_iff.mpr ?_)
      rw [reports_append]
      exact List.mem_append_left _ (lost_iff.mp hlost)
  · obtain ⟨haccepted, hgone, hnamed, hreads⟩ := hleft.departed other hnew
    refine ⟨Nat.lt_of_lt_of_le haccepted hleft.accepted, hgone, hnamed, hreads.imp_right ?_⟩
    intro hlost
    rw [lost_iff, reports_append, hsaid]
    exact List.mem_append_right _ hlost

/-- In every heedful run of a server only one of whose sessions cannot be written to, the account of
the departures holds. -/
theorem HeedfulRun.accounts (hfails : network.FailsOnly lost)
    (hrun : HeedfulRun (completing network) (depth + 4) parse (initial maxClients) events deeds
      state) : Accounts deeds state := by
  induction hrun with
  | nil => exact ⟨.nil, nofun⟩
  | snoc run enabled heeds returned ih =>
    obtain ⟨hregistry, hfree⟩ := run.traced.wellFormed (wellFormed_initial maxClients) rfl
    obtain ⟨-, hafter⟩ := ih.step enabled heeds (reported hfails hregistry hfree enabled)
    rw [returned] at hafter
    exact hafter

end Runs

/-- In every run in which the writes of at most one session fail, the departure of every session is
announced at most once and no message of it is relayed after that, if no read handler announces or
relays anything for a session that a failed write has removed. -/
theorem departures_final {parse : Bytes → Option Json} {network : Network}
    {depth maxClients : ℕ} {lost : SessionId} {events : List Event} {deeds : List Deed}
    (hfails : network.FailsOnly lost)
    (hends : HeedfulEnds (completing network) (depth + 4) parse (initial maxClients) events
      deeds) : DeparturesFinal deeds := by
  cases hends with
  | returned run => exact (run.accounts hfails).final
  | last run enabled heeds =>
    obtain ⟨hregistry, hfree⟩ := run.traced.wellFormed (wellFormed_initial maxClients) rfl
    exact ((run.accounts hfails).step enabled heeds
      (reported hfails hregistry hfree enabled)).1

/-- A run in which nobody was lost is heedful. -/
theorem HeedfulRun.of_traced {setting : Setting} {depth : ℕ} {parse : Bytes → Option Json}
    {first state : State} {events : List Event} {deeds : List Deed}
    (hrun : Traced setting depth parse first events deeds state)
    (hnone : ∀ client, .loss client ∉ reports deeds) :
    HeedfulRun setting depth parse first events deeds state := by
  induction hrun with
  | nil => exact .nil
  | snoc run enabled returned ih =>
    simp only [reports_append, List.mem_append, not_or] at hnone
    exact (ih fun client ↦ (hnone client).1).snoc enabled
      (fun client _ hlost ↦ (hnone client).1 (lost_iff.mp hlost)) returned

theorem lateCut_failsOnly : lateCut.FailsOnly 1 :=
  fun _ _ hne ↦ if_neg fun hboth ↦ hne hboth.2

/-- A chat that cannot be relayed to the other user announces that user's departure. -/
theorem departures_final_of_chat :
    ∃ deeds, HeedfulEnds (completing lateCut) 4 rumours (initial 10)
        (aboutToSay [6] ++ [.runRead 0 (.data [6])]) deeds ∧
      (broadcasts deeds).map Prod.fst = [.joined 0, .joined 1, .relayed 0, .departed 1] ∧
      DeparturesFinal deeds := by
  have hsome : (playAt (completing lateCut) 4 rumours (aboutToSay [6]) (initial 10)).isSome =
      true := by decide
  have hannounced : (broadcasts (((playAt (completing lateCut) 4 rumours (aboutToSay [6])
      (initial 10)).get hsome).1 ++ deedsAt (completing lateCut) 4 rumours
        (.runRead 0 (.data [6])) ((playAt (completing lateCut) 4 rumours (aboutToSay [6])
          (initial 10)).get hsome).2)).map Prod.fst =
      [.joined 0, .joined 1, .relayed 0, .departed 1] := by decide +revert
  have hnone : reports ((playAt (completing lateCut) 4 rumours (aboutToSay [6])
      (initial 10)).get hsome).1 = [.broadcast (.joined 0), .broadcast (.joined 1)] := by
    clear hannounced
    decide +revert
  have hquiet : ∀ client, .loss client ∉ reports ((playAt (completing lateCut) 4 rumours
      (aboutToSay [6]) (initial 10)).get hsome).1 := by
    intro client
    rw [hnone]
    simp
  have hrun := HeedfulRun.of_traced (traced_playAt hsome) hquiet
  have hheeds : Heeds rumours ((playAt (completing lateCut) 4 rumours (aboutToSay [6])
      (initial 10)).get hsome).1 (.runRead 0 (.data [6])) :=
    fun client _ hlost ↦ hquiet client (lost_iff.mp hlost)
  have hends := @HeedfulEnds.last _ _ _ _ _ _ _ _ hrun (List.mem_singleton.mpr rfl) hheeds
  exact ⟨_, hends, hannounced, @departures_final _ _ 0 _ 1 _ _ lateCut_failsOnly hends⟩

/-- The user that was removed after a failed write is announced once more when its read ends. -/
theorem not_departures_final_of_abort :
    ∃ deeds state, Traced (completing lateCut) 4 rumours (initial 10)
        (aboutToSay [6] ++ [.runRead 0 (.data [6]), .readCompletes 1 .error, .runRead 1 .error])
        deeds state ∧ ¬ DeparturesFinal deeds := by
  have hsome : (playAt (completing lateCut) 4 rumours (aboutToSay [6] ++
      [.runRead 0 (.data [6]), .readCompletes 1 .error, .runRead 1 .error])
      (initial 10)).isSome = true := by decide
  have htwice : (broadcasts ((playAt (completing lateCut) 4 rumours (aboutToSay [6] ++
      [.runRead 0 (.data [6]), .readCompletes 1 .error, .runRead 1 .error])
      (initial 10)).get hsome).1).map Prod.fst =
        [.joined 0, .joined 1, .relayed 0, .departed 1, .departed 1] := by decide +revert
  refine ⟨_, _, traced_playAt hsome, fun hfinal ↦ ?_⟩
  rw [DeparturesFinal, htwice] at hfinal
  have hpair : [Purpose.departed 1, Purpose.departed 1].Pairwise FinalBefore :=
    hfinal.sublist (by decide)
  exact (List.pairwise_pair.mp hpair 1 rfl).1 rfl

end KoboldKhat.Server
