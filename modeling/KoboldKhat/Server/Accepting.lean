import KoboldKhat.Server.Sessions

/-!
# The chain of accepts

`start` starts one accept, and each accept handler is to start the next one. It does when it rejects
a connection at capacity and when it publishes one, but not when it is given an error, and not when
`remote_endpoint` throws because the peer is gone. The number of accepts in flight is therefore one
until a handler is given an error, and zero from then on; and a handler does its part exactly when
it is given a connection whose peer is there, or one that it rejects (`accepting_iff`).
-/

set_option autoImplicit false
set_option relaxedAutoImplicit false

namespace KoboldKhat.Server

open Library

/-- The accept handler returns with one accept in flight, and either the new session is in
`m_clients` with one read, or `m_clients` is as it was and the new socket is closed. -/
def HandlesAccept (parse : Bytes → Option Json) (network : Network) (state : State)
    (result : AcceptResult) : Prop :=
  ∃ after, step parse network (.runAccept result) state = .returned () after ∧
    after.outstandingAccepts = 1 ∧
    ((state.accepted ∈ after.clients ∧ after.outstandingReads state.accepted = 1) ∨
      (after.clients = state.clients ∧ after.isOpen state.accepted = false))

section Counting

variable {parse : Bytes → Option Json} {network : Network} {state after : State}

/-- Taking a completed accept leaves one accept less in flight. -/
theorem outstandingAccepts_runAccept {result : AcceptResult}
    (hready : result ∈ state.readyAccepts) :
    ((Event.runAccept result).prepare state).outstandingAccepts + 1 =
      state.outstandingAccepts :=
  outstandingAccepts_arrive_runAccept hready

/-- An accept handler that is given an error leaves one accept less in flight. -/
theorem outstandingAccepts_acceptError (henabled : (Event.runAccept .error).Enabled state)
    (heffect : Effect parse network state (.runAccept .error) after) :
    after.outstandingAccepts + 1 = state.outstandingAccepts := by
  cases heffect with
  | acceptError => exact outstandingAccepts_runAccept henabled

/-- Every other event but `start` leaves the number of accepts in flight as it is. -/
theorem Effect.outstandingAccepts_eq {event : Event}
    (heffect : Effect parse network state event after) (henabled : event.Enabled state)
    (hstart : event ≠ .start) (herror : event ≠ .runAccept .error) :
    after.outstandingAccepts = state.outstandingAccepts := by
  cases heffect with
  | start => exact absurd rfl hstart
  | acceptError => exact absurd rfl herror
  | acceptCompletes result => exact outstandingAccepts_arrive_acceptCompletes henabled
  | readCompletes client result => rfl
  | reject full =>
    rw [← outstandingAccepts_runAccept henabled]
    exact Nat.add_right_comm _ _ _
  | publish room known =>
    rw [← outstandingAccepts_runAccept henabled]
    exact Nat.add_right_comm _ _ _
  | depart client sent => rfl
  | blank client chunk isBlank => rfl
  | message client chunk message newUsername middle notBlank fields effect =>
    exact effect.sameSessions.outstandingAccepts
  | broadcast message excludeSocket sent => rfl
  | shutdown => rfl

theorem Run.eq_of_nil {first last : State} (hrun : Run parse network first [] last) :
    last = first := by
  generalize hempty : ([] : List Event) = events at hrun
  cases hrun with
  | nil => rfl
  | snoc run enabled returned => simp at hempty

/-- The first event of a run, and the rest. -/
theorem Run.exists_of_cons {first last : State} {event : Event} {events : List Event}
    (hrun : Run parse network first (event :: events) last) :
    ∃ middle, step parse network event first = .returned () middle ∧
      Run parse network middle events last := by
  generalize hall : event :: events = all at hrun
  induction hrun generalizing events with
  | nil => cases hall
  | @snoc before last earlier final run enabled returned ih =>
    cases earlier with
    | nil =>
      obtain ⟨rfl, rfl⟩ : event = final ∧ events = [] := by simpa using hall
      rw [run.eq_of_nil] at returned
      exact ⟨last, returned, .nil last⟩
    | cons head tail =>
      obtain ⟨rfl, rfl⟩ : event = head ∧ events = tail ++ [final] := by simpa using hall
      obtain ⟨middle, hfirst, hrest⟩ := ih rfl
      exact ⟨middle, hfirst, hrest.snoc enabled returned⟩

/-- In a run without `start` that begins with one accept in flight, there is one until a handler is
given an error, and none from then on. -/
theorem Run.outstandingAccepts {first last : State} {events : List Event}
    (hrun : Run parse network first events last) (hfree : first.held = 0)
    (hone : first.outstandingAccepts = 1) (hstart : .start ∉ events) :
    (.runAccept .error ∉ events → last.outstandingAccepts = 1) ∧
      (.runAccept .error ∈ events → last.outstandingAccepts = 0) := by
  induction hrun with
  | nil => exact ⟨fun _ ↦ hone, nofun⟩
  | @snoc middle last events event run enabled returned ih =>
    rw [List.mem_append, not_or] at hstart
    obtain ⟨hnone, hsome⟩ := ih hstart.1
    have heffect := effect_of_returned (run.held hfree) returned
    have hnotStart : event ≠ .start := fun hsame ↦ hstart.2 (List.mem_singleton.mpr hsame.symm)
    simp only [List.mem_append, List.mem_singleton, not_or]
    by_cases herror : event = .runAccept .error
    · subst herror
      refine ⟨fun hnot ↦ absurd rfl hnot.2, fun _ ↦ ?_⟩
      have hcount := outstandingAccepts_acceptError enabled heffect
      by_cases hearlier : Event.runAccept .error ∈ events
      · rw [hsome hearlier] at hcount
        cases hcount
      · rw [hnone hearlier] at hcount
        exact Nat.succ.inj hcount
    · rw [heffect.outstandingAccepts_eq enabled hnotStart herror]
      exact ⟨fun hnot ↦ hnone hnot.1, fun hmember ↦ hsome (hmember.resolve_right (Ne.symm herror))⟩

end Counting

section Handler

variable {parse : Bytes → Option Json} {network : Network} {state : State}

/-- With one accept in flight, the accept handler does its part exactly when it is given a
connection, and the peer is there if it publishes it. -/
theorem handlesAccept_iff (hregistry : state.WellFormed) (hfree : state.held = 0)
    (hone : state.outstandingAccepts = 1) {result : AcceptResult}
    (hready : result ∈ state.readyAccepts) :
    HandlesAccept parse network state result ↔ result = .success ∧
      (state.clients.length < state.maxClients → network.peerKnown state.accepted = true) := by
  constructor
  · rintro ⟨after, hreturned, hafter, -⟩
    cases effect_of_returned hfree hreturned with
    | acceptError =>
      have hcount := outstandingAccepts_runAccept hready
      rw [hafter, hone] at hcount
      cases hcount
    | reject full => exact ⟨rfl, fun hroom ↦ absurd full (Nat.not_le_of_lt hroom)⟩
    | publish room known => exact ⟨rfl, fun _ ↦ known⟩
  · rintro ⟨rfl, hpeer⟩
    cases hstep : step parse network (.runAccept .success) state with
    | returned value after =>
      have heffect := effect_of_returned hfree hstep
      have hafter : after.outstandingAccepts = 1 :=
        (heffect.outstandingAccepts_eq hready nofun nofun).trans hone
      refine ⟨after, hstep, hafter, ?_⟩
      have hwellFormed := heffect.wellFormed hready hregistry
      cases heffect with
      | reject full =>
        refine Or.inr ⟨rfl, hwellFormed.closed _ hregistry.accepted_notMem⟩
      | publish room known =>
        have hmember : state.accepted ∈ state.clients ++ [state.accepted] :=
          List.mem_append_right _ (List.mem_singleton.mpr rfl)
        exact Or.inl ⟨hmember, hwellFormed.member_reads _ hmember⟩
    | stopped fault after =>
      cases halt_of_stopped hfree hstep with
      | peerGone room unknown =>
        rw [hpeer room] at unknown
        cases unknown

end Handler

/-- In every run that calls `start` first and only then: one accept is in flight exactly while no
handler was given an error, and while one is, the handler of a completed accept does its part
exactly when it is given a connection, and the peer is there if it publishes it. -/
theorem accepting_iff {parse : Bytes → Option Json} {network : Network} {maxClients : ℕ}
    {events : List Event} {state : State}
    (hrun : Run parse network (initial maxClients) (.start :: events) state)
    (hstart : .start ∉ events) :
    (state.outstandingAccepts = 1 ↔ .runAccept .error ∉ events) ∧
      ∀ result ∈ state.readyAccepts, (HandlesAccept parse network state result ↔
        result = .success ∧ (state.clients.length < state.maxClients →
          network.peerKnown state.accepted = true)) := by
  have hreachable : Reachable parse network state := ⟨maxClients, _, hrun⟩
  obtain ⟨started, hfirst, hrest⟩ := hrun.exists_of_cons
  have hone : started.outstandingAccepts = 1 := by
    cases hfirst
    rfl
  have hfreeStarted : started.held = 0 := by
    cases hfirst
    rfl
  obtain ⟨hnone, hsome⟩ := hrest.outstandingAccepts hfreeStarted hone hstart
  have hiff : state.outstandingAccepts = 1 ↔ .runAccept .error ∉ events := by
    refine ⟨fun hcount hmember ↦ ?_, hnone⟩
    rw [hsome hmember] at hcount
    cases hcount
  refine ⟨hiff, fun result hready ↦ ?_⟩
  refine handlesAccept_iff hreachable.wellFormed hreachable.held (hiff.mpr fun hmember ↦ ?_) hready
  have hpositive : 0 < state.readyAccepts.length := List.length_pos_of_mem hready
  have hcount := hsome hmember
  simp only [Registry.outstandingAccepts] at hcount
  omega

/-- The first connection of a server with room is handled properly. -/
theorem accepting_first :
    ∃ state, Run (fun _ ↦ none) reliable (initial 10) [.start, .acceptCompletes .success] state ∧
      state.outstandingAccepts = 1 ∧ HandlesAccept (fun _ ↦ none) reliable state .success := by
  have hsome : (play (fun _ ↦ none) reliable [.start, .acceptCompletes .success]
      (initial 10)).isSome = true := by
    decide
  have hrun := play_eq_run (.nil _) (Option.some_get hsome).symm
  obtain ⟨hcount, hhandles⟩ := accepting_iff hrun (by simp)
  refine ⟨_, hrun, hcount.mpr (by simp), ?_⟩
  exact (hhandles .success (List.mem_singleton.mpr rfl)).mpr ⟨rfl, fun _ ↦ rfl⟩

/-- After an accept that reports an error no accept is in flight, and a peer that is gone when its
address is asked for ends the accept handler, with its session in `m_clients` and without a read. -/
theorem accepting_stops :
    (∃ state, Run (fun _ ↦ none) reliable (initial 10)
      [.start, .acceptCompletes .error, .runAccept .error] state ∧
        state.outstandingAccepts = 0) ∧
    ∃ state after, Run (fun _ ↦ none) ⟨fun _ _ ↦ .whole, fun _ ↦ false⟩ (initial 10)
      [.start, .acceptCompletes .success] state ∧
        step (fun _ ↦ none) ⟨fun _ _ ↦ .whole, fun _ ↦ false⟩ (.runAccept .success) state =
          .stopped .exception after ∧ after.clients = [0] ∧ after.outstandingReads 0 = 0 :=
  ⟨⟨_, play_eq_run (.nil _) rfl, rfl⟩, _, _, play_eq_run (.nil _) rfl, rfl, rfl, rfl⟩

end KoboldKhat.Server
