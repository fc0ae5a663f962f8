import KoboldKhat.Server.History

/-!
# From the socket to the stored name

What the server makes of the stream of one session, in every run and also after an event that
stopped. A read completes with a chunk, and its handler runs later. Since a session has one read in
flight, its handlers are given the chunks in the order in which the reads completed, each once
(`Ends.chunksRead_isPrefix`).

The name stored for a session is a function of its calls of `handleMessage`: the user name of the
first call that is not a direct message, or of a later one as long as the names before are empty
(`Ends.username`). As long as every event returns, the fields of every call could be read
(`Run.callsFrom_ok`), and what has been written is never taken back (`Effect.attempts_isPrefix`).
-/

set_option autoImplicit false
set_option relaxedAutoImplicit false

namespace KoboldKhat.Server

open Library

/-! ### Chunks that have been delivered -/

/-- The chunk that a completed read carries. -/
def ReadResult.chunks : ReadResult → List Bytes
  | error => []
  | data chunk => [chunk]

/-- The chunk that an event delivers to the session. -/
def Event.deliveryTo (client : SessionId) : Event → List Bytes
  | readCompletes reader result => if reader = client then result.chunks else []
  | _ => []

/-- The chunks that the reads of the session completed with, in their order. -/
def delivered (client : SessionId) (events : List Event) : List Bytes :=
  events.flatMap (Event.deliveryTo client)

/-- The completed reads of the session whose handlers have not run. -/
def Registry.readyOf (registry : Registry) (client : SessionId) : List (SessionId × ReadResult) :=
  registry.readyReads.filter fun read ↦ decide (read.1 = client)

/-- The chunks of the session whose handlers have not run. -/
def Registry.readyChunks (registry : Registry) (client : SessionId) : List Bytes :=
  (registry.readyOf client).flatMap fun read ↦ read.2.chunks

section Delivered

variable {parse : Bytes → Option Json} {network : Network} {state after last : State}
  {event : Event} {events : List Event} {client reader : SessionId} {result : ReadResult}

/-- A session with one read in flight has no completed read beside one. -/
theorem readyOf_eq_singleton {registry : Registry} (hreads : registry.outstandingReads client ≤ 1)
    (hready : (client, result) ∈ registry.readyReads) :
    registry.readyOf client = [(client, result)] := by
  have hlength : (registry.readyOf client).length ≤ 1 := by
    have hcount : (registry.readyReads.map Prod.fst).count client =
        (registry.readyOf client).length := by
      rw [List.count, List.countP_map, List.countP_eq_length_filter]
      rfl
    have hboth : registry.waitingReads.count client +
        (registry.readyReads.map Prod.fst).count client ≤ 1 := hreads
    omega
  have hmember : (client, result) ∈ registry.readyOf client :=
    List.mem_filter.mpr ⟨hready, decide_eq_true rfl⟩
  cases hlist : registry.readyOf client with
  | nil =>
    rw [hlist] at hmember
    cases hmember
  | cons first rest =>
    rw [hlist] at hmember hlength
    obtain rfl := List.length_eq_zero_iff.mp (Nat.le_zero.mp (Nat.succ_le_succ_iff.mp hlength))
    rw [List.mem_singleton.mp hmember]

/-- The handler of a read takes the chunk of its session. -/
theorem readyChunks_runRead (hreads : state.outstandingReads reader ≤ 1)
    (hready : (reader, result) ∈ state.readyReads) (client : SessionId) :
    state.readyChunks client = (if reader = client then result.chunks else []) ++
      ((Event.runRead reader result).arrive state.toRegistry).readyChunks client := by
  have herase : ((Event.runRead reader result).arrive state.toRegistry).readyOf client =
      (state.readyOf client).erase (reader, result) := List.erase_filter.symm
  unfold Registry.readyChunks
  rw [herase]
  by_cases hsame : reader = client
  · subst hsame
    rw [readyOf_eq_singleton hreads hready, if_pos rfl, List.erase_cons_head]
    simp
  · have hnot : (reader, result) ∉ state.readyOf client := fun hmember ↦
      hsame (of_decide_eq_true (List.mem_filter.mp hmember).2)
    rw [if_neg hsame, List.nil_append, List.erase_of_not_mem hnot]

/-- A read that completes brings the chunk of its session. -/
theorem readyChunks_readCompletes (registry : Registry) (reader client : SessionId)
    (result : ReadResult) :
    ((Event.readCompletes reader result).arrive registry).readyChunks client =
      registry.readyChunks client ++ if reader = client then result.chunks else [] := by
  simp only [Registry.readyChunks, Registry.readyOf, Event.arrive, List.filter_append,
    List.flatMap_append]
  by_cases hsame : reader = client <;> simp [hsame]

/-- The code of an event that returned leaves the completed reads alone. -/
theorem Effect.readyReads (heffect : Effect parse network state event after) :
    after.readyReads = (event.arrive state.toRegistry).readyReads := by
  cases heffect with
  | message client chunk message newUsername middle notBlank fields effect =>
    show middle.readyReads = _
    rw [effect.sameSessions.registry]
    rfl
  | _ => rfl

/-- The handling of a message that stopped leaves the completed reads alone. -/
theorem MessageHalt.readyReads {message newUsername : Bytes} {fault : Fault}
    (hhalt : MessageHalt network state message newUsername client fault after) :
    after.readyReads = state.readyReads := by
  cases hhalt with
  | notFound command none => rfl
  | register command unnamed failed => rfl
  | chat command named failed => rfl

/-- The code of an event that stopped leaves the completed reads alone. -/
theorem Halt.readyReads {fault : Fault} (hhalt : Halt parse network state event fault after) :
    after.readyReads = (event.arrive state.toRegistry).readyReads := by
  cases hhalt with
  | message client chunk message newUsername fault middle notBlank fields halt =>
    exact halt.readyReads
  | _ => rfl

/-- One event keeps the chunks delivered those given to handlers and those that wait for theirs. -/
theorem delivered_concat (hregistry : state.WellFormed) (henabled : event.Enabled state)
    (hafter : after.readyReads = (event.arrive state.toRegistry).readyReads)
    (hbefore : delivered client events = chunksRead client events ++ state.readyChunks client) :
    delivered client (events ++ [event]) =
      chunksRead client (events ++ [event]) ++ after.readyChunks client := by
  have hchunks : after.readyChunks client =
      (event.arrive state.toRegistry).readyChunks client := by
    unfold Registry.readyChunks Registry.readyOf
    rw [hafter]
  rw [hchunks, delivered, chunksRead, List.flatMap_append, List.flatMap_append,
    List.flatMap_singleton, List.flatMap_singleton]
  rw [delivered, chunksRead] at hbefore
  rw [hbefore]
  cases event with
  | readCompletes reader result =>
    rw [readyChunks_readCompletes]
    simp only [Event.deliveryTo, Event.chunkOf, List.append_nil, List.append_assoc]
  | runRead reader result =>
    have hready : (reader, result) ∈ state.readyReads := henabled
    rw [readyChunks_runRead (hregistry.reads_le reader) hready client]
    cases result <;> simp [Event.deliveryTo, Event.chunkOf, ReadResult.chunks]
  | runAccept result =>
    cases result <;> simp [Event.deliveryTo, Event.chunkOf, Event.arrive, Registry.readyChunks,
      Registry.readyOf]
  | _ => simp [Event.deliveryTo, Event.chunkOf, Event.arrive, Registry.readyChunks,
      Registry.readyOf]

/-- The chunks delivered to a session are those its handlers have been given, in order, and after
them those that wait for their handlers. -/
theorem Ends.delivered_eq {maxClients : ℕ}
    (hends : Ends parse network (initial maxClients) events last) (client : SessionId) :
    delivered client events = chunksRead client events ++ last.readyChunks client := by
  refine Ends.preserves (fun events state ↦
    delivered client events = chunksRead client events ++ state.readyChunks client) rfl rfl ?_ ?_
    hends
  · intro earlier before after event hrun henabled heffect hbefore
    have hreachable : Reachable parse network before := ⟨maxClients, earlier, hrun⟩
    exact delivered_concat hreachable.wellFormed henabled heffect.readyReads hbefore
  · intro earlier before after event fault hrun henabled hhalt hbefore
    have hreachable : Reachable parse network before := ⟨maxClients, earlier, hrun⟩
    exact delivered_concat hreachable.wellFormed henabled hhalt.readyReads hbefore

/-- The read handlers of a session are given the first of the chunks delivered to it, in order. -/
theorem Ends.chunksRead_isPrefix {maxClients : ℕ}
    (hends : Ends parse network (initial maxClients) events last) (client : SessionId) :
    chunksRead client events <+: delivered client events := by
  rw [hends.delivered_eq client]
  exact List.prefix_append _ _

end Delivered

/-! ### The name a session is given -/

/-- The name stored for a session after a call of `handleMessage`. -/
def storedAfter (stored : Bytes) : Except Fault (Bytes × Bytes) → Bytes
  | .ok (message, username) =>
    if stored = [] ∧ dmCommand.isPrefixOf message = false then username else stored
  | .error _ => stored

/-- The name stored for a session after its calls of `handleMessage`. -/
def nameAfter (calls : List (Except Fault (Bytes × Bytes))) : Bytes :=
  calls.foldl storedAfter []

section Names

variable {parse : Bytes → Option Json} {network : Network} {state after last : State}
  {event : Event} {events : List Event} {client : SessionId} {message newUsername : Bytes}

/-- Each session has the name its calls leave it with. -/
def State.NamedByCalls (state : State) : Prop :=
  ∀ client, state.username client = nameAfter (state.callsFrom client)

/-- The calls and the names of a state decide whether the sessions are named by their calls. -/
theorem State.NamedByCalls.of_eq (hnamed : state.NamedByCalls)
    (hnames : after.username = state.username) (hhandled : after.handled = state.handled) :
    after.NamedByCalls := by
  intro client
  rw [hnames, hnamed client]
  unfold State.callsFrom
  rw [hhandled]

/-- A call of `handleMessage` is added to those of its session. -/
theorem callsFrom_of_handled {jsonMessage : Json}
    (hhandled : after.handled = state.handled ++ [(client, jsonMessage)]) (other : SessionId) :
    after.callsFrom other = state.callsFrom other ++
      if client = other then [messageFields jsonMessage] else [] := by
  unfold State.callsFrom
  rw [hhandled, List.filter_append, List.map_append]
  by_cases hsame : client = other <;> simp [hsame]

/-- A call of `handleMessage` that stores what its fields say keeps the sessions named by their
calls. -/
theorem State.NamedByCalls.call (hnamed : state.NamedByCalls) {jsonMessage : Json}
    (hhandled : after.handled = state.handled ++ [(client, jsonMessage)])
    (hnames : after.username = Function.update state.username client
      (storedAfter (state.username client) (messageFields jsonMessage))) :
    after.NamedByCalls := by
  intro other
  rw [hnames, callsFrom_of_handled hhandled]
  by_cases hsame : client = other
  · subst hsame
    rw [Function.update_self, if_pos rfl, nameAfter, List.foldl_append, hnamed client]
    rfl
  · rw [Function.update_of_ne (Ne.symm hsame), if_neg hsame, List.append_nil, hnamed other]

/-- A call that stores nothing new leaves the names as they are. -/
theorem update_storedAfter_eq_self {stored : SessionId → Bytes}
    {call : Except Fault (Bytes × Bytes)}
    (hsame : storedAfter (stored client) call = stored client) :
    Function.update stored client (storedAfter (stored client) call) = stored := by
  rw [hsame, Function.update_eq_self]

/-- A message handled under the command of a direct message, or under a stored name, stores
nothing. -/
theorem storedAfter_eq_self {stored : Bytes}
    (hkept : dmCommand.isPrefixOf message = true ∨ stored ≠ []) :
    storedAfter stored (.ok (message, newUsername)) = stored := by
  refine if_neg fun hboth ↦ ?_
  rcases hkept with hcommand | hnamed
  · rw [hboth.2] at hcommand
    cases hcommand
  · exact hnamed hboth.1

/-- The handling of a message stores what its fields say. -/
theorem MessageEffect.username
    (heffect : MessageEffect network state message newUsername client after) :
    after.username = Function.update state.username client
      (storedAfter (state.username client) (.ok (message, newUsername))) := by
  cases heffect with
  | direct receiver command found =>
    exact (update_storedAfter_eq_self (storedAfter_eq_self (Or.inl command))).symm
  | register command unnamed sent =>
    rw [storedAfter, if_pos ⟨unnamed, command⟩]
    rfl
  | chat command named sent =>
    exact (update_storedAfter_eq_self (storedAfter_eq_self (Or.inr named))).symm

/-- The handling of a message stores what its fields say, also if it stops. -/
theorem MessageHalt.username {fault : Fault}
    (hhalt : MessageHalt network state message newUsername client fault after) :
    after.username = Function.update state.username client
      (storedAfter (state.username client) (.ok (message, newUsername))) := by
  cases hhalt with
  | notFound command none =>
    exact (update_storedAfter_eq_self (storedAfter_eq_self (Or.inl command))).symm
  | register command unnamed failed =>
    rw [storedAfter, if_pos ⟨unnamed, command⟩]
    rfl
  | chat command named failed =>
    exact (update_storedAfter_eq_self (storedAfter_eq_self (Or.inr named))).symm

/-- An event that returned keeps the sessions named by their calls. -/
theorem Effect.namedByCalls (heffect : Effect parse network state event after)
    (hnamed : state.NamedByCalls) : after.NamedByCalls := by
  cases heffect with
  | message client chunk message newUsername middle notBlank fields effect =>
    have hhandled : middle.handled = state.handled ++ [(client, parsedMessage parse chunk)] :=
      effect.handled
    refine hnamed.call hhandled ?_
    rw [fields]
    exact effect.username
  | _ => exact hnamed.of_eq rfl rfl

/-- An event that stopped keeps the sessions named by their calls. -/
theorem Halt.namedByCalls {fault : Fault} (hhalt : Halt parse network state event fault after)
    (hnamed : state.NamedByCalls) : after.NamedByCalls := by
  cases hhalt with
  | fields client chunk fault notBlank fields =>
    refine @State.NamedByCalls.call state _ client hnamed (parsedMessage parse chunk) rfl ?_
    rw [fields]
    exact (Function.update_eq_self client state.username).symm
  | message client chunk message newUsername fault middle notBlank fields halt =>
    have hhandled : after.handled = state.handled ++ [(client, parsedMessage parse chunk)] :=
      halt.handled
    refine hnamed.call hhandled ?_
    rw [fields]
    exact halt.username
  | _ => exact hnamed.of_eq rfl rfl

/-- In every run a session has the name its calls leave it with. -/
theorem Ends.username {maxClients : ℕ}
    (hends : Ends parse network (initial maxClients) events last) (client : SessionId) :
    last.username client = nameAfter (last.callsFrom client) := by
  have hnamed : last.NamedByCalls :=
    Ends.preserves (fun _ state ↦ state.NamedByCalls) rfl (fun _ ↦ rfl)
      (fun _ _ heffect hbefore ↦ heffect.namedByCalls hbefore)
      (fun _ _ hhalt hbefore ↦ hhalt.namedByCalls hbefore) hends
  exact hnamed client

end Names

/-! ### What a server that goes on has done -/

section Lasting

variable {parse : Bytes → Option Json} {network : Network} {state after last : State}
  {event : Event} {events : List Event} {client : SessionId} {chunk : Bytes}

/-- The fields of the call for a chunk could be read, if its handler returned. -/
theorem Effect.chunkCall_ok (heffect : Effect parse network state event after) :
    ∀ call ∈ (event.chunkOf client).flatMap (chunkCall parse), ∃ fields, call = .ok fields := by
  intro call hcall
  cases heffect with
  | blank reader chunk isBlank =>
    rw [Event.chunkOf] at hcall
    split_ifs at hcall
    · rw [List.flatMap_singleton, chunkCall, if_pos isBlank] at hcall
      cases hcall
    · cases hcall
  | message reader chunk message newUsername middle notBlank fields effect =>
    rw [Event.chunkOf] at hcall
    split_ifs at hcall
    · rw [List.flatMap_singleton, chunkCall, if_neg notBlank, fields] at hcall
      exact ⟨_, List.mem_singleton.mp hcall⟩
    · cases hcall
  | _ => cases hcall

/-- The fields of all calls could be read, if all events returned. -/
theorem Run.callsFrom_ok {first : State} (hrun : Run parse network first events last)
    (hfree : first.held = 0) (client : SessionId) :
    ∀ call ∈ (chunksRead client events).flatMap (chunkCall parse), ∃ fields, call = .ok fields := by
  induction hrun with
  | nil => exact nofun
  | snoc run enabled returned ih =>
    intro call hcall
    rw [chunksRead, List.flatMap_append, List.flatMap_singleton, List.flatMap_append] at hcall
    rcases List.mem_append.mp hcall with hearlier | hlast
    · exact ih call hearlier
    · exact (effect_of_returned (run.held hfree) returned).chunkCall_ok call hlast

/-- A call whose fields could not be read ends the server with the fault of that. -/
theorem Halt.fault_eq {fault given : Fault} (hhalt : Halt parse network state event fault after)
    (hevent : event = .runRead client (.data chunk))
    (hcall : chunkCall parse chunk = [.error given]) : fault = given := by
  cases hhalt with
  | fields reader other fault notBlank fields =>
    obtain ⟨-, hresult⟩ := Event.runRead.inj hevent
    obtain rfl := ReadResult.data.inj hresult
    rw [chunkCall, if_neg notBlank, fields] at hcall
    exact Except.error.inj (List.singleton_injective hcall)
  | message reader other message newUsername fault middle notBlank fields halt =>
    obtain ⟨-, hresult⟩ := Event.runRead.inj hevent
    obtain rfl := ReadResult.data.inj hresult
    rw [chunkCall, if_neg notBlank, fields] at hcall
    cases List.singleton_injective hcall
  | _ => cases hevent

/-- An event that returned took back no write. -/
theorem Effect.attempts_isPrefix (heffect : Effect parse network state event after) :
    state.attempts <+: after.attempts := by
  cases heffect with
  | depart client sent => exact List.prefix_append _ _
  | message client chunk message newUsername middle notBlank fields effect =>
    cases effect with
    | direct receiver command found => exact List.prefix_append _ _
    | register command unnamed sent => exact List.prefix_append _ _
    | chat command named sent => exact List.prefix_append _ _
  | broadcast message excludeSocket sent => exact List.prefix_append _ _
  | _ => exact List.prefix_rfl

/-- An event that stopped took back no write. -/
theorem Halt.attempts_isPrefix {fault : Fault}
    (hhalt : Halt parse network state event fault after) : state.attempts <+: after.attempts := by
  cases hhalt with
  | depart client failed => exact List.prefix_append _ _
  | message client chunk message newUsername fault middle notBlank fields halt =>
    cases halt with
    | notFound command none => exact List.prefix_append _ _
    | register command unnamed failed => exact List.prefix_append _ _
    | chat command named failed => exact List.prefix_append _ _
  | broadcast message excludeSocket failed => exact List.prefix_append _ _
  | _ => exact List.prefix_rfl

/-- What has been sent to a session stays at the beginning of what is. -/
theorem outgoing_isPrefix (hattempts : state.attempts <+: after.attempts) (client : SessionId) :
    state.outgoing client <+: after.outgoing client := by
  obtain ⟨more, hmore⟩ := hattempts
  unfold State.outgoing
  rw [← hmore, List.filter_append, List.flatMap_append]
  exact List.prefix_append _ _

end Lasting

end KoboldKhat.Server
