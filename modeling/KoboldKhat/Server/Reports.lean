import KoboldKhat.Server.Removal

/-!
# The broadcasts that a call starts

The broadcasts and the removals that a program of the server starts on the way to its value
(`reports`, `Says`). A program without calls reports nothing (`reports_of_callless`); the other
functions report what their parts do, in every setting.

When at most one session's writes fail and removals complete as in `Removal`, a broadcast reports
its own purpose, and if it finds the session whose writes fail in `m_clients`, it removes it and
reports its departure, unless it has no name (`says_callBroadcastMessage_losing`). The announcement
of that departure excludes the one session whose writes fail, so it ends there.
-/

set_option autoImplicit false
set_option relaxedAutoImplicit false

namespace KoboldKhat.Server

open Library

/-! ### Broadcasts and losses -/

/-- A deed that matters for departures. -/
inductive Report
  /-- A broadcast is started. -/
  | broadcast (purpose : Purpose)
  /-- A session with a name is removed because a write to it failed. -/
  | loss (client : SessionId)
  deriving DecidableEq

/-- The deed reports a broadcast, or a removal from inside another call. -/
def Deed.report (deed : Deed) : Option Report :=
  match deed.moment.action with
  | .call (.broadcastMessage _ excludeSocket) =>
    (purposeOf deed.event deed.moment.callers excludeSocket).map Report.broadcast
  | .call (.removeClient client) =>
    if deed.moment.callers.isEmpty ∨ deed.moment.state.username client = [] then none
    else some (.loss client)
  | .perform _ => none

/-- The reports among the deeds. -/
def reports (deeds : List Deed) : List Report :=
  deeds.filterMap Deed.report

theorem reports_append (first second : List Deed) :
    reports (first ++ second) = reports first ++ reports second :=
  List.filterMap_append

/-- The purpose of a report of a broadcast. -/
def Report.purpose : Report → Option Purpose
  | broadcast purpose => some purpose
  | loss _ => none

/-- The purposes of the broadcasts are those reported. -/
theorem purposes_eq (deeds : List Deed) :
    (broadcasts deeds).map Prod.fst = (reports deeds).filterMap Report.purpose := by
  rw [broadcasts, reports, List.map_filterMap, List.filterMap_filterMap]
  refine List.filterMap_congr fun deed _ ↦ ?_
  rw [Deed.broadcast, Deed.report]
  cases deed.moment.action with
  | perform operation => rfl
  | call procedure =>
    cases procedure with
    | broadcastMessage message excludeSocket =>
      cases hpurpose : purposeOf deed.event deed.moment.callers excludeSocket <;>
        simp [hpurpose, Report.purpose]
    | removeClient client =>
      show none = Option.bind (if _ then none else _) Report.purpose
      split_ifs <;> rfl

/-- The purposes among the reports are those of the broadcasts reported. -/
theorem mem_purposes {said : List Report} {purpose : Purpose} :
    purpose ∈ said.filterMap Report.purpose ↔ .broadcast purpose ∈ said := by
  rw [List.mem_filterMap]
  constructor
  · rintro ⟨report, hsaid, hpurpose⟩
    cases report with
    | broadcast other =>
      rw [← Option.some.inj hpurpose]
      exact hsaid
    | loss client => cases hpurpose
  · exact fun hsaid ↦ ⟨_, hsaid, rfl⟩

/-! ### What a program reports -/

section Programs

variable {α β : Type} (setting : Setting) (depth : ℕ) (event : Event) (callers : List Procedure)

/-- A program returns a value in a state, and these are the reports on the way. -/
def Says (program : ServerProgram α) (state : State) (value : α) (said : List Report)
    (after : State) : Prop :=
  (semantics setting).exec depth program state = .returned value after ∧
    reports (((semantics setting).trace depth callers program state).map
      (Deed.mk event)) = said

variable {setting depth event callers} {state middle after : State} {said later : List Report}

/-- The reports are what is observed of the deeds. -/
theorem says_iff_observes {program : ServerProgram α} {value : α} :
    Says setting depth event callers program state value said after ↔
      (semantics setting).Observes depth callers state (Deed.report ∘ Deed.mk event) program value
        said after := by
  unfold Says Semantics.Observes reports
  rw [List.filterMap_map]

theorem says_pure (value : α) (state : State) :
    Says setting depth event callers (pure value) state value [] state :=
  ⟨rfl, rfl⟩

/-- A sequence reports what its parts report. -/
theorem Says.bind {first : ServerProgram α} {rest : α → ServerProgram β} {value : α} {result : β}
    (hfirst : Says setting depth event callers first state value said middle)
    (hrest : Says setting depth event callers (rest value) middle result later after) :
    Says setting depth event callers (first >>= rest) state result (said ++ later) after := by
  rw [says_iff_observes] at hfirst hrest ⊢
  exact hfirst.bind hrest

/-- An operation reports nothing. -/
theorem says_perform {operation : Operation} {reply : operation.Reply}
    (hperform : perform setting operation state = .returned reply after) :
    Says setting depth event callers (@Program.perform signature operation) state reply []
      after :=
  says_iff_observes.mpr (Semantics.observes_perform hperform)

/-- Going on after something that is not reported. -/
theorem Says.then {first : ServerProgram α} {rest : α → ServerProgram β} {value : α} {result : β}
    (hfirst : Says setting depth event callers first state value [] middle)
    (hrest : Says setting depth event callers (rest value) middle result said after) :
    Says setting depth event callers (first >>= rest) state result said after :=
  hfirst.bind hrest

/-- Going on with something that is not reported. -/
theorem Says.finish {first : ServerProgram α} {rest : α → ServerProgram β} {value : α} {result : β}
    (hfirst : Says setting depth event callers first state value said middle)
    (hrest : Says setting depth event callers (rest value) middle result [] after) :
    Says setting depth event callers (first >>= rest) state result said after := by
  rw [← List.append_nil said]
  exact hfirst.bind hrest

/-- A call reports itself and then what its body reports. -/
theorem Says.call {procedure : Procedure}
    (hbody : Says setting depth event (procedure :: callers)
      (procedureBody setting.walk procedure) state () said after) :
    Says setting (depth + 1) event callers (@Program.invoke signature procedure) state ()
      ((Deed.report ⟨event, callers, .call procedure, state⟩).toList ++ said) after := by
  rw [says_iff_observes] at hbody ⊢
  exact hbody.call

end Programs

/-! ### Programs without calls -/

section Callless

variable {α β : Type}

/-- The program makes no calls. -/
def Callless : ServerProgram α → Prop
  | .done _ => True
  | .fault _ => True
  | .act _ next => ∀ reply, Callless (next reply)
  | .call _ _ => False

theorem callless_perform (operation : Operation) :
    Callless (@Program.perform signature operation) :=
  fun _ ↦ trivial

theorem Callless.bind {program : ServerProgram α} {rest : α → ServerProgram β}
    (hcallless : Callless program) (hrest : ∀ value, Callless (rest value)) :
    Callless (program >>= rest) := by
  rw [Program.bind_eq]
  induction program with
  | done value => exact hrest value
  | fault reason => trivial
  | act operation next ih => exact fun reply ↦ ih reply (hcallless reply)
  | call procedure next ih => exact hcallless.elim

/-- A program that makes no calls reports nothing. -/
theorem reports_of_callless {program : ServerProgram α} (hcallless : Callless program)
    (setting : Setting) (depth : ℕ) (event : Event) (callers : List Procedure) (state : State) :
    reports (((semantics setting).trace depth callers program state).map (Deed.mk event)) = [] := by
  induction program generalizing state with
  | done value => rfl
  | fault reason => rfl
  | act operation next ih =>
    have hact := @Semantics.trace_bind _ _ _ _ (semantics setting) depth callers state
      (@Program.perform signature operation) next
    rw [Program.bind_eq] at hact
    show reports (((semantics setting).trace depth callers
      ((@Program.perform signature operation).bind next) state).map (Deed.mk event)) = []
    rw [hact, Semantics.trace_perform, Semantics.exec_perform, List.map_append, reports_append]
    cases (semantics setting).perform operation state with
    | returned reply after => exact ih reply (hcallless reply) after
    | stopped fault after => rfl
  | call procedure next ih => exact hcallless.elim

theorem callless_closeIfOpen (client : SessionId) : Callless (closeIfOpen client) := by
  refine (callless_perform _).bind fun socketIsOpen ↦ ?_
  split_ifs
  · exact callless_perform _
  · trivial

theorem callless_closeAndErase (client : SessionId) : Callless (closeAndErase client) := by
  refine (callless_perform _).bind fun _ ↦ (callless_closeIfOpen client).bind fun _ ↦
    Callless.bind ?_ fun _ ↦ callless_perform _
  refine (callless_perform _).bind fun (members : List SessionId) ↦ ?_
  cases members.idxOf? client with
  | none => trivial
  | some slot => exact callless_perform _

/-- A program that makes no calls reports nothing on the way to its value. -/
theorem says_of_callless {program : ServerProgram α} (hcallless : Callless program)
    {setting : Setting} {depth : ℕ} {event : Event} {callers : List Procedure}
    {state after : State} {value : α}
    (hexec : (semantics setting).exec depth program state = .returned value after) :
    Says setting depth event callers program state value [] after :=
  ⟨hexec, reports_of_callless hcallless setting depth event callers state⟩

theorem callless_findByUsername (recipient : Bytes) (members : List SessionId) (slot : ℕ) :
    Callless (findByUsername recipient members slot) := by
  induction members generalizing slot with
  | nil => trivial
  | cons client rest ih =>
    refine (callless_perform _).bind fun (name : Bytes) ↦ ?_
    split_ifs
    · trivial
    · exact ih (slot + 1)

theorem callless_handleDirectMessage (message : Bytes) (client : SessionId) :
    Callless (handleDirectMessage message client) := by
  refine (callless_perform _).bind fun _ ↦ (callless_perform _).bind fun members ↦
    (callless_findByUsername _ _ _).bind fun it ↦ Callless.bind ?_ fun _ ↦ callless_perform _
  cases it with
  | some slot =>
    exact (callless_perform _).bind fun _ ↦ (callless_perform _).bind fun _ ↦
      (callless_perform _).bind fun _ ↦ (callless_perform _).bind fun _ ↦
        (callless_perform _).bind fun _ ↦ trivial
  | none =>
    exact (callless_perform _).bind fun _ ↦ (callless_perform _).bind fun _ ↦
      (callless_perform _).bind fun _ ↦ trivial

/-- A chunk that is blank, or cannot be read, or holds a direct message makes no calls. -/
theorem callless_readHandler {parse : Bytes → Option Json} {client : SessionId} {chunk : Bytes}
    (hdirect : ∀ message newUsername,
      (Event.runRead client (.data chunk)).Brings parse client message newUsername →
        dmCommand.isPrefixOf message = true) :
    Callless (readHandler parse client (.data chunk)) := by
  refine Callless.bind ?_ fun _ ↦ callless_perform _
  by_cases hblank : IsBlankChunk chunk
  · rw [if_pos hblank]
    trivial
  · rw [if_neg hblank]
    refine (callless_perform _).bind fun _ ↦ ?_
    cases hfields : messageFields (parsedMessage parse chunk) with
    | error fault => trivial
    | ok fields =>
      obtain ⟨message, newUsername⟩ := fields
      show Callless (if dmCommand.isPrefixOf message then handleDirectMessage message client
        else handleChatMessage message newUsername client)
      rw [if_pos (hdirect message newUsername ⟨chunk, rfl, hblank, hfields⟩)]
      exact callless_handleDirectMessage message client

theorem callless_visitSlots {body : SessionId → ServerProgram Unit}
    (hbody : ∀ client, Callless (body client)) (remaining slot : ℕ) :
    Callless (visitSlots body remaining slot) := by
  induction remaining generalizing slot with
  | zero => trivial
  | succ remaining ih =>
    exact (callless_perform _).bind fun client ↦ (hbody client).bind fun _ ↦ ih (slot + 1)

/-- The code of an event that makes no broadcast and removes no session makes no calls. -/
theorem callless_program (parse : Bytes → Option Json) (registry : Registry) {event : Event}
    (hplain : event.Plain) : Callless (event.program parse registry) := by
  cases event with
  | start => exact (callless_perform _).bind fun _ ↦ callless_perform _
  | acceptCompletes result => trivial
  | readCompletes client result => trivial
  | runRead client result => exact hplain.elim
  | broadcast message excludeSocket => exact hplain.elim
  | runAccept result =>
    cases result with
    | error => trivial
    | success =>
      refine (callless_perform _).bind fun _ ↦
        (callless_perform _).bind fun (members : List SessionId) ↦
          (callless_perform _).bind fun (capacity : ℕ) ↦ ?_
      split_ifs
      · exact ((callless_perform _).bind fun _ ↦ callless_perform _).bind fun _ ↦ callless_perform _
      · refine (callless_perform _).bind fun _ ↦ (callless_perform _).bind fun _ ↦
          (callless_perform _).bind fun _ ↦ (callless_perform _).bind fun _ ↦
            (callless_perform _).bind fun (peerKnown : Bool) ↦ Callless.bind ?_ fun _ ↦
              (callless_perform _).bind fun _ ↦ callless_perform _
        split_ifs <;> trivial
  | shutdown =>
    refine (callless_perform _).bind fun _ ↦ (callless_perform _).bind fun _ ↦
      Callless.bind ?_ fun _ ↦ (callless_perform _).bind fun _ ↦
        (callless_perform _).bind fun _ ↦ callless_perform _
    exact (callless_perform _).bind fun members ↦ callless_visitSlots callless_closeIfOpen _ 0

end Callless

/-! ### What the functions report -/

section Functions

variable {setting : Setting} {depth : ℕ} {event : Event} {callers : List Procedure}
  {client : SessionId} {state middle after : State} {said : List Report} {message : Bytes}
  {excludeSocket : Option SessionId}

theorem says_lock (hlock : setting.CanLock state) :
    Says setting depth event callers lock state () [] (state.holding (state.held + 1)) :=
  says_of_callless (callless_perform _) (exec_lock setting depth state hlock)

/-- The removal under its own lock reports nothing. -/
theorem says_closeAndErase (hlock : setting.CanLock state) (client : SessionId) :
    Says setting depth event callers (closeAndErase client) state () [] (state.discard client) :=
  says_of_callless (callless_closeAndErase client)
    (exec_closeAndErase depth setting state hlock client)

theorem says_unlock (state : State) :
    Says setting depth event callers unlock state () [] (state.holding (state.held - 1)) :=
  says_perform rfl

theorem says_clients (state : State) :
    Says setting depth event callers clients state state.clients [] state :=
  says_perform rfl

theorem says_username (state : State) (client : SessionId) :
    Says setting depth event callers (username client) state (state.username client) [] state :=
  says_perform rfl

theorem says_enterHandleMessage (state : State) (jsonMessage : Json) (client : SessionId) :
    Says setting depth event callers (enterHandleMessage jsonMessage client) state () []
      (state.noteCall client jsonMessage) :=
  says_perform rfl

theorem says_setUsername (state : State) (client : SessionId) (newUsername : Bytes) :
    Says setting depth event callers (setUsername client newUsername) state () []
      (state.rename client newUsername) :=
  says_perform rfl

theorem says_readClientMessage (state : State) (client : SessionId) :
    Says setting depth event callers (readClientMessage client) state () []
      (state.startRead client) :=
  says_perform rfl

theorem says_tryToSendMessage (state : State) (client : SessionId) (message : Bytes) :
    Says setting depth event callers (tryToSendMessage client message) state
      (state.attempt setting.network client message).ok []
      (state.record [state.attempt setting.network client message]) :=
  says_perform rfl

/-- The loop passes over the excluded session. -/
theorem says_broadcastTo_of_excluded (state : State) (message : Bytes)
    (hexcluded : excludeSocket = some client) :
    Says setting depth event callers (broadcastTo message excludeSocket client) state () []
      state := by
  rw [broadcastTo, if_pos hexcluded]
  exact says_pure () state

/-- The loop goes on after a write that returned. -/
theorem says_broadcastTo_of_ok (hincluded : excludeSocket ≠ some client)
    (hok : (state.attempt setting.network client message).ok = true) :
    Says setting depth event callers (broadcastTo message excludeSocket client) state () []
      (state.record [state.attempt setting.network client message]) := by
  rw [broadcastTo, if_neg hincluded]
  refine (says_tryToSendMessage state client message).then ?_
  rw [if_pos hok]
  exact says_pure () _

/-- The loop removes the session after a write that failed. -/
theorem says_broadcastTo_of_failed (hincluded : excludeSocket ≠ some client)
    (hfailed : (state.attempt setting.network client message).ok ≠ true)
    (hremove : Says setting depth event callers (callRemoveClient client)
      (state.record [state.attempt setting.network client message]) () said after) :
    Says setting depth event callers (broadcastTo message excludeSocket client) state () said
      after := by
  rw [broadcastTo, if_neg hincluded]
  refine (says_tryToSendMessage state client message).then ?_
  rw [if_neg hfailed]
  exact hremove

/-- A broadcast reports its purpose and then what its loop reports. -/
theorem says_callBroadcastMessage (hlock : setting.CanLock state)
    (hloop : Says setting depth event (.broadcastMessage message excludeSocket :: callers)
      (forEachClient setting.walk (broadcastTo message excludeSocket))
      (state.holding (state.held + 1)) () said middle) (hheld : middle.held = state.held + 1) :
    Says setting (depth + 1) event callers (callBroadcastMessage message excludeSocket) state ()
      (((purposeOf event callers excludeSocket).map Report.broadcast).toList ++ said)
      (middle.holding state.held) := by
  have hunlock := @says_unlock setting depth event
    (.broadcastMessage message excludeSocket :: callers) middle
  rw [hheld, Nat.add_sub_cancel] at hunlock
  exact Says.call ((says_lock hlock).then (hloop.finish hunlock))

/-- The removal of a session without a name reports nothing. -/
theorem says_callRemoveClient_of_unnamed (hlock : setting.CanLock state)
    (hunnamed : state.username client = []) :
    Says setting (depth + 1) event callers (callRemoveClient client) state () []
      (state.discard client) := by
  have hreport : Deed.report ⟨event, callers, .call (.removeClient client), state⟩ = none :=
    if_pos (Or.inr hunnamed)
  have hbody : Says setting depth event (.removeClient client :: callers) (removeClient client)
      state () [] (state.discard client) := by
    refine (says_username state client).then ((says_username state client).then ?_)
    rw [if_pos hunnamed]
    exact (says_pure () state).then (says_closeAndErase hlock client)
  have hcall := Says.call hbody
  rw [hreport] at hcall
  exact hcall

/-- The removal of a session with a name reports what the announcement of its departure does. -/
theorem says_callRemoveClient_of_named (hnamed : state.username client ≠ [])
    (hbroadcast : Says setting depth event (.removeClient client :: callers)
      (callBroadcastMessage (disconnectedLine (state.username client)) (some client)) state ()
      said middle) (hlock : setting.CanLock middle) :
    Says setting (depth + 1) event callers (callRemoveClient client) state ()
      ((if callers.isEmpty then [] else [.loss client]) ++ said) (middle.discard client) := by
  have hreport : (Deed.report ⟨event, callers, .call (.removeClient client), state⟩).toList =
      if callers.isEmpty then [] else [.loss client] := by
    rw [Deed.report]
    by_cases hcallers : callers.isEmpty = true <;> simp [hcallers, hnamed]
  rw [← hreport]
  refine Says.call ?_
  refine (says_username state client).then ((says_username state client).then ?_)
  rw [if_neg hnamed]
  exact hbroadcast.finish (says_closeAndErase hlock client)

/-- A message of a session without a name is reported as the announcement of its name is. -/
theorem says_handleChatMessage_of_unnamed {newUsername : Bytes}
    (hunnamed : state.username client = [])
    (hbroadcast : Says setting depth event callers
      (callBroadcastMessage (joinedLine newUsername) none) (state.rename client newUsername) ()
      said after) :
    Says setting depth event callers (handleChatMessage message newUsername client) state () said
      after := by
  refine (says_username state client).then ?_
  rw [if_pos hunnamed]
  refine (says_setUsername state client newUsername).then ((says_username _ client).then ?_)
  rw [rename_username, Function.update_self]
  exact hbroadcast

/-- A message of a session with a name is reported as its relay is. -/
theorem says_handleChatMessage_of_named {newUsername : Bytes}
    (hnamed : state.username client ≠ [])
    (hbroadcast : Says setting depth event callers
      (callBroadcastMessage (chatLine (state.username client) message) (some client)) state ()
      said after) :
    Says setting depth event callers (handleChatMessage message newUsername client) state () said
      after := by
  refine (says_username state client).then ?_
  rw [if_neg hnamed]
  exact (says_username state client).then hbroadcast

/-- A message that is not a direct message is reported as its handling is. -/
theorem says_readHandler {parse : Bytes → Option Json} {chunk newUsername : Bytes}
    (hbrings : (Event.runRead client (.data chunk)).Brings parse client message newUsername)
    (hcommand : dmCommand.isPrefixOf message = false)
    (hchat : Says setting depth event [] (handleChatMessage message newUsername client)
      (state.handling parse client chunk) () said after) :
    Says setting depth event [] (readHandler parse client (.data chunk))
      ((Event.runRead client (.data chunk)).prepare state) () said (after.startRead client) := by
  obtain ⟨hblank, hfields⟩ := hbrings.fields
  have hhandle : Says setting depth event [] (handleMessage (parsedMessage parse chunk) client)
      ((Event.runRead client (.data chunk)).prepare state) () said after := by
    refine (says_enterHandleMessage _ _ _).then ?_
    rw [hfields]
    show Says setting depth event [] (if dmCommand.isPrefixOf message then
      handleDirectMessage message client else handleChatMessage message newUsername client) _ ()
        said after
    rw [if_neg (by rw [hcommand]; exact Bool.false_ne_true)]
    exact hchat
  have hread : Says setting depth event [] (if IsBlankChunk chunk then pure ()
      else handleMessage (parsedMessage parse chunk) client)
      ((Event.runRead client (.data chunk)).prepare state) () said after := by
    rw [if_neg hblank]
    exact hhandle
  exact hread.finish (says_readClientMessage after client)

/-- The loop visits a session if it is still in `m_clients`, and then the others. -/
theorem says_visitMembers_cons {body : SessionId → ServerProgram Unit} {rest : List SessionId}
    {later : List Report}
    (hvisit : Says setting depth event callers
      (if client ∈ state.clients then body client else pure ()) state () said middle)
    (hrest : Says setting depth event callers (visitMembers body rest) middle () later after) :
    Says setting depth event callers (visitMembers body (client :: rest)) state () (said ++ later)
      after :=
  (says_clients state).then (hvisit.bind hrest)

end Functions

/-! ### One session whose writes fail -/

/-- No write to another session fails. -/
def Network.FailsOnly (network : Network) (lost : SessionId) : Prop :=
  ∀ number client, client ≠ lost → network.write number client = .whole

/-- The sessions in `m_clients` are there once, and their sockets are open. -/
structure State.AllOpen (state : State) : Prop where
  nodup : state.clients.Nodup
  isOpen : ∀ client ∈ state.clients, state.isOpen client = true

/-- The reports about a session that is removed because a write to it failed. -/
def State.losses (state : State) (lost : SessionId) : List Report :=
  if state.username lost = [] then [] else [.loss lost, .broadcast (.departed lost)]

/-- What a broadcast reports besides itself, and leaves: nobody was removed, or the one session
whose writes fail. -/
inductive Losing (lost : SessionId) (excludeSocket : Option SessionId) (state : State) :
    List Report → State → Prop
  | nobody {after : State} (registry : after.toRegistry = state.toRegistry)
      (held : after.held = state.held) : Losing lost excludeSocket state [] after
  | lost {after : State} (member : lost ∈ state.clients) (included : excludeSocket ≠ some lost)
      (registry : after.toRegistry = state.toRegistry.without [lost])
      (held : after.held = state.held) :
      Losing lost excludeSocket state (state.losses lost) after

section OneLost

variable {network : Network} {depth : ℕ} {event : Event} {callers : List Procedure}
  {lost : SessionId} {state : State} {message : Bytes} {excludeSocket : Option SessionId}

/-- A loop that visits nobody whose writes fail reports nothing and removes nobody. -/
theorem says_visitMembers_of_ok (hfails : network.FailsOnly lost) {members : List SessionId}
    (hopen : ∀ client ∈ state.clients, excludeSocket ≠ some client →
      state.isOpen client = true ∧ client ≠ lost) :
    ∃ after, Says (completing network) depth event callers
        (visitMembers (broadcastTo message excludeSocket) members) state () [] after ∧
      after.toRegistry = state.toRegistry ∧ after.held = state.held := by
  induction members generalizing state with
  | nil => exact ⟨state, says_pure () state, rfl, rfl⟩
  | cons client rest ih =>
    have hvisit : ∃ middle, Says (completing network) depth event callers
          (if client ∈ state.clients then broadcastTo message excludeSocket client else pure ())
          state () [] middle ∧
        middle.toRegistry = state.toRegistry ∧ middle.held = state.held := by
      by_cases hmember : client ∈ state.clients
      · rw [if_pos hmember]
        by_cases hexcluded : excludeSocket = some client
        · exact ⟨state, says_broadcastTo_of_excluded state message hexcluded, rfl, rfl⟩
        · obtain ⟨hsocket, hne⟩ := hopen client hmember hexcluded
          have hok := attempt_ok_of_canWrite ⟨hsocket, hfails _ client hne⟩ message
          exact ⟨_, says_broadcastTo_of_ok hexcluded hok, rfl, rfl⟩
      · rw [if_neg hmember]
        exact ⟨state, says_pure () state, rfl, rfl⟩
    obtain ⟨middle, hspoken, hregistry, hheld⟩ := hvisit
    obtain ⟨after, hrest, hregistryRest, hheldRest⟩ := @ih middle (by rwa [hregistry])
    exact ⟨after, says_visitMembers_cons hspoken hrest, hregistryRest.trans hregistry,
      hheldRest.trans hheld⟩

/-- The removal of the one session whose writes fail, from inside a broadcast. -/
theorem says_callRemoveClient_of_lost (hfails : network.FailsOnly lost) (hopen : state.AllOpen)
    (hcallers : callers ≠ []) :
    ∃ after, Says (completing network) (depth + 2) event callers (callRemoveClient lost) state ()
        (state.losses lost) after ∧
      after.toRegistry = state.toRegistry.without [lost] ∧ after.held = state.held := by
  rw [State.losses]
  split_ifs with hunnamed
  · exact ⟨_, says_callRemoveClient_of_unnamed (canLock_reentrant .safe network _) hunnamed,
      discard_eq_without hopen.nodup lost, rfl⟩
  · have hothers : ∀ client ∈ state.clients, some lost ≠ some client →
        state.isOpen client = true ∧ client ≠ lost :=
      fun client hmember hne ↦
        ⟨hopen.isOpen client hmember, fun hsame ↦ hne (congrArg some hsame.symm)⟩
    obtain ⟨middle, hloop, hregistry, hheld⟩ := @says_visitMembers_of_ok network depth event
      (.broadcastMessage (disconnectedLine (state.username lost)) (some lost) ::
        .removeClient lost :: callers) lost (state.holding (state.held + 1))
      (disconnectedLine (state.username lost)) (some lost) hfails state.clients hothers
    have hbroadcast := says_callBroadcastMessage (canLock_reentrant .safe network state)
      ((says_clients _).then hloop) hheld
    have hspoken := says_callRemoveClient_of_named hunnamed hbroadcast
      (canLock_reentrant .safe network _)
    have hempty : callers.isEmpty = false := by simpa using hcallers
    rw [hempty] at hspoken
    refine ⟨_, hspoken, ?_, rfl⟩
    have hnodup : (middle.holding state.held).clients.Nodup := by
      show middle.toRegistry.clients.Nodup
      rw [hregistry]
      exact hopen.nodup
    rw [discard_eq_without hnodup lost]
    exact congrArg (Registry.without · [lost]) hregistry

/-- What is lost from a state with the same registry is lost from the state. -/
theorem Losing.of_eq {middle after : State} {said : List Report}
    (hlosing : Losing lost excludeSocket middle said after)
    (hregistry : middle.toRegistry = state.toRegistry) (hheld : middle.held = state.held) :
    Losing lost excludeSocket state said after := by
  cases hlosing with
  | nobody registry held => exact .nobody (registry.trans hregistry) (held.trans hheld)
  | lost member included registry held =>
    have hlosses : middle.losses lost = state.losses lost := by
      rw [State.losses, State.losses, hregistry]
    rw [hlosses]
    exact .lost (hregistry ▸ member) included (hregistry ▸ registry) (held.trans hheld)

/-- The visit of the session whose writes fail removes it. -/
theorem says_broadcastTo_of_lost (hfails : network.FailsOnly lost) (hopen : state.AllOpen)
    (hcallers : callers ≠ []) (hincluded : excludeSocket ≠ some lost)
    (hfailed : (state.attempt network lost message).ok ≠ true) :
    ∃ middle, Says (completing network) (depth + 2) event callers
        (broadcastTo message excludeSocket lost) state () (state.losses lost) middle ∧
      middle.toRegistry = state.toRegistry.without [lost] ∧ middle.held = state.held := by
  have hopenWritten : (state.record [state.attempt network lost message]).AllOpen :=
    ⟨hopen.nodup, hopen.isOpen⟩
  obtain ⟨middle, hremove, hregistry, hheld⟩ := @says_callRemoveClient_of_lost network depth
    event callers lost _ hfails hopenWritten hcallers
  exact ⟨middle, says_broadcastTo_of_failed hincluded hfailed hremove, hregistry, hheld⟩

/-- A loop loses nobody, or the one session whose writes fail. -/
theorem says_visitMembers_losing (hfails : network.FailsOnly lost) (hopen : state.AllOpen)
    (hcallers : callers ≠ []) (members : List SessionId) :
    ∃ said after, Says (completing network) (depth + 2) event callers
        (visitMembers (broadcastTo message excludeSocket) members) state () said after ∧
      Losing lost excludeSocket state said after := by
  induction members generalizing state with
  | nil => exact ⟨[], state, says_pure () state, .nobody rfl rfl⟩
  | cons client rest ih =>
    have hpass : ∀ {middle}, Says (completing network) (depth + 2) event callers
          (if client ∈ state.clients then broadcastTo message excludeSocket client else pure ())
          state () [] middle →
        middle.toRegistry = state.toRegistry → middle.held = state.held →
        ∃ said after, Says (completing network) (depth + 2) event callers
            (visitMembers (broadcastTo message excludeSocket) (client :: rest)) state () said
              after ∧
          Losing lost excludeSocket state said after := by
      intro middle hspoken hregistry hheld
      have hopenMiddle : middle.AllOpen := ⟨hregistry ▸ hopen.nodup, hregistry ▸ hopen.isOpen⟩
      obtain ⟨said, after, hrest, hlosing⟩ := ih hopenMiddle
      exact ⟨said, after, says_visitMembers_cons hspoken hrest, hlosing.of_eq hregistry hheld⟩
    by_cases hmember : client ∈ state.clients
    · rw [if_pos hmember] at hpass
      by_cases hexcluded : excludeSocket = some client
      · exact hpass (says_broadcastTo_of_excluded state message hexcluded) rfl rfl
      by_cases hok : (state.attempt network client message).ok = true
      · exact hpass (says_broadcastTo_of_ok hexcluded hok) rfl rfl
      · obtain rfl : client = lost := by
          by_contra hne
          exact hok (attempt_ok_of_canWrite
            ⟨hopen.isOpen client hmember, hfails _ client hne⟩ message)
        obtain ⟨middle, hspoken, hregistry, hheld⟩ := @says_broadcastTo_of_lost network depth
          event callers client state message excludeSocket hfails hopen hcallers hexcluded hok
        have hothers : ∀ other ∈ middle.clients, excludeSocket ≠ some other →
            middle.isOpen other = true ∧ other ≠ client := by
          intro other hother _
          rw [hregistry] at hother ⊢
          obtain ⟨hold, hkept⟩ := mem_clients_without.mp hother
          rw [isOpen_without_of_notMem hkept]
          exact ⟨hopen.isOpen other hold, List.ne_of_not_mem_cons hkept⟩
        obtain ⟨after, hrest, hregistryRest, hheldRest⟩ := @says_visitMembers_of_ok network
          (depth + 2) event callers client middle message excludeSocket hfails rest hothers
        have hvisit : Says (completing network) (depth + 2) event callers
            (if client ∈ state.clients then broadcastTo message excludeSocket client else pure ())
            state () (state.losses client) middle := by
          rw [if_pos hmember]
          exact hspoken
        refine ⟨_, after, says_visitMembers_cons hvisit hrest, ?_⟩
        rw [List.append_nil]
        exact .lost hmember hexcluded (hregistryRest.trans hregistry) (hheldRest.trans hheld)
    · rw [if_neg hmember] at hpass
      exact hpass (says_pure () state) rfl rfl

/-- A broadcast reports its purpose, and loses nobody or the one session whose writes fail. -/
theorem says_callBroadcastMessage_losing (hfails : network.FailsOnly lost) (hopen : state.AllOpen)
    (event : Event) (callers : List Procedure) (message : Bytes)
    (excludeSocket : Option SessionId) :
    ∃ said after, Says (completing network) (depth + 3) event callers
        (callBroadcastMessage message excludeSocket) state ()
        (((purposeOf event callers excludeSocket).map Report.broadcast).toList ++ said) after ∧
      Losing lost excludeSocket state said after := by
  have hopenHeld : (state.holding (state.held + 1)).AllOpen := ⟨hopen.nodup, hopen.isOpen⟩
  obtain ⟨said, middle, hloop, hlosing⟩ := @says_visitMembers_losing network depth event
    (.broadcastMessage message excludeSocket :: callers) lost _ message excludeSocket hfails
    hopenHeld (List.cons_ne_nil _ _) state.clients
  have hspoken := fun hheld ↦ says_callBroadcastMessage (canLock_reentrant .safe network state)
    ((says_clients _).then hloop) hheld
  cases hlosing with
  | nobody registry held => exact ⟨[], _, hspoken held, .nobody registry rfl⟩
  | lost member included registry held =>
    exact ⟨_, _, hspoken held, .lost member included registry rfl⟩

end OneLost

end KoboldKhat.Server
