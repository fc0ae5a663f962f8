import KoboldKhat.Server.Concurrent
import KoboldKhat.Server.Trace

/-!
# Where the lines come from

Which calls the code of an event can be inside (`Opened`), and what it writes there (`Writes`), said
with the event and the user names at that time. The code keeps to it as to a discipline
(`watch`, `ok_program`), in every setting and under every bound on nested calls, so it holds of all
deeds of all runs.

The context of the discipline are the user names and, between the assignment of a name and its
announcement, the session that has been named.
-/

set_option autoImplicit false
set_option relaxedAutoImplicit false

namespace KoboldKhat.Server

open Library

/-! ### The discipline -/

/-- The event hands a message and a user name from the client of a session to `handleMessage`. -/
def Event.Brings (parse : Bytes → Option Json) (event : Event) (client : SessionId)
    (message newUsername : Bytes) : Prop :=
  ∃ chunk, event = .runRead client (.data chunk) ∧ ¬ IsBlankChunk chunk ∧
    messageFields (parsedMessage parse chunk) = .ok (message, newUsername)

/-- The read handler of a chunk that brings a message finds it there. -/
theorem Event.Brings.fields {parse : Bytes → Option Json} {client : SessionId}
    {chunk message newUsername : Bytes}
    (hbrings : (Event.runRead client (.data chunk)).Brings parse client message newUsername) :
    ¬ IsBlankChunk chunk ∧
      messageFields (parsedMessage parse chunk) = .ok (message, newUsername) := by
  obtain ⟨_, hevent, hblank, hfields⟩ := hbrings
  obtain ⟨-, hresult⟩ := Event.runRead.inj hevent
  obtain rfl := ReadResult.data.inj hresult
  exact ⟨hblank, hfields⟩

/-- The calls that the code of an event can be inside, the innermost first. -/
inductive Opened (parse : Bytes → Option Json) (event : Event) (names : SessionId → Bytes) :
    List Procedure → Prop
  /-- The call from outside. -/
  | external (message : Bytes) (excludeSocket : Option SessionId)
      (isBroadcast : event = .broadcast message excludeSocket) :
      Opened parse event names [.broadcastMessage message excludeSocket]
  /-- The announcement of a name that has just been stored. -/
  | joined (client : SessionId) (message : Bytes)
      (brings : event.Brings parse client message (names client))
      (notCommand : dmCommand.isPrefixOf message = false) :
      Opened parse event names [.broadcastMessage (joinedLine (names client)) none]
  /-- The relay of a message of a session with a name. -/
  | relayed (client : SessionId) (message newUsername : Bytes)
      (brings : event.Brings parse client message newUsername)
      (notCommand : dmCommand.isPrefixOf message = false) (named : names client ≠ []) :
      Opened parse event names [.broadcastMessage (chatLine (names client) message) (some client)]
  /-- The removal of a session whose read failed. -/
  | readError (client : SessionId) (isError : event = .runRead client .error) :
      Opened parse event names [.removeClient client]
  /-- The removal of a session whose write failed. -/
  | failed (client : SessionId) (message : Bytes) (excludeSocket : Option SessionId)
      (rest : List Procedure)
      (opened : Opened parse event names (.broadcastMessage message excludeSocket :: rest))
      (included : excludeSocket ≠ some client) :
      Opened parse event names
        (.removeClient client :: .broadcastMessage message excludeSocket :: rest)
  /-- The announcement of a departure. -/
  | departed (client : SessionId) (rest : List Procedure)
      (opened : Opened parse event names (.removeClient client :: rest))
      (named : names client ≠ []) :
      Opened parse event names (.broadcastMessage (disconnectedLine (names client)) (some client) ::
        .removeClient client :: rest)

/-- The lines that the code of an event can write inside the given calls. -/
inductive Writes (parse : Bytes → Option Json) (event : Event) (names : SessionId → Bytes) :
    List Procedure → SessionId → Bytes → Prop
  /-- A broadcast writes its message to a session it does not exclude. -/
  | told (client : SessionId) (message : Bytes) (excludeSocket : Option SessionId)
      (rest : List Procedure)
      (opened : Opened parse event names (.broadcastMessage message excludeSocket :: rest))
      (included : excludeSocket ≠ some client) :
      Writes parse event names (.broadcastMessage message excludeSocket :: rest) client message
  /-- A direct message. -/
  | direct (client receiver : SessionId) (message newUsername : Bytes)
      (brings : event.Brings parse client message newUsername)
      (command : dmCommand.isPrefixOf message = true) :
      Writes parse event names [] receiver
        (directLine (names client) (parseDirectMessage message).2)
  /-- The notice that nobody has the recipient's name. -/
  | notFound (client : SessionId) (message newUsername : Bytes)
      (brings : event.Brings parse client message newUsername)
      (command : dmCommand.isPrefixOf message = true) :
      Writes parse event names [] client (notFoundLine (parseDirectMessage message).1)

/-- What is known while the code of an event runs. -/
structure Known where
  /-- The user names. -/
  names : SessionId → Bytes
  /-- The session whose name has been stored and not yet announced. -/
  fresh : Option SessionId := none

namespace Known

/-- The context after the user name of a session is assigned. -/
def rename (known : Known) (client : SessionId) (username : Bytes) : Known :=
  ⟨Function.update known.names client username, some client⟩

/-- The operations that the code of an event performs inside the given calls. A name is assigned
only to a session without one. -/
def Allows (parse : Bytes → Option Json) (event : Event) (callers : List Procedure)
    (known : Known) : Operation → Prop
  | .write client message => Writes parse event known.names callers client message
  | .registry (.setUsername client newUsername) => callers = [] ∧ known.fresh = none ∧
    known.names client = [] ∧ ∃ message, event.Brings parse client message newUsername ∧
      dmCommand.isPrefixOf message = false
  | _ => True

/-- What is known after a reply. -/
def next (known : Known) : (operation : Operation) → operation.Reply → Option Known
  | .registry (.username client), (reply : Bytes) =>
    if reply = known.names client then some known else none
  | .registry (.setUsername client newUsername), _ => some (known.rename client newUsername)
  | _, _ => some known

/-- A name that has been stored is announced before anything else is called. -/
def Settles (event : Event) (callers : List Procedure) (procedure : Procedure)
    (known : Known) : Prop :=
  ∀ client, known.fresh = some client → callers = [] ∧ (∃ result, event = .runRead client result) ∧
    procedure = .broadcastMessage (joinedLine (known.names client)) none

/-- What is known once a name is announced. -/
def settle (known : Known) : Known :=
  ⟨known.names, none⟩

end Known

@[simp] theorem Known.rename_names_self (known : Known) (client : SessionId)
    (newUsername : Bytes) : (known.rename client newUsername).names client = newUsername := by
  simp [Known.rename]

theorem Known.rename_names_of_ne (known : Known) {client other : SessionId}
    (hother : other ≠ client) (newUsername : Bytes) :
    (known.rename client newUsername).names other = known.names other := by
  simp [Known.rename, hother]

/-- A user name that is read is the one that is known. -/
theorem Known.of_username {known after : Known} {client : SessionId} {reply : Bytes}
    (hread : known.next (.registry (.username client)) reply = some after) :
    reply = known.names client ∧ after = known := by
  simp only [Known.next] at hread
  split_ifs at hread with hreply
  exact ⟨hreply, (Option.some.inj hread).symm⟩

/-- With no name to announce there is nothing to settle. -/
theorem Known.settle_eq_self {known : Known} (hsettled : known.fresh = none) :
    known.settle = known := by
  unfold Known.settle
  rw [← hsettled]

theorem Known.settles_of_settled {known : Known} (hsettled : known.fresh = none) (event : Event)
    (callers : List Procedure) (procedure : Procedure) :
    known.Settles event callers procedure := by
  intro client hfresh
  rw [hsettled] at hfresh
  cases hfresh

/-- The discipline of the code of an event inside the given calls. -/
def watch (parse : Bytes → Option Json) (event : Event) (callers : List Procedure) :
    Discipline signature Known where
  allowed := Known.Allows parse event callers
  next := Known.next
  before procedure known := Opened parse event known.names (procedure :: callers) ∧
    known.Settles event callers procedure
  called _ known := known.settle
  after _ known final := final = known.settle

/-! ### The programs keep it -/

/-- What the operations and the body of a loop over `m_clients` keep, the loop keeps. -/
theorem ok_forEachClient_of_kept {γ : Type} {discipline : Discipline signature γ}
    {body : SessionId → ServerProgram Unit} {holds : γ → Prop} {context : γ} (walk : Walk)
    (hclients : ∀ context, holds context →
      Performs discipline context (.registry .clients) fun _ after ↦ holds after)
    (hslot : ∀ slot context, holds context →
      Performs discipline context (.registry (.dereference slot)) fun _ after ↦ holds after)
    (hbody : ∀ client context, holds context →
      discipline.Ok (body client) context fun _ final ↦ holds final) (hholds : holds context) :
    discipline.Ok (forEachClient walk body) context fun _ final ↦ holds final := by
  refine Discipline.ok_bind.mpr ⟨(hclients context hholds).1, fun members after hafter ↦ ?_⟩
  have hstarted := (hclients context hholds).2 members after hafter
  clear hafter hholds
  cases walk with
  | slots =>
    show discipline.Ok (visitSlots body members.length 0) after _
    generalize members.length = remaining
    generalize 0 = slot
    induction remaining generalizing slot after with
    | zero => exact hstarted
    | succ remaining ih =>
      obtain ⟨hallowed, hnext⟩ := hslot slot after hstarted
      refine Discipline.ok_bind.mpr ⟨hallowed, fun client found hfound ↦ ?_⟩
      refine Discipline.ok_bind.mpr ((hbody client found (hnext client found hfound)).mono ?_)
      exact fun _ final hfinal ↦ ih final hfinal (slot + 1)
  | safe =>
    show discipline.Ok (visitMembers body members) after _
    induction members generalizing after with
    | nil => exact hstarted
    | cons client rest ih =>
      obtain ⟨hallowed, hnext⟩ := hclients after hstarted
      refine Discipline.ok_bind.mpr ⟨hallowed, fun present found hfound ↦ ?_⟩
      have hholds := hnext present found hfound
      refine Discipline.ok_bind.mpr ?_
      split
      · exact (hbody client found hholds).mono fun _ final hfinal ↦ ih final hfinal
      · exact ih found hholds

section Programs

variable {parse : Bytes → Option Json} {event : Event} {callers : List Procedure} {known : Known}

/-- A broadcast writes what it was called for, and removes sessions it does not exclude. -/
theorem ok_broadcastMessage_watch (walk : Walk) {message : Bytes}
    {excludeSocket : Option SessionId}
    (hopened : Opened parse event known.names
      (.broadcastMessage message excludeSocket :: callers)) (hsettled : known.fresh = none) :
    (watch parse event (.broadcastMessage message excludeSocket :: callers)).Ok
      (broadcastMessage walk message excludeSocket) known fun _ final ↦ final = known := by
  have hbody : ∀ client context, context = known →
      (watch parse event (.broadcastMessage message excludeSocket :: callers)).Ok
        (broadcastTo message excludeSocket client) context fun _ final ↦ final = known := by
    rintro client _ rfl
    unfold broadcastTo
    split
    · exact rfl
    · rename_i hincluded
      refine Discipline.ok_bind.mpr ⟨.told client message _ _ hopened hincluded, ?_⟩
      rintro sent _ hafter
      obtain rfl := Option.some.inj hafter
      cases sent with
      | true => exact rfl
      | false =>
        refine ⟨⟨.failed client message _ _ hopened hincluded, ?_⟩, fun final hfinal ↦ ?_⟩
        · exact Known.settles_of_settled hsettled _ _ _
        · exact hfinal.trans (Known.settle_eq_self hsettled)
  refine Discipline.ok_bind.mpr ⟨trivial, fun _ locked hlocked ↦ ?_⟩
  obtain rfl := Option.some.inj hlocked
  refine Discipline.ok_bind.mpr ((ok_forEachClient_of_kept walk ?_ ?_ hbody rfl).mono ?_)
  · rintro _ rfl
    exact ⟨trivial, fun _ _ hafter ↦ (Option.some.inj hafter).symm⟩
  · rintro slot _ rfl
    exact ⟨trivial, fun _ _ hafter ↦ (Option.some.inj hafter).symm⟩
  · rintro _ _ rfl
    exact ⟨trivial, fun _ _ hafter ↦ (Option.some.inj hafter).symm⟩

/-- A socket is closed without a word. -/
theorem ok_closeIfOpen_watch (client : SessionId) :
    (watch parse event callers).Ok (closeIfOpen client) known fun _ final ↦ final = known := by
  simp [closeIfOpen, Performs, watch, Known.Allows, Known.next]

/-- A session is erased without a word. -/
theorem ok_eraseClient_watch (client : SessionId) :
    (watch parse event callers).Ok (eraseClient client) known fun _ final ↦ final = known := by
  simp only [eraseClient, Discipline.ok_bind, ok_clients]
  refine ⟨trivial, fun members read hread ↦ ?_⟩
  obtain rfl := Option.some.inj hread
  split
  · exact ⟨trivial, fun _ _ hafter ↦ (Option.some.inj hafter).symm⟩
  · rfl

/-- A session is closed and erased without a word. -/
theorem ok_closeAndErase_watch (client : SessionId) :
    (watch parse event callers).Ok (closeAndErase client) known fun _ final ↦ final = known := by
  refine Discipline.ok_bind.mpr ⟨trivial, fun _ locked hlocked ↦ ?_⟩
  obtain rfl := Option.some.inj hlocked
  refine Discipline.ok_bind.mpr ((ok_closeIfOpen_watch client).mono ?_)
  rintro _ _ rfl
  refine Discipline.ok_bind.mpr ((ok_eraseClient_watch client).mono ?_)
  rintro _ _ rfl
  exact ⟨trivial, fun _ _ hafter ↦ (Option.some.inj hafter).symm⟩

/-- A removal announces the departure of a session with a name. -/
theorem ok_removeClient_watch {client : SessionId}
    (hopened : Opened parse event known.names (.removeClient client :: callers))
    (hsettled : known.fresh = none) :
    (watch parse event (.removeClient client :: callers)).Ok (removeClient client) known
      fun _ final ↦ final = known := by
  refine Discipline.ok_bind.mpr ⟨trivial, fun clientUsername read hread ↦ ?_⟩
  obtain ⟨rfl, rfl⟩ := Known.of_username hread
  refine Discipline.ok_bind.mpr ⟨trivial, fun stored read hread ↦ ?_⟩
  obtain ⟨rfl, rfl⟩ := Known.of_username hread
  refine Discipline.ok_bind.mpr ?_
  split
  · exact ok_closeAndErase_watch client
  · rename_i hnamed
    refine ⟨⟨.departed client callers hopened hnamed, ?_⟩, fun told htold ↦ ?_⟩
    · exact Known.settles_of_settled hsettled _ _ _
    · obtain rfl := htold.trans (Known.settle_eq_self hsettled)
      exact ok_closeAndErase_watch client

/-- Looking for a user name leaves what is known as it is. -/
theorem ok_findByUsername_watch (recipient : Bytes) (members : List SessionId) (slot : ℕ) :
    (watch parse event callers).Ok (findByUsername recipient members slot) known fun _ final ↦
      final = known := by
  induction members generalizing slot with
  | nil => rfl
  | cons client rest ih =>
    refine Discipline.ok_bind.mpr ⟨trivial, fun (name : Bytes) read hread ↦ ?_⟩
    obtain ⟨rfl, rfl⟩ := Known.of_username hread
    show (watch parse event callers).Ok (if read.names client = recipient then _ else _) read _
    split
    · rfl
    · exact ih (slot + 1)

/-- The line of a direct message is told apart by the name of its sender. -/
theorem ok_handleDirectMessage_watch {client : SessionId} {message newUsername : Bytes}
    (hbrings : event.Brings parse client message newUsername)
    (hcommand : dmCommand.isPrefixOf message = true) :
    (watch parse event []).Ok (handleDirectMessage message client) known fun _ final ↦
      final = known := by
  have hdirect := fun receiver ↦
    @Writes.direct parse event known.names client receiver message newUsername hbrings hcommand
  have hnotFound := @Writes.notFound parse event known.names client message newUsername hbrings
    hcommand
  unfold handleDirectMessage
  generalize parseDirectMessage message = parsed at hdirect hnotFound ⊢
  obtain ⟨recipient, dmMessage⟩ := parsed
  refine Discipline.ok_bind.mpr ⟨trivial, fun _ locked hlocked ↦ ?_⟩
  obtain rfl := Option.some.inj hlocked
  refine Discipline.ok_bind.mpr ⟨trivial, fun members read hread ↦ ?_⟩
  obtain rfl := Option.some.inj hread
  refine Discipline.ok_bind.mpr ((ok_findByUsername_watch recipient members 0).mono ?_)
  rintro it looked rfl
  have hunlock : ∀ (_ : Unit) final, final = looked → (watch parse event []).Ok Server.unlock final
      fun _ final ↦ final = looked := by
    rintro _ _ rfl
    exact ⟨trivial, fun _ _ hafter ↦ (Option.some.inj hafter).symm⟩
  refine Discipline.ok_bind.mpr ?_
  cases it with
  | some slot =>
    refine Discipline.Ok.mono ?_ hunlock
    refine Discipline.ok_bind.mpr ⟨trivial, fun sender read hread ↦ ?_⟩
    obtain ⟨rfl, rfl⟩ := Known.of_username hread
    refine Discipline.ok_bind.mpr ⟨trivial, fun receiver read hread ↦ ?_⟩
    obtain rfl := Option.some.inj hread
    refine Discipline.ok_bind.mpr ⟨hdirect receiver, fun sent after hafter ↦ ?_⟩
    obtain rfl := Option.some.inj hafter
    refine Discipline.ok_bind.mpr ⟨trivial, fun logged read hread ↦ ?_⟩
    obtain rfl := Option.some.inj hread
    refine Discipline.ok_bind.mpr ⟨trivial, fun name read hread ↦ ?_⟩
    obtain ⟨rfl, rfl⟩ := Known.of_username hread
    rfl
  | none =>
    refine Discipline.Ok.mono ?_ hunlock
    refine Discipline.ok_bind.mpr ⟨hnotFound, fun sent after hafter ↦ ?_⟩
    obtain rfl := Option.some.inj hafter
    refine Discipline.ok_bind.mpr ⟨trivial, fun logged read hread ↦ ?_⟩
    obtain rfl := Option.some.inj hread
    refine Discipline.ok_bind.mpr ⟨trivial, fun name read hread ↦ ?_⟩
    obtain ⟨rfl, rfl⟩ := Known.of_username hread
    rfl

/-- Every other message is announced or relayed. -/
theorem ok_handleChatMessage_watch {client : SessionId} {message newUsername : Bytes}
    (hbrings : event.Brings parse client message newUsername)
    (hcommand : dmCommand.isPrefixOf message = false) (hsettled : known.fresh = none) :
    (watch parse event []).Ok (handleChatMessage message newUsername client) known fun _ final ↦
      final.fresh = none := by
  refine Discipline.ok_bind.mpr ⟨trivial, fun (stored : Bytes) read hread ↦ ?_⟩
  obtain ⟨rfl, rfl⟩ := Known.of_username hread
  show (watch parse event []).Ok (if read.names client = [] then _ else _) read _
  split
  · rename_i hunnamed
    have hallowed : read.Allows parse event [] (.registry (.setUsername client newUsername)) :=
      ⟨rfl, hsettled, hunnamed, message, hbrings, hcommand⟩
    refine Discipline.ok_bind.mpr ⟨hallowed, fun _ named hnamed ↦ ?_⟩
    obtain rfl := Option.some.inj hnamed
    refine Discipline.ok_bind.mpr ⟨trivial, fun name known hknown ↦ ?_⟩
    obtain ⟨rfl, rfl⟩ := Known.of_username hknown
    have hstored := read.rename_names_self client newUsername
    refine ⟨⟨.joined client message (hstored.symm ▸ hbrings) hcommand, ?_⟩, ?_⟩
    · rintro other hfresh
      obtain rfl : client = other := Option.some.inj hfresh
      obtain ⟨chunk, hevent, -⟩ := hbrings
      exact ⟨rfl, ⟨_, hevent⟩, rfl⟩
    · rintro _ rfl
      rfl
  · rename_i hnamed
    refine Discipline.ok_bind.mpr ⟨trivial, fun name read hread ↦ ?_⟩
    obtain ⟨rfl, rfl⟩ := Known.of_username hread
    refine ⟨⟨.relayed client message newUsername hbrings hcommand hnamed, ?_⟩, ?_⟩
    · exact Known.settles_of_settled hsettled _ _ _
    · rintro _ rfl
      rfl

/-- The read handler keeps to its message. -/
theorem ok_readHandler_watch (client : SessionId) (result : ReadResult)
    (hevent : event = .runRead client result) (hsettled : known.fresh = none) :
    (watch parse event []).Ok (readHandler parse client result) known fun _ final ↦
      final.fresh = none := by
  cases result with
  | error =>
    refine ⟨⟨.readError client hevent, Known.settles_of_settled hsettled _ _ _⟩, ?_⟩
    rintro _ rfl
    rfl
  | data chunk =>
    have hmessage : (watch parse event []).Ok (if IsBlankChunk chunk then pure ()
        else handleMessage (parsedMessage parse chunk) client) known fun _ final ↦
          final.fresh = none := by
      split
      · exact hsettled
      · rename_i hblank
        refine Discipline.ok_bind.mpr ⟨trivial, fun _ entered hentered ↦ ?_⟩
        obtain rfl := Option.some.inj hentered
        cases hfields : messageFields (parsedMessage parse chunk) with
        | error reason => trivial
        | ok fields =>
          obtain ⟨message, newUsername⟩ := fields
          have hbrings : event.Brings parse client message newUsername :=
            ⟨chunk, hevent, hblank, hfields⟩
          show (watch parse event []).Ok (if dmCommand.isPrefixOf message then _ else _) _ _
          split
          · rename_i hcommand
            refine (ok_handleDirectMessage_watch hbrings hcommand).mono ?_
            rintro _ _ rfl
            exact hsettled
          · rename_i hcommand
            exact ok_handleChatMessage_watch hbrings (Bool.not_eq_true _ ▸ hcommand) hsettled
    refine Discipline.ok_bind.mpr (hmessage.mono fun _ final hfinal ↦ ⟨trivial, ?_⟩)
    intro _ after hafter
    obtain rfl := Option.some.inj hafter
    exact hfinal

/-- Shutting down sends nothing. -/
theorem ok_shutdown_watch :
    (watch parse event callers).Ok shutdown known fun _ final ↦ final = known := by
  have hquiet : ∀ operation context, context = known →
      (∀ reply, context.next operation reply = some context) →
      context.Allows parse event callers operation →
      Performs (watch parse event callers) context operation fun _ after ↦ after = known := by
    rintro operation _ rfl hnext hallowed
    refine ⟨hallowed, fun reply after hafter ↦ ?_⟩
    exact Option.some.inj (hafter.symm.trans (hnext reply))
  refine Discipline.ok_bind.mpr ⟨trivial, fun _ stopping hstopping ↦ ?_⟩
  obtain rfl := Option.some.inj hstopping
  refine Discipline.ok_bind.mpr ⟨trivial, fun _ locked hlocked ↦ ?_⟩
  obtain rfl := Option.some.inj hlocked
  have hloop := @ok_forEachClient_of_kept Known (watch parse event callers) closeIfOpen
    (fun context ↦ context = known) known .slots
    (fun context hcontext ↦ hquiet _ context hcontext (fun _ ↦ rfl) trivial)
    (fun _ context hcontext ↦ hquiet _ context hcontext (fun _ ↦ rfl) trivial)
    (fun client context hcontext ↦ hcontext ▸ ok_closeIfOpen_watch client) rfl
  refine Discipline.ok_bind.mpr (hloop.mono ?_)
  rintro _ _ rfl
  refine Discipline.ok_bind.mpr ⟨trivial, fun _ cleared hcleared ↦ ?_⟩
  obtain rfl := Option.some.inj hcleared
  refine Discipline.ok_bind.mpr ⟨trivial, fun _ closed hclosed ↦ ?_⟩
  obtain rfl := Option.some.inj hclosed
  exact ⟨trivial, fun _ _ hafter ↦ (Option.some.inj hafter).symm⟩

/-- The accept handler sends nothing. -/
theorem ok_acceptHandler_watch (newSocket : SessionId) (result : AcceptResult) :
    (watch parse event callers).Ok (acceptHandler newSocket result) known fun _ final ↦
      final = known := by
  cases result with
  | error => rfl
  | success =>
    simp [acceptHandler, rejectConnection, admitConnection, readClientMessage, acceptConnections,
      Performs, watch, Known.Allows, Known.next]

/-- The code of every event keeps the discipline. -/
theorem ok_program (registry : Registry) (event : Event) (hsettled : known.fresh = none) :
    (watch parse event []).Ok (event.program parse registry) known fun _ final ↦
      final.fresh = none := by
  cases event with
  | start => simp [Event.program, start, acceptConnections, Performs, watch, Known.Allows,
      Known.next, hsettled]
  | acceptCompletes result => exact hsettled
  | readCompletes client result => exact hsettled
  | runAccept result =>
    refine (ok_acceptHandler_watch registry.accepted result).mono ?_
    rintro _ _ rfl
    exact hsettled
  | runRead client result => exact ok_readHandler_watch client result rfl hsettled
  | broadcast message excludeSocket =>
    refine ⟨⟨.external message excludeSocket rfl, Known.settles_of_settled hsettled _ _ _⟩, ?_⟩
    rintro _ rfl
    rfl
  | shutdown =>
    refine ok_shutdown_watch.mono ?_
    rintro _ _ rfl
    exact hsettled

/-- The bodies of the procedures keep the discipline of the code inside them. -/
theorem ok_procedureBody (walk : Walk) {procedure : Procedure}
    (hbefore : (watch parse event callers).before procedure known) :
    (watch parse event (procedure :: callers)).Ok (procedureBody walk procedure)
      ((watch parse event callers).called procedure known)
      fun _ final ↦ (watch parse event callers).after procedure known final := by
  cases procedure with
  | broadcastMessage message excludeSocket =>
    exact ok_broadcastMessage_watch walk hbefore.1 rfl
  | removeClient client => exact ok_removeClient_watch hbefore.1 rfl

end Programs

/-! ### Every deed keeps to it -/

/-- The operation is not the assignment of a user name. -/
def Operation.KeepsNames (operation : Operation) : Prop :=
  ∀ client newUsername, operation ≠ .registry (.setUsername client newUsername)

/-- A property of the deeds so far, with what is known, that every deed keeps. -/
structure Chronicle (parse : Bytes → Option Json) (kept : List Deed → Known → Prop) : Prop where
  /-- An operation that assigns no user name keeps it. -/
  operated : ∀ {deeds known event callers operation} {state : State}, kept deeds known →
    state.username = known.names → operation.KeepsNames →
    kept (deeds ++ [⟨event, ⟨callers, .perform operation, state⟩⟩]) known
  /-- The assignment of a user name keeps it. -/
  named : ∀ {deeds known event callers client newUsername} {state : State}, kept deeds known →
    state.username = known.names →
    known.Allows parse event callers (.registry (.setUsername client newUsername)) →
    kept (deeds ++
      [⟨event, ⟨callers, .perform (.registry (.setUsername client newUsername)), state⟩⟩])
      (known.rename client newUsername)
  /-- A call keeps it. -/
  called : ∀ {deeds known event callers procedure} {state : State}, kept deeds known →
    state.username = known.names → (watch parse event callers).before procedure known →
    kept (deeds ++ [⟨event, ⟨callers, .call procedure, state⟩⟩]) known.settle

/-- A deed that goes with the deeds before it and with what is known then. -/
def Deed.Accounted (parse : Bytes → Option Json) (kept : List Deed → Known → Prop)
    (earlier : List Deed) (deed : Deed) : Prop :=
  ∃ known, kept earlier known ∧ deed.moment.state.username = known.names ∧
    Semantics.Permits (watch parse deed.event deed.moment.callers) known deed.moment.action

section Deeds

variable {setting : Setting} {depth : ℕ} {parse : Bytes → Option Json} {event : Event}
  {state first last : State} {known : Known} {kept : List Deed → Known → Prop}
  {events : List Event} {deeds : List Deed}

/-- Replies tell the user names as they are, and only an assignment changes them. -/
theorem perform_names (hnames : state.username = known.names) (operation : Operation) :
    (perform setting operation state).Satisfies
      (fun value after ↦ ∃ next, known.next operation value = some next ∧
        after.username = next.names ∧ (operation.KeepsNames ∧ next = known ∨
          ∃ client newUsername, operation = .registry (.setUsername client newUsername) ∧
            next = known.rename client newUsername))
      (fun _ after ↦ after.username = known.names ∧ operation.KeepsNames) := by
  cases operation with
  | lock =>
    simp only [perform]
    split_ifs
    · exact ⟨hnames, by rintro _ _ ⟨⟩⟩
    · exact ⟨known, rfl, hnames, Or.inl ⟨by rintro _ _ ⟨⟩, rfl⟩⟩
  | registry operation =>
    cases operation with
    | dereference slot =>
      simp only [perform, registryStep]
      cases state.clients[slot]?.or setting.pastEnd with
      | none => exact ⟨hnames, by rintro _ _ ⟨⟩⟩
      | some client => exact ⟨known, rfl, hnames, Or.inl ⟨by rintro _ _ ⟨⟩, rfl⟩⟩
    | username client =>
      exact ⟨known, if_pos (congrFun hnames client), hnames, Or.inl ⟨by rintro _ _ ⟨⟩, rfl⟩⟩
    | setUsername client newUsername =>
      refine ⟨known.rename client newUsername, rfl, ?_, Or.inr ⟨client, newUsername, rfl, rfl⟩⟩
      exact congrArg (fun names ↦ Function.update names client newUsername) hnames
    | _ => exact ⟨known, rfl, hnames, Or.inl ⟨by rintro _ _ ⟨⟩, rfl⟩⟩
  | _ => exact ⟨known, rfl, hnames, Or.inl ⟨by rintro _ _ ⟨⟩, rfl⟩⟩

/-- The deeds of an event after others keep a chronicle. -/
theorem Chronicle.records (hchronicle : Chronicle parse kept) (deeds : List Deed) (event : Event) :
    Semantics.Records (semantics setting) (watch parse event) fun past state known ↦
      kept (deeds ++ past.map (Deed.mk event)) known ∧ state.username = known.names where
  reply := by
    rintro past state known callers operation ⟨hkept, hnames⟩ hallowed
    refine (perform_names hnames operation).mono ?_ ?_
    · rintro value after ⟨next, hnext, hafter, hquiet | ⟨client, newUsername, rfl, rfl⟩⟩
      · obtain ⟨hkeeps, rfl⟩ := hquiet
        refine ⟨next, hnext, ?_, hafter⟩
        rw [List.map_append, ← List.append_assoc]
        exact hchronicle.operated hkept hnames hkeeps
      · refine ⟨_, hnext, ?_, hafter⟩
        rw [List.map_append, ← List.append_assoc]
        exact hchronicle.named hkept hnames hallowed
    · rintro fault after ⟨hafter, hkeeps⟩
      refine ⟨known, ?_, hafter⟩
      rw [List.map_append, ← List.append_assoc]
      exact hchronicle.operated hkept hnames hkeeps
  call := by
    rintro past state known callers procedure ⟨hkept, hnames⟩ hbefore
    refine ⟨?_, hnames⟩
    rw [List.map_append, ← List.append_assoc]
    exact hchronicle.called hkept hnames hbefore
  body := fun hbefore ↦ ok_procedureBody setting.walk hbefore

/-- Nothing that happens before the code of an event runs changes a user name. -/
theorem prepare_username (event : Event) (state : State) :
    (event.prepare state).username = state.username := by
  cases event with
  | runAccept result => cases result <;> rfl
  | _ => rfl

/-- The deeds of an event are accounted for, and if it returned no name is left to announce. -/
theorem Chronicle.step (hchronicle : Chronicle parse kept)
    (hkept : kept deeds ⟨state.username, none⟩) (event : Event) :
    Justified (Deed.Accounted parse kept) deeds (deedsAt setting depth parse event state) ∧
      (stepAt setting depth parse event state).Satisfies
        (fun _ after ↦ kept (deeds ++ deedsAt setting depth parse event state)
          ⟨after.username, none⟩)
        (fun _ after ↦ ∃ known, kept (deeds ++ deedsAt setting depth parse event state) known ∧
          after.username = known.names) := by
  have hok : (watch parse event []).Ok (event.program parse state.toRegistry)
      ⟨state.username, none⟩ fun _ final ↦ final.fresh = none := ok_program _ event rfl
  have hprepared : kept (deeds ++ [].map (Deed.mk event)) ⟨state.username, none⟩ := by
    rwa [List.map_nil, List.append_nil]
  obtain ⟨hpermitted, hends⟩ := (@Chronicle.records setting _ _ hchronicle deeds event).trace depth
    hok ⟨hprepared, prepare_username event state⟩
  constructor
  · have hjustified := @Justified.map _ _ _ _ (Deed.Accounted parse kept) _ (Deed.mk event) deeds
      hpermitted fun past moment ⟨known, ⟨hknown, hnames⟩, hpermits⟩ ↦
        ⟨known, hknown, hnames, hpermits⟩
    rwa [List.map_nil, List.append_nil] at hjustified
  · refine hends.mono ?_ ?_
    · rintro _ after ⟨⟨names, fresh⟩, hfresh, hafter, hnames⟩
      rw [hnames]
      exact hfresh ▸ hafter
    · rintro _ after ⟨known, hafter, hnames⟩
      exact ⟨known, hafter, hnames⟩

/-- The deeds of a run are accounted for. -/
theorem Chronicle.traced (hchronicle : Chronicle parse kept)
    (hfirst : kept [] ⟨first.username, none⟩)
    (hrun : Traced setting depth parse first events deeds last) :
    Justified (Deed.Accounted parse kept) [] deeds ∧ kept deeds ⟨last.username, none⟩ := by
  induction hrun with
  | nil => exact ⟨trivial, hfirst⟩
  | snoc run enabled returned ih =>
    obtain ⟨hearlier, hkept⟩ := ih
    obtain ⟨hlater, hends⟩ := hchronicle.step hkept _
    rw [returned] at hends
    exact ⟨justified_append.mpr ⟨hearlier, hlater⟩, hends⟩

/-- The deeds of a run whose last event may have stopped are accounted for. -/
theorem Chronicle.ends (hchronicle : Chronicle parse kept) (hfirst : kept [] ⟨first.username, none⟩)
    (hends : TracedEnds setting depth parse first events deeds last) :
    Justified (Deed.Accounted parse kept) [] deeds ∧
      ∃ known, kept deeds known ∧ last.username = known.names := by
  cases hends with
  | returned run =>
    obtain ⟨hdeeds, hkept⟩ := hchronicle.traced hfirst run
    exact ⟨hdeeds, _, hkept, rfl⟩
  | stopped run enabled stops =>
    obtain ⟨hearlier, hkept⟩ := hchronicle.traced hfirst run
    obtain ⟨hlater, hends⟩ := hchronicle.step hkept _
    rw [stops] at hends
    exact ⟨justified_append.mpr ⟨hearlier, hlater⟩, hends⟩

/-- Nothing but the user names has to be known to account for the deeds of a run. -/
theorem trivial_chronicle : Chronicle parse fun _ _ ↦ True where
  operated := fun _ _ _ ↦ trivial
  named := fun _ _ _ ↦ trivial
  called := fun _ _ _ ↦ trivial

/-- Every write of a run is one of those that the code of its event can make. -/
theorem TracedEnds.writes (hends : TracedEnds setting depth parse first events deeds last)
    {deed : Deed} (hdeed : deed ∈ deeds) {client : SessionId} {line : Bytes}
    (hwrite : (client, line) ∈ deed.writes) :
    Writes parse deed.event deed.moment.state.username deed.moment.callers client line := by
  obtain ⟨earlier, later, hsplit⟩ := List.append_of_mem hdeed
  obtain ⟨haccounted, -⟩ := trivial_chronicle.ends trivial hends
  obtain ⟨known, -, hnames, hpermits⟩ := haccounted.at hsplit
  obtain ⟨event, callers, action, state⟩ := deed
  cases action with
  | call procedure => cases hwrite
  | perform operation =>
    cases operation with
    | write receiver message =>
      obtain ⟨rfl, rfl⟩ := Prod.mk.inj (List.mem_singleton.mp hwrite)
      rw [hnames]
      exact hpermits
    | _ => cases hwrite

end Deeds

end KoboldKhat.Server
