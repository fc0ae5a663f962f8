import KoboldKhat.Server.Concurrent

/-!
# The discipline of writing lines

What a thread of the server keeps to, whatever the other threads do: it writes, and reads and
changes `m_clients`, only while it owns the mutex, and within one call it writes only one text, to
slots of `m_clients` it has not passed. Every program of the server keeps this discipline. A write
that throws inside a broadcast ends in a lock that its thread holds already, so what comes after it
in the loop is never reached.
-/

set_option autoImplicit false
set_option relaxedAutoImplicit false

namespace KoboldKhat.Server

open Library

/-! ### The discipline -/

/-- What a thread has sent in its call so far. -/
inductive Progress
  /-- Nothing. -/
  | nothing
  /-- A text, to sessions in slots of `m_clients` below a bound. -/
  | slots (text : Bytes) (bound : ℕ)
  /-- All that the call sends. -/
  | complete

/-- A call that has sent something sends no more once `m_clients` may have changed. -/
def Progress.close : Progress → Progress
  | nothing => nothing
  | _ => complete

theorem Progress.close_eq_nothing {progress : Progress} :
    progress.close = .nothing ↔ progress = .nothing := by
  cases progress <;> simp [close]

theorem Progress.close_ne_slots (progress : Progress) (text : Bytes) (bound : ℕ) :
    progress.close ≠ .slots text bound := by
  cases progress <;> simp [close]

/-- What a thread knows about the mutex and the line it sends. -/
structure LineContext where
  /-- The thread owns `m_clientsMutex`. -/
  owns : Bool := false
  /-- The thread is in a write. -/
  writing : Bool := false
  /-- The new session of an accept handler, until it is in `m_clients`. -/
  newSocket : Option SessionId := none
  /-- The number of slots that `m_clients` is known to have. -/
  size : ℕ := 0
  /-- The slot of `m_clients` read last, if it is known to be there, and the session in it. -/
  found : Option (ℕ × SessionId) := none
  /-- What the call has sent. -/
  progress : Progress := .nothing

namespace LineContext

/-- The text may be written to the session: it is the first write of the call, or another one of
the same text to a slot beyond those written to. -/
def MayWrite (context : LineContext) (client : SessionId) (message : Bytes) : Prop :=
  context.progress = .nothing ∨ ∃ bound slot, context.progress = .slots message bound ∧
    context.found = some (slot, client) ∧ bound ≤ slot

/-- The context once a write of the text to the session has begun. -/
def write (context : LineContext) (client : SessionId) (message : Bytes) : LineContext :=
  { context with
    writing := true
    progress := match context.found with
      | some (slot, found) => if found = client then .slots message (slot + 1) else .complete
      | none => .complete }

theorem write_progress_ne_nothing (context : LineContext) (client : SessionId) (message : Bytes) :
    (context.write client message).progress ≠ .nothing := by
  unfold write
  dsimp only
  split
  · split <;> exact Progress.noConfusion
  · exact Progress.noConfusion

/-- The context of a thread that may not rely on `m_clients` being as it was. -/
def changed (context : LineContext) (owns : Bool) : LineContext :=
  { context with owns := owns, size := 0, found := none, progress := context.progress.close }

/-- Writes and the use of `m_clients` are for the owner of the mutex. -/
def Allows (context : LineContext) : Operation → Prop
  | .unlock => context.owns = true ∧ context.writing = false
  | .write client message => context.writing = true ∨
    (context.owns = true ∧ context.MayWrite client message)
  | .registry .clients => context.owns = true
  | .registry (.dereference _) => context.owns = true
  | .registry (.pushBack client) => context.owns = true ∧ context.newSocket = some client
  | .registry (.erase _) => context.owns = true
  | .registry .clear => context.owns = true
  | _ => True

/-- What a thread knows after a reply. No reply to `lock` comes to the owner of the mutex. -/
def next (context : LineContext) : (operation : Operation) → operation.Reply → Option LineContext
  | .lock, _ => if context.owns then none
    else some (context.changed true)
  | .unlock, _ => some (context.changed false)
  | .write client message, _ => some
    { (if context.writing then context else context.write client message) with writing := false }
  | .registry .clients, members => some { context with size := members.length }
  | .registry (.dereference slot), client => some
    { context with found := if slot < context.size then some (slot, client) else none }
  | .registry (.pushBack _), _ => some { context with newSocket := none }
  | .registry (.erase _), _ => some (context.changed context.owns)
  | .registry .clear, _ => some (context.changed context.owns)
  | _, _ => some context

/-- The thread does not own the mutex and is in no write. -/
def Free (context : LineContext) : Prop :=
  context.owns = false ∧ context.writing = false

/-- The thread owns the mutex and is in no write. -/
def Locked (context : LineContext) : Prop :=
  context.owns = true ∧ context.writing = false

/-- The thread owns the mutex, knows the number of slots, and may write the text to every slot from
one on. -/
def Ready (message : Bytes) (size slot : ℕ) (context : LineContext) : Prop :=
  context.Locked ∧ context.size = size ∧ (context.progress = .nothing ∨
    ∃ bound, context.progress = .slots message bound ∧ bound ≤ slot)

end LineContext

/-- The discipline of writing lines. A call starts a line of its own, and returns only to a thread
that did not own the mutex when it called. -/
def lineDiscipline : Discipline signature LineContext where
  allowed := LineContext.Allows
  next := LineContext.next
  before _ context := context.writing = false
  called _ context := { context with progress := .nothing }
  after _ context final := context.Free ∧ final.Free

/-! ### The programs keep it -/

open LineContext

variable {context : LineContext}

/-- Closing a socket leaves what the thread knows as it is. -/
theorem ok_closeIfOpen (client : SessionId) {post : Unit → LineContext → Prop}
    (hpost : post () context) : lineDiscipline.Ok (closeIfOpen client) context post := by
  simp only [closeIfOpen, Discipline.ok_bind, ok_isOpen, Discipline.ok_ite, ok_close,
    Discipline.ok_pure, Performs, lineDiscipline, Allows, next, true_and, Option.some.injEq]
  rintro socketIsOpen _ rfl
  refine ⟨?_, fun _ ↦ hpost⟩
  rintro - - _ rfl
  exact hpost

/-- The body of the loop of a broadcast writes its message to a slot not yet written to. -/
theorem ok_broadcastTo (message : Bytes) (excludeSocket : Option SessionId) {size slot : ℕ}
    (hready : context.Ready message size slot) (client : SessionId) :
    lineDiscipline.Ok (broadcastTo message excludeSocket client)
      { context with found := some (slot, client) } fun _ final ↦
        final.Ready message size (slot + 1) := by
  obtain ⟨owns, writing, newSocket, known, found, progress⟩ := context
  obtain ⟨⟨rfl : owns = true, rfl : writing = false⟩, hsize, hprogress⟩ := hready
  unfold broadcastTo
  split
  · refine ⟨⟨rfl, rfl⟩, hsize, hprogress.imp_right ?_⟩
    rintro ⟨bound, hslots, hbound⟩
    exact ⟨bound, hslots, Nat.le_succ_of_le hbound⟩
  · refine Discipline.ok_bind.mpr ⟨Or.inr ⟨rfl, hprogress.imp_right ?_⟩, ?_⟩
    · rintro ⟨bound, hslots, hbound⟩
      exact ⟨bound, slot, hslots, rfl, hbound⟩
    · intro sent after hafter
      obtain rfl := Option.some.inj hafter
      cases sent with
      | true =>
        refine ⟨⟨rfl, rfl⟩, hsize, Or.inr ⟨slot + 1, ?_, Nat.le_refl _⟩⟩
        simp [LineContext.write]
      | false => exact ⟨rfl, fun final hfinal ↦ absurd hfinal.1.1 Bool.noConfusion⟩

/-- A broadcast is one line. -/
theorem ok_broadcastMessage (message : Bytes) (excludeSocket : Option SessionId)
    (hwriting : context.writing = false) (hprogress : context.progress = .nothing) :
    lineDiscipline.Ok (broadcastMessage .slots message excludeSocket) context fun _ final ↦
      context.Free ∧ final.Free := by
  obtain ⟨owns, writing, newSocket, size, found, progress⟩ := context
  obtain rfl : writing = false := hwriting
  obtain rfl : progress = .nothing := hprogress
  refine Discipline.ok_bind.mpr ⟨trivial, fun _ locked hlocked ↦ ?_⟩
  cases owns with
  | true => cases hlocked
  | false =>
    obtain rfl := Option.some.inj hlocked
    have hslot : ∀ size slot before, slot < size → Ready message size slot before →
        Performs lineDiscipline before (.registry (.dereference slot)) fun client after ↦
          lineDiscipline.Ok (broadcastTo message excludeSocket client) after fun _ final ↦
            final.Ready message size (slot + 1) := by
      rintro _ slot before hslot ⟨hlocked, rfl, hprogress⟩
      refine ⟨hlocked.1, fun client after hafter ↦ ?_⟩
      obtain rfl := Option.some.inj hafter
      rw [if_pos hslot]
      exact ok_broadcastTo message excludeSocket ⟨hlocked, rfl, hprogress⟩ client
    refine Discipline.ok_bind.mpr ((ok_forEachClient hslot ⟨?_, ?_⟩).mono ?_)
    · rfl
    · intro members read hread
      obtain rfl := Option.some.inj hread
      exact ⟨⟨rfl, rfl⟩, rfl, Or.inl rfl⟩
    · rintro _ final ⟨_, hlocked, -⟩
      refine ⟨hlocked, fun _ after hafter ↦ ?_⟩
      obtain rfl := Option.some.inj hafter
      exact ⟨⟨rfl, rfl⟩, rfl, hlocked.2⟩

/-- Finding a session in `m_clients` and erasing it needs the mutex. -/
theorem ok_eraseClient (hlocked : context.Locked) (client : SessionId) :
    lineDiscipline.Ok (eraseClient client) context fun _ final ↦ final.Locked := by
  simp only [eraseClient, Discipline.ok_bind, ok_clients]
  refine ⟨hlocked.1, fun members after hafter ↦ ?_⟩
  obtain rfl := Option.some.inj hafter
  split
  · refine ⟨hlocked.1, fun _ final hfinal ↦ ?_⟩
    obtain rfl := Option.some.inj hfinal
    exact hlocked
  · exact hlocked

/-- A session is closed and erased in a critical section of its own. -/
theorem ok_closeAndErase (client : SessionId) (hwriting : context.writing = false) :
    lineDiscipline.Ok (closeAndErase client) context fun _ final ↦ context.Free ∧ final.Free := by
  obtain ⟨owns, writing, newSocket, size, found, progress⟩ := context
  obtain rfl : writing = false := hwriting
  refine Discipline.ok_bind.mpr ⟨trivial, fun _ locked hlocked ↦ ?_⟩
  cases owns with
  | true => cases hlocked
  | false =>
    obtain rfl := Option.some.inj hlocked
    refine Discipline.ok_bind.mpr (ok_closeIfOpen client ?_)
    refine Discipline.ok_bind.mpr ((ok_eraseClient ⟨rfl, rfl⟩ client).mono ?_)
    refine fun _ erased herased ↦ ⟨herased, fun _ final hfinal ↦ ?_⟩
    obtain rfl := Option.some.inj hfinal
    exact ⟨⟨rfl, rfl⟩, rfl, herased.2⟩

/-- The removal of a session sends its line in a call of `broadcastMessage`. -/
theorem ok_removeClient (client : SessionId) (hwriting : context.writing = false) :
    lineDiscipline.Ok (removeClient client) context fun _ final ↦ context.Free ∧ final.Free := by
  refine Discipline.ok_bind.mpr ⟨trivial, fun clientUsername read hread ↦ ?_⟩
  obtain rfl := Option.some.inj hread
  refine Discipline.ok_bind.mpr ⟨trivial, fun stored read hread ↦ ?_⟩
  obtain rfl := Option.some.inj hread
  refine Discipline.ok_bind.mpr ?_
  split
  · exact ok_closeAndErase client hwriting
  · refine ⟨hwriting, fun told htold ↦ ?_⟩
    refine (ok_closeAndErase client htold.2.2).mono fun _ final hfinal ↦ ?_
    exact ⟨htold.1, hfinal.2⟩

/-- Looking for a user name changes nothing the thread knows. -/
theorem ok_findByUsername (recipient : Bytes) (members : List SessionId) (slot : ℕ) :
    lineDiscipline.Ok (findByUsername recipient members slot) context fun _ final ↦
      final = context := by
  induction members generalizing slot with
  | nil => rfl
  | cons client rest ih =>
    refine Discipline.ok_bind.mpr ⟨trivial, fun (name : Bytes) read hread ↦ ?_⟩
    obtain rfl := Option.some.inj hread
    show lineDiscipline.Ok (if name = recipient then _ else _) context _
    split
    · rfl
    · exact ih (slot + 1)

/-- A direct message is one line. -/
theorem ok_deliverDirectMessage (hlocked : context.Locked) (hprogress : context.progress = .nothing)
    (slot : ℕ) (dmMessage : Bytes) (client : SessionId) :
    lineDiscipline.Ok (deliverDirectMessage slot dmMessage client) context fun _ final ↦
      final.Locked := by
  obtain ⟨owns, writing, newSocket, size, found, progress⟩ := context
  obtain ⟨rfl : owns = true, rfl : writing = false⟩ := hlocked
  obtain rfl : progress = .nothing := hprogress
  refine Discipline.ok_bind.mpr ⟨trivial, fun sender read hread ↦ ?_⟩
  obtain rfl := Option.some.inj hread
  refine Discipline.ok_bind.mpr ⟨rfl, fun receiver read hread ↦ ?_⟩
  obtain rfl := Option.some.inj hread
  refine Discipline.ok_bind.mpr ⟨Or.inr ⟨rfl, Or.inl rfl⟩, fun sent after hafter ↦ ?_⟩
  obtain rfl := Option.some.inj hafter
  refine Discipline.ok_bind.mpr ⟨rfl, fun logged read hread ↦ ?_⟩
  obtain rfl := Option.some.inj hread
  refine Discipline.ok_bind.mpr ⟨trivial, fun name read hread ↦ ?_⟩
  obtain rfl := Option.some.inj hread
  exact ⟨rfl, rfl⟩

/-- The notice that a recipient was not found is one line. -/
theorem ok_reportNotFound (hlocked : context.Locked) (hprogress : context.progress = .nothing)
    (endSlot : ℕ) (recipient : Bytes) (client : SessionId) :
    lineDiscipline.Ok (reportNotFound endSlot recipient client) context fun _ final ↦
      final.Locked := by
  obtain ⟨owns, writing, newSocket, size, found, progress⟩ := context
  obtain ⟨rfl : owns = true, rfl : writing = false⟩ := hlocked
  obtain rfl : progress = .nothing := hprogress
  refine Discipline.ok_bind.mpr ⟨Or.inr ⟨rfl, Or.inl rfl⟩, fun sent after hafter ↦ ?_⟩
  obtain rfl := Option.some.inj hafter
  refine Discipline.ok_bind.mpr ⟨rfl, fun logged read hread ↦ ?_⟩
  obtain rfl := Option.some.inj hread
  refine Discipline.ok_bind.mpr ⟨trivial, fun name read hread ↦ ?_⟩
  obtain rfl := Option.some.inj hread
  exact ⟨rfl, rfl⟩

/-- The `/dm` branch sends its line in one critical section. -/
theorem ok_handleDirectMessage (message : Bytes) (client : SessionId) (hfree : context.Free)
    (hprogress : context.progress = .nothing) :
    lineDiscipline.Ok (handleDirectMessage message client) context fun _ final ↦ final.Free := by
  unfold handleDirectMessage
  obtain ⟨recipient, dmMessage⟩ := parseDirectMessage message
  obtain ⟨owns, writing, newSocket, size, found, progress⟩ := context
  obtain ⟨rfl : owns = false, rfl : writing = false⟩ := hfree
  obtain rfl : progress = .nothing := hprogress
  refine Discipline.ok_bind.mpr ⟨trivial, fun _ locked hlocked ↦ ?_⟩
  obtain rfl := Option.some.inj hlocked
  refine Discipline.ok_bind.mpr ⟨rfl, fun members read hread ↦ ?_⟩
  obtain rfl := Option.some.inj hread
  refine Discipline.ok_bind.mpr ((ok_findByUsername _ members 0).mono ?_)
  rintro it _ rfl
  have hend : ∀ (_ : Unit) final, Locked final → lineDiscipline.Ok Server.unlock final fun _ final ↦
      final.Free := by
    refine fun _ final hfinal ↦ ⟨hfinal, fun _ after hafter ↦ ?_⟩
    obtain rfl := Option.some.inj hafter
    exact ⟨rfl, hfinal.2⟩
  refine Discipline.ok_bind.mpr ?_
  cases it with
  | some slot => exact (ok_deliverDirectMessage ⟨rfl, rfl⟩ rfl slot _ client).mono hend
  | none => exact (ok_reportNotFound ⟨rfl, rfl⟩ rfl _ _ client).mono hend

/-- Every other message is told in a call of `broadcastMessage`. -/
theorem ok_handleChatMessage (message newUsername : Bytes) (client : SessionId)
    (hwriting : context.writing = false) :
    lineDiscipline.Ok (handleChatMessage message newUsername client) context fun _ final ↦
      final.Free := by
  refine Discipline.ok_bind.mpr ⟨trivial, fun (stored : Bytes) read hread ↦ ?_⟩
  obtain rfl := Option.some.inj hread
  show lineDiscipline.Ok (if stored = [] then _ else _) context _
  split
  · refine Discipline.ok_bind.mpr ⟨trivial, fun _ named hnamed ↦ ?_⟩
    obtain rfl := Option.some.inj hnamed
    refine Discipline.ok_bind.mpr ⟨trivial, fun name read hread ↦ ?_⟩
    obtain rfl := Option.some.inj hread
    exact ⟨hwriting, fun final hfinal ↦ hfinal.2⟩
  · refine Discipline.ok_bind.mpr ⟨trivial, fun name read hread ↦ ?_⟩
    obtain rfl := Option.some.inj hread
    exact ⟨hwriting, fun final hfinal ↦ hfinal.2⟩

/-- The read handler sends at most one line of its own. -/
theorem ok_readHandler (parse : Bytes → Option Json) (client : SessionId) (result : ReadResult)
    (hfree : context.Free) (hprogress : context.progress = .nothing) :
    lineDiscipline.Ok (readHandler parse client result) context fun _ final ↦ final.Free := by
  cases result with
  | error => exact ⟨hfree.2, fun final hfinal ↦ hfinal.2⟩
  | data chunk =>
    have hmessage : lineDiscipline.Ok (if IsBlankChunk chunk then pure ()
        else handleMessage (parsedMessage parse chunk) client) context fun _ final ↦
          final.Free := by
      split
      · exact hfree
      · refine Discipline.ok_bind.mpr ⟨trivial, fun _ entered hentered ↦ ?_⟩
        obtain rfl := Option.some.inj hentered
        cases messageFields (parsedMessage parse chunk) with
        | error reason => trivial
        | ok fields =>
          show lineDiscipline.Ok (if dmCommand.isPrefixOf fields.1 then _ else _) context _
          split
          · exact ok_handleDirectMessage _ client hfree hprogress
          · exact ok_handleChatMessage _ _ client hfree.2
    refine Discipline.ok_bind.mpr (hmessage.mono fun _ final hfinal ↦ ⟨trivial, ?_⟩)
    intro _ after hafter
    obtain rfl := Option.some.inj hafter
    exact hfinal

/-- The accept handler appends the session it was begun for. -/
theorem ok_acceptHandler_newSocket (newSocket : SessionId) (result : AcceptResult)
    (hfree : context.Free) (hnew : result = .success → context.newSocket = some newSocket) :
    lineDiscipline.Ok (acceptHandler newSocket result) context fun _ final ↦ final.Free := by
  cases result with
  | error => exact hfree
  | success =>
    simp [acceptHandler, rejectConnection, admitConnection, readClientMessage, acceptConnections,
      Performs, lineDiscipline, Allows, next, changed, hfree.1, hfree.2, hnew rfl, Free]

/-- Shutting down sends no line. -/
theorem ok_shutdown (hfree : context.Free) :
    lineDiscipline.Ok shutdown context fun _ final ↦ final.Free := by
  have hslot : ∀ (size slot : ℕ) before, slot < size → Locked before →
      Performs lineDiscipline before (.registry (.dereference slot)) fun client after ↦
        lineDiscipline.Ok (closeIfOpen client) after fun _ final ↦ final.Locked := by
    refine fun size slot before _ hlocked ↦ ⟨hlocked.1, fun client after hafter ↦ ?_⟩
    obtain rfl := Option.some.inj hafter
    exact ok_closeIfOpen client hlocked
  refine Discipline.ok_bind.mpr ⟨trivial, fun _ stopping hstopping ↦ ?_⟩
  obtain rfl := Option.some.inj hstopping
  obtain ⟨owns, writing, newSocket, size, found, progress⟩ := context
  obtain ⟨rfl : owns = false, rfl : writing = false⟩ := hfree
  refine Discipline.ok_bind.mpr ⟨trivial, fun _ locked hlocked ↦ ?_⟩
  obtain rfl := Option.some.inj hlocked
  refine Discipline.ok_bind.mpr ((ok_forEachClient hslot ⟨?_, ?_⟩).mono ?_)
  · rfl
  · intro members read hread
    obtain rfl := Option.some.inj hread
    exact ⟨rfl, rfl⟩
  · rintro _ final ⟨_, hlocked⟩
    refine Discipline.ok_bind.mpr ⟨hlocked.1, fun _ cleared hcleared ↦ ?_⟩
    obtain rfl := Option.some.inj hcleared
    refine Discipline.ok_bind.mpr ⟨trivial, fun _ closed hclosed ↦ ?_⟩
    obtain rfl := Option.some.inj hclosed
    refine ⟨hlocked, fun _ after hafter ↦ ?_⟩
    obtain rfl := Option.some.inj hafter
    exact ⟨rfl, hlocked.2⟩

end KoboldKhat.Server
