import KoboldKhat.Server.Concurrent

/-!
# The capacity of the server under many threads

The accept handler compares the size of `m_clients` with `m_maxClients` in one critical section and
appends to `m_clients` in another, so the bound does not come from the mutex. It comes from the one
accept that is in flight: whoever has taken it is the only thread that may append, until it starts
the next one (`AcceptInvariant`). `capacity_kept` states both for every interleaving in which
`start` is called once, whichever threads run the handlers.
-/

set_option autoImplicit false
set_option relaxedAutoImplicit false

namespace KoboldKhat.Server

open Library

/-! ### The discipline -/

/-- What a thread knows about accepts. -/
structure AcceptContext where
  /-- The thread has taken the accept that was in flight and not started the next one. -/
  token : Bool := false
  /-- The last size of `m_clients` it has read. -/
  seen : Option ℕ := none
  /-- The value of `m_maxClients` it has read. -/
  capacity : Option ℕ := none

/-- An accept is started with the token. A session is appended to `m_clients` with the token, after
a size below the capacity was read. -/
def AcceptContext.Allows (context : AcceptContext) : Operation → Prop
  | .registry .asyncAccept => context.token = true
  | .registry (.pushBack _) => context.token = true ∧ ∃ size capacity,
    context.seen = some size ∧ context.capacity = some capacity ∧ size < capacity
  | _ => True

/-- What a thread knows after a reply. Starting an accept gives the token away, and a size that was
read does not serve twice. -/
def AcceptContext.next (context : AcceptContext) :
    (operation : Operation) → operation.Reply → AcceptContext
  | .registry .clients, members => { context with seen := some (List.length members) }
  | .registry .maxClients, capacity => { context with capacity := some capacity }
  | .registry (.pushBack _), _ => { context with seen := none }
  | .registry .asyncAccept, _ => { context with token := false }
  | _, _ => context

/-- The discipline of starting accepts and appending to `m_clients`. -/
def acceptDiscipline : Discipline signature AcceptContext where
  allowed := AcceptContext.Allows
  next context operation reply := some (context.next operation reply)
  before _ _ := True
  called _ context := context
  after _ _ _ := True

/-! ### The programs keep it -/

/-- The program keeps the discipline in every context. -/
def AcceptNeutral {α : Type} (program : ServerProgram α) : Prop :=
  ∀ context, acceptDiscipline.Ok program context fun _ _ ↦ True

theorem AcceptNeutral.bind {α β : Type} {program : ServerProgram α}
    {continuation : α → ServerProgram β} (hprogram : AcceptNeutral program)
    (hcontinuation : ∀ value, AcceptNeutral (continuation value)) :
    AcceptNeutral (program >>= continuation) := fun context ↦
  Discipline.ok_bind.mpr ((hprogram context).mono fun value after _ ↦ hcontinuation value after)

theorem acceptNeutral_pure {α : Type} (value : α) :
    AcceptNeutral (pure value : ServerProgram α) :=
  fun _ ↦ trivial

/-- Every call keeps the discipline. -/
theorem acceptNeutral_invoke (procedure : Procedure) :
    AcceptNeutral (@Program.invoke signature procedure) :=
  fun _ ↦ Discipline.ok_invoke.mpr ⟨trivial, fun _ _ ↦ trivial⟩

/-- Every operation but the start of an accept and an appending keeps the discipline. -/
theorem acceptNeutral_perform {operation : Operation}
    (hallowed : ∀ context : AcceptContext, context.Allows operation) :
    AcceptNeutral (@Program.perform signature operation) :=
  fun context ↦ Discipline.ok_perform.mpr ⟨hallowed context, fun _ _ _ ↦ trivial⟩

theorem acceptNeutral_forEachClient {body : SessionId → ServerProgram Unit}
    (hbody : ∀ client, AcceptNeutral (body client)) :
    AcceptNeutral (forEachClient .slots body) := by
  have hslot : ∀ (size slot : ℕ) (context : AcceptContext), slot < size → True →
      Performs acceptDiscipline context (.registry (.dereference slot)) fun client after ↦
        acceptDiscipline.Ok (body client) after fun _ _ ↦ True :=
    fun _ _ _ _ _ ↦ ⟨trivial, fun client after _ ↦ hbody client after⟩
  exact fun context ↦ (ok_forEachClient hslot ⟨trivial, fun _ _ _ ↦ trivial⟩).mono
    fun _ _ _ ↦ trivial

theorem acceptNeutral_closeIfOpen (client : SessionId) : AcceptNeutral (closeIfOpen client) := by
  refine .bind (acceptNeutral_perform fun _ ↦ trivial) fun socketIsOpen ↦ ?_
  split
  · exact acceptNeutral_perform fun _ ↦ trivial
  · exact acceptNeutral_pure ()

theorem acceptNeutral_broadcastMessage (message : Bytes) (excludeSocket : Option SessionId) :
    AcceptNeutral (broadcastMessage .slots message excludeSocket) := by
  refine .bind (acceptNeutral_perform fun _ ↦ trivial) fun _ ↦ ?_
  refine .bind (acceptNeutral_forEachClient fun client ↦ ?_) fun _ ↦
    acceptNeutral_perform fun _ ↦ trivial
  unfold broadcastTo
  split
  · exact acceptNeutral_pure ()
  · refine .bind (acceptNeutral_perform fun _ ↦ trivial) fun sent ↦ ?_
    split
    · exact acceptNeutral_pure ()
    · exact acceptNeutral_invoke (.removeClient client)

theorem acceptNeutral_removeClient (client : SessionId) : AcceptNeutral (removeClient client) := by
  refine .bind (acceptNeutral_perform fun _ ↦ trivial) fun clientUsername ↦ ?_
  refine .bind (acceptNeutral_perform fun _ ↦ trivial) fun stored ↦ .bind ?_ fun _ ↦ ?_
  · split
    · exact acceptNeutral_pure ()
    · exact acceptNeutral_invoke _
  · refine .bind (acceptNeutral_perform fun _ ↦ trivial) fun _ ↦ ?_
    refine .bind (acceptNeutral_closeIfOpen client) fun _ ↦ .bind ?_ fun _ ↦
      acceptNeutral_perform fun _ ↦ trivial
    refine .bind (acceptNeutral_perform fun _ ↦ trivial) fun members ↦ ?_
    split
    · exact acceptNeutral_perform fun _ ↦ trivial
    · exact acceptNeutral_pure ()

theorem acceptNeutral_findByUsername (recipient : Bytes) (members : List SessionId) (slot : ℕ) :
    AcceptNeutral (findByUsername recipient members slot) := by
  induction members generalizing slot with
  | nil => exact acceptNeutral_pure none
  | cons client rest ih =>
    refine .bind (acceptNeutral_perform fun _ ↦ trivial) fun name ↦ ?_
    split
    · exact acceptNeutral_pure _
    · exact ih (slot + 1)

theorem acceptNeutral_handleDirectMessage (message : Bytes) (client : SessionId) :
    AcceptNeutral (handleDirectMessage message client) := by
  unfold handleDirectMessage
  obtain ⟨recipient, dmMessage⟩ := parseDirectMessage message
  refine .bind (acceptNeutral_perform fun _ ↦ trivial) fun _ ↦ ?_
  refine .bind (acceptNeutral_perform fun _ ↦ trivial) fun members ↦ ?_
  refine .bind (acceptNeutral_findByUsername _ members 0) fun it ↦ ?_
  refine .bind ?_ fun _ ↦ acceptNeutral_perform fun _ ↦ trivial
  cases it with
  | some slot =>
    refine .bind (acceptNeutral_perform fun _ ↦ trivial) fun sender ↦ ?_
    refine .bind (acceptNeutral_perform fun _ ↦ trivial) fun receiver ↦ ?_
    refine .bind (acceptNeutral_perform fun _ ↦ trivial) fun _ ↦ ?_
    refine .bind (acceptNeutral_perform fun _ ↦ trivial) fun logged ↦ ?_
    exact .bind (acceptNeutral_perform fun _ ↦ trivial) fun _ ↦ acceptNeutral_pure ()
  | none =>
    refine .bind (acceptNeutral_perform fun _ ↦ trivial) fun _ ↦ ?_
    refine .bind (acceptNeutral_perform fun _ ↦ trivial) fun logged ↦ ?_
    exact .bind (acceptNeutral_perform fun _ ↦ trivial) fun _ ↦ acceptNeutral_pure ()

theorem acceptNeutral_handleChatMessage (message newUsername : Bytes) (client : SessionId) :
    AcceptNeutral (handleChatMessage message newUsername client) := by
  refine .bind (acceptNeutral_perform fun _ ↦ trivial) fun stored ↦ ?_
  split
  · refine .bind (acceptNeutral_perform fun _ ↦ trivial) fun _ ↦ ?_
    exact .bind (acceptNeutral_perform fun _ ↦ trivial) fun _ ↦ acceptNeutral_invoke _
  · exact .bind (acceptNeutral_perform fun _ ↦ trivial) fun _ ↦ acceptNeutral_invoke _

theorem acceptNeutral_readHandler (parse : Bytes → Option Json) (client : SessionId)
    (result : ReadResult) : AcceptNeutral (readHandler parse client result) := by
  cases result with
  | error => exact acceptNeutral_invoke (.removeClient client)
  | data chunk =>
    refine .bind ?_ fun _ ↦ acceptNeutral_perform fun _ ↦ trivial
    split
    · exact acceptNeutral_pure ()
    · refine .bind (acceptNeutral_perform fun _ ↦ trivial) fun _ ↦ ?_
      cases messageFields (parsedMessage parse chunk) with
      | error reason => exact fun _ ↦ trivial
      | ok fields =>
        show AcceptNeutral (if dmCommand.isPrefixOf fields.1 then _ else _)
        split
        · exact acceptNeutral_handleDirectMessage _ _
        · exact acceptNeutral_handleChatMessage _ _ _

theorem acceptNeutral_shutdown : AcceptNeutral shutdown := by
  refine .bind (acceptNeutral_perform fun _ ↦ trivial) fun _ ↦ ?_
  refine .bind (acceptNeutral_perform fun _ ↦ trivial) fun _ ↦ ?_
  refine .bind (acceptNeutral_forEachClient acceptNeutral_closeIfOpen) fun _ ↦ ?_
  refine .bind (acceptNeutral_perform fun _ ↦ trivial) fun _ ↦ ?_
  exact .bind (acceptNeutral_perform fun _ ↦ trivial) fun _ ↦
    acceptNeutral_perform fun _ ↦ trivial

/-- A thread with the token keeps the discipline when it calls `start`. -/
theorem ok_start {context : AcceptContext} (htoken : context.token = true) :
    acceptDiscipline.Ok start context fun _ _ ↦ True := by
  simp [start, acceptConnections, Performs, acceptDiscipline, AcceptContext.Allows,
    AcceptContext.next, htoken]

/-- A thread with the token keeps the discipline in an accept handler. -/
theorem ok_acceptHandler {context : AcceptContext} (htoken : context.token = true)
    (newSocket : SessionId) (result : AcceptResult) :
    acceptDiscipline.Ok (acceptHandler newSocket result) context fun _ _ ↦ True := by
  cases result with
  | error => trivial
  | success =>
    simp [acceptHandler, rejectConnection, admitConnection, readClientMessage, acceptConnections,
      Performs, acceptDiscipline, AcceptContext.Allows, AcceptContext.next, htoken]
    intro _ members capacity hroom _ _
    exact ⟨capacity, rfl, hroom⟩

/-! ### The invariant -/

/-- What holds of the registry and of what the threads know, as long as `start` is called at most
once: one accept is in flight or one thread has the token, not both. -/
structure AcceptInvariant {ι : Type} (maxClients : ℕ) (state : Shared ι)
    (contexts : ι → AcceptContext) : Prop where
  /-- The capacity does not change. -/
  fixed : state.maxClients = maxClients
  /-- Before `start` no accept is in flight, and no thread has the token. -/
  fresh : state.starts = 0 →
    state.outstandingAccepts = 0 ∧ ∀ thread, (contexts thread).token = false
  /-- At most one accept is in flight. -/
  outstanding : state.outstandingAccepts ≤ 1
  /-- While a thread has the token no accept is in flight. -/
  token : ∀ thread, (contexts thread).token = true → state.outstandingAccepts = 0
  /-- At most one thread has the token. -/
  unique : ∀ first second, (contexts first).token = true → (contexts second).token = true →
    first = second
  /-- A thread that is to start the next accept has the token. -/
  rearming : ∀ thread, state.rearming thread = true → (contexts thread).token = true
  /-- The capacity is kept. -/
  bound : state.clients.length ≤ maxClients
  /-- The size that the thread with the token has read is not exceeded. -/
  seen : ∀ thread size, (contexts thread).token = true → (contexts thread).seen = some size →
    state.clients.length ≤ size
  /-- The capacity that a thread has read is the capacity. -/
  capacity : ∀ thread capacity, (contexts thread).capacity = some capacity → capacity = maxClients

namespace AcceptInvariant

variable {ι : Type} [DecidableEq ι] {maxClients : ℕ} {state after : Shared ι}
  {contexts : ι → AcceptContext} {thread : ι}

omit [DecidableEq ι] in
/-- A step that adds no session and no accept keeps the invariant. -/
theorem frame (hinvariant : AcceptInvariant maxClients state contexts)
    (hfixed : after.maxClients = state.maxClients) (hstarts : after.starts = state.starts)
    (houtstanding : after.outstandingAccepts = state.outstandingAccepts)
    (hrearming : ∀ other, after.rearming other = true → state.rearming other = true)
    (hclients : after.clients.length ≤ state.clients.length) :
    AcceptInvariant maxClients after contexts where
  fixed := hfixed.trans hinvariant.fixed
  fresh := fun hzero ↦ houtstanding ▸ hinvariant.fresh (hstarts ▸ hzero)
  outstanding := houtstanding ▸ hinvariant.outstanding
  token := fun other htoken ↦ houtstanding ▸ hinvariant.token other htoken
  unique := hinvariant.unique
  rearming := fun other hother ↦ hinvariant.rearming other (hrearming other hother)
  bound := Nat.le_trans hclients hinvariant.bound
  seen := fun other size htoken hseen ↦
    Nat.le_trans hclients (hinvariant.seen other size htoken hseen)
  capacity := hinvariant.capacity

/-- A step that changes neither the registry nor what the thread knows keeps the invariant. -/
theorem unchanged (hinvariant : AcceptInvariant maxClients state contexts)
    (hregistry : after.toRegistry = state.toRegistry) (hstarts : after.starts = state.starts)
    (hrearming : after.rearming = state.rearming) :
    AcceptInvariant maxClients after (Function.update contexts thread (contexts thread)) := by
  rw [Function.update_eq_self]
  exact hinvariant.frame (congrArg _ hregistry) hstarts (congrArg _ hregistry)
    (fun _ ↦ by rw [hrearming]; exact id) (Nat.le_of_eq (by rw [hregistry]))

/-- A thread may come to know a size or the capacity. -/
theorem learn (hinvariant : AcceptInvariant maxClients state contexts) {context : AcceptContext}
    (htoken : context.token = (contexts thread).token)
    (hseen : ∀ size, context.token = true → context.seen = some size →
      state.clients.length ≤ size)
    (hcapacity : ∀ capacity, context.capacity = some capacity → capacity = maxClients) :
    AcceptInvariant maxClients state (Function.update contexts thread context) := by
  have hsame : ∀ other, (Function.update contexts thread context other).token =
      (contexts other).token := by
    intro other
    rw [Function.update_apply]
    split_ifs with hother
    · rw [hother, htoken]
    · rfl
  refine ⟨hinvariant.fixed, ?_, hinvariant.outstanding, ?_, ?_, ?_, hinvariant.bound, ?_, ?_⟩
  · simpa only [hsame] using hinvariant.fresh
  · simpa only [hsame] using hinvariant.token
  · simpa only [hsame] using hinvariant.unique
  · simpa only [hsame] using hinvariant.rearming
  · intro other size
    rw [Function.update_apply]
    split_ifs with hother
    · exact hseen size
    · exact hinvariant.seen other size
  · intro other capacity
    rw [Function.update_apply]
    split_ifs with hother
    · exact hcapacity capacity
    · exact hinvariant.capacity other capacity

/-- The thread with the token gives it away when it starts an accept. -/
theorem startAccept (hinvariant : AcceptInvariant maxClients state contexts)
    (htoken : (contexts thread).token = true)
    (hfixed : after.maxClients = state.maxClients) (hstarts : after.starts = state.starts)
    (houtstanding : after.outstandingAccepts = state.outstandingAccepts + 1)
    (hrearming : after.rearming = Function.update state.rearming thread false)
    (hclients : after.clients = state.clients) :
    AcceptInvariant maxClients after
      (Function.update contexts thread { contexts thread with token := false }) := by
  have hnone : ∀ other, (Function.update contexts thread
      { contexts thread with token := false } other).token ≠ true := by
    intro other
    rw [Function.update_apply]
    split_ifs with hother
    · exact Bool.false_ne_true
    · exact fun hheld ↦ hother (hinvariant.unique other thread hheld htoken)
  refine ⟨hfixed.trans hinvariant.fixed, ?_, ?_, ?_, ?_, ?_, ?_, ?_, ?_⟩
  · intro hzero
    have hfresh := (hinvariant.fresh (hstarts ▸ hzero)).2 thread
    rw [htoken] at hfresh
    cases hfresh
  · exact Nat.le_of_eq (by rw [houtstanding, hinvariant.token thread htoken])
  · exact fun other hheld ↦ absurd hheld (hnone other)
  · exact fun other _ hheld ↦ absurd hheld (hnone other)
  · intro other
    rw [hrearming, Function.update_apply]
    split_ifs with hother
    · exact False.elim
    · intro hrearm
      exact absurd (hinvariant.unique other thread (hinvariant.rearming other hrearm) htoken) hother
  · rw [hclients]
    exact hinvariant.bound
  · exact fun other _ hheld ↦ absurd hheld (hnone other)
  · intro other capacity
    rw [Function.update_apply]
    split_ifs with hother
    · exact hinvariant.capacity thread capacity
    · exact hinvariant.capacity other capacity

omit [DecidableEq ι] in
/-- While no thread has the token, none is to start the next accept. -/
theorem not_rearming (hinvariant : AcceptInvariant maxClients state contexts)
    (hnone : ∀ other, (contexts other).token = false) (other : ι) :
    state.rearming other ≠ true := by
  intro hrearming
  have htoken := hinvariant.rearming other hrearming
  rw [hnone other] at htoken
  cases htoken

omit [DecidableEq ι] in
/-- The thread with the token appends a session when there is room for it. -/
theorem append (hinvariant : AcceptInvariant maxClients state contexts)
    (htoken : (contexts thread).token = true) (hseen : (contexts thread).seen = none)
    (hroom : state.clients.length < maxClients)
    (hfixed : after.maxClients = state.maxClients) (hstarts : after.starts = state.starts)
    (houtstanding : after.outstandingAccepts = state.outstandingAccepts)
    (hrearming : after.rearming = state.rearming)
    (hclients : after.clients.length = state.clients.length + 1) :
    AcceptInvariant maxClients after contexts where
  fixed := hfixed.trans hinvariant.fixed
  fresh := fun hzero ↦ houtstanding ▸ hinvariant.fresh (hstarts ▸ hzero)
  outstanding := houtstanding ▸ hinvariant.outstanding
  token := fun other hother ↦ houtstanding ▸ hinvariant.token other hother
  unique := hinvariant.unique
  rearming := hrearming ▸ hinvariant.rearming
  bound := hclients ▸ hroom
  seen := by
    intro other size hother hsize
    rw [hinvariant.unique other thread hother htoken, hseen] at hsize
    cases hsize
  capacity := hinvariant.capacity

/-- A thread takes the token when no accept is in flight and no thread has it. -/
theorem takeToken (hfixed : after.maxClients = maxClients) (hstarts : after.starts ≠ 0)
    (houtstanding : after.outstandingAccepts = 0)
    (hnone : ∀ other, (contexts other).token = false)
    (hrearming : ∀ other, after.rearming other = true → other = thread)
    (hbound : after.clients.length ≤ maxClients)
    (hcapacity : ∀ other capacity, (contexts other).capacity = some capacity →
      capacity = maxClients) :
    AcceptInvariant maxClients after (Function.update contexts thread { token := true }) := by
  have honly : ∀ other, (Function.update contexts thread
      ({ token := true } : AcceptContext) other).token = true → other = thread := by
    intro other
    rw [Function.update_apply]
    split_ifs with hother
    · exact fun _ ↦ hother
    · rw [hnone other]
      exact fun hfalse ↦ absurd hfalse Bool.false_ne_true
  refine ⟨hfixed, fun hzero ↦ absurd hzero hstarts, ?_, fun _ _ ↦ houtstanding, ?_, ?_, hbound,
    ?_, ?_⟩
  · rw [houtstanding]
    exact Nat.zero_le 1
  · exact fun first second hfirst hsecond ↦ (honly first hfirst).trans (honly second hsecond).symm
  · intro other hother
    rw [hrearming other hother, Function.update_self]
  · intro other size hother hsize
    rw [honly other hother, Function.update_self] at hsize
    cases hsize
  · intro other capacity
    rw [Function.update_apply]
    split_ifs with hother
    · exact False.elim
    · exact hcapacity other capacity

end AcceptInvariant

/-! ### Every step keeps the invariant -/

section Sound

variable {ι : Type} [DecidableEq ι] {parse : Bytes → Option Json} {maxClients : ℕ}
  {state after : Shared ι} {contexts : ι → AcceptContext} {thread : ι}

/-- The invariant, in the runs that call `start` at most once. -/
def StartedOnce (maxClients : ℕ) (state : Shared ι) (contexts : ι → AcceptContext) : Prop :=
  state.starts ≤ 1 → AcceptInvariant maxClients state contexts

/-- An operation on the registry adds no session and no accept, unless it appends or starts an
accept. -/
theorem registryStep_frame {operation : RegistryOperation} {registry final : Registry}
    {reply : operation.Reply} (hstep : registryStep none operation registry = .returned reply final)
    (haccept : operation.isAccept = false) (happend : ∀ client, operation ≠ .pushBack client) :
    final.maxClients = registry.maxClients ∧
      final.outstandingAccepts = registry.outstandingAccepts ∧
      final.clients.length ≤ registry.clients.length := by
  cases operation with
  | asyncAccept => cases haccept
  | pushBack client => exact absurd rfl (happend client)
  | dereference slot =>
    simp only [registryStep] at hstep
    split at hstep
    · cases hstep
      exact ⟨rfl, rfl, Nat.le_refl _⟩
    · cases hstep
  | erase slot =>
    cases hstep
    exact ⟨rfl, rfl, List.length_eraseIdx_le _ _⟩
  | clear =>
    cases hstep
    exact ⟨rfl, rfl, Nat.zero_le _⟩
  | _ =>
    cases hstep
    exact ⟨rfl, rfl, Nat.le_refl _⟩

/-- A program begun by an event other than `start` and an accept handler keeps the discipline and
leaves the accepts as they are. -/
theorem StartedOnce.enter_neutral (hinvariant : StartedOnce maxClients state contexts)
    {event : Event} (hstart : event.isStart = false) (haccept : event.isAccept = false)
    (houtstanding : (event.arrive state.toRegistry).outstandingAccepts = state.outstandingAccepts)
    (hregistry : (event.arrive state.toRegistry).maxClients = state.maxClients ∧
      (event.arrive state.toRegistry).clients = state.clients)
    (hneutral : AcceptNeutral (event.program parse state.toRegistry)) :
    ∃ context, StartedOnce maxClients (state.begin thread event)
        (Function.update contexts thread context) ∧
      acceptDiscipline.Ok (event.program parse state.toRegistry) context fun _ _ ↦ True := by
  have hstarts : (state.begin thread event).starts = state.starts := by
    simp [Shared.begin, hstart]
  refine ⟨contexts thread, fun honce ↦ ?_, hneutral _⟩
  rw [Function.update_eq_self]
  refine (hinvariant (hstarts ▸ honce)).frame hregistry.1 hstarts houtstanding ?_ ?_
  · intro other
    simp only [Shared.begin, haccept, Function.update_apply]
    split_ifs with hother
    · exact False.elim
    · exact id
  · exact Nat.le_of_eq (congrArg List.length hregistry.2)

/-- A program that is begun keeps the discipline, with the token if it is `start` or an accept
handler. -/
theorem StartedOnce.enter (hinvariant : StartedOnce maxClients state contexts) {event : Event}
    (henabled : state.Enables event) :
    ∃ context, StartedOnce maxClients (state.begin thread event)
        (Function.update contexts thread context) ∧
      acceptDiscipline.Ok (event.program parse state.toRegistry) context fun _ _ ↦ True := by
  cases event with
  | start =>
    refine ⟨{ token := true }, fun honce ↦ ?_, ok_start rfl⟩
    have hzero : state.starts = 0 := Nat.le_zero.mp (Nat.le_of_succ_le_succ honce)
    have hbefore := hinvariant (by omega)
    obtain ⟨houtstanding, hnone⟩ := hbefore.fresh hzero
    refine AcceptInvariant.takeToken hbefore.fixed (Nat.succ_ne_zero _) houtstanding hnone
      (fun other hother ↦ ?_) hbefore.bound hbefore.capacity
    by_contra hdifferent
    rw [begin_rearming_of_ne hdifferent] at hother
    exact hbefore.not_rearming hnone other hother
  | runAccept result =>
    refine ⟨{ token := true }, fun honce ↦ ?_, ok_acceptHandler rfl _ result⟩
    have hbefore := hinvariant honce
    have htaken := outstandingAccepts_arrive_runAccept henabled
    have hone := hbefore.outstanding
    have hnone : ∀ other, (contexts other).token = false := by
      intro other
      by_contra htoken
      rw [Bool.not_eq_false] at htoken
      have hfree := hbefore.token other htoken
      omega
    refine AcceptInvariant.takeToken ?_ ?_ ?_ hnone (fun other hother ↦ ?_) ?_ hbefore.capacity
    · cases result <;> exact hbefore.fixed
    · intro hzero
      have hfree := (hbefore.fresh hzero).1
      omega
    · show ((Event.runAccept result).arrive state.toRegistry).outstandingAccepts = 0
      omega
    · by_contra hdifferent
      rw [begin_rearming_of_ne hdifferent] at hother
      exact hbefore.not_rearming hnone other hother
    · cases result <;> exact hbefore.bound
  | acceptCompletes result =>
    exact hinvariant.enter_neutral rfl rfl (outstandingAccepts_arrive_acceptCompletes henabled)
      ⟨rfl, rfl⟩ (acceptNeutral_pure ())
  | readCompletes client result =>
    exact hinvariant.enter_neutral rfl rfl rfl ⟨rfl, rfl⟩ (acceptNeutral_pure ())
  | runRead client result =>
    exact hinvariant.enter_neutral rfl rfl rfl ⟨rfl, rfl⟩
      (acceptNeutral_readHandler parse client result)
  | broadcast message excludeSocket =>
    exact hinvariant.enter_neutral rfl rfl rfl ⟨rfl, rfl⟩ (acceptNeutral_invoke _)
  | shutdown => exact hinvariant.enter_neutral rfl rfl rfl ⟨rfl, rfl⟩ acceptNeutral_shutdown

/-- An operation on the registry keeps the invariant. -/
theorem AcceptInvariant.operate (hinvariant : AcceptInvariant maxClients state contexts)
    {operation : RegistryOperation} {reply : operation.Reply} {registry : Registry}
    (hallows : (contexts thread).Allows (.registry operation))
    (hreply : state.MayReply operation reply registry) :
    AcceptInvariant maxClients (state.operate thread operation registry) (Function.update contexts
      thread ((contexts thread).next (.registry operation) reply)) := by
  rcases hreply.returned_or_past with hstep | ⟨⟨slot, rfl, -⟩, rfl⟩
  · cases operation with
    | asyncAccept =>
      cases hstep
      exact hinvariant.startAccept hallows rfl rfl (Nat.add_right_comm _ _ _) rfl rfl
    | pushBack client =>
      cases hstep
      obtain ⟨htoken, size, capacity, hseen, hcapacity, hroom⟩ := hallows
      have hsize := hinvariant.seen thread size htoken hseen
      have hbound := hinvariant.capacity thread capacity hcapacity
      have hforgotten : AcceptInvariant maxClients state
          (Function.update contexts thread { contexts thread with seen := none }) :=
        hinvariant.learn rfl (fun _ _ hnothing ↦ by cases hnothing) (hinvariant.capacity thread)
      have hkept : (Function.update contexts thread { contexts thread with seen := none }
          thread).token = true := by
        rw [Function.update_self]
        exact htoken
      refine hforgotten.append hkept ?_ (by omega) rfl rfl rfl rfl (List.length_append ..)
      rw [Function.update_self]
    | clients =>
      cases hstep
      exact hinvariant.learn rfl (fun size _ hsize ↦ Nat.le_of_eq (Option.some.inj hsize))
        (hinvariant.capacity thread)
    | maxClients =>
      cases hstep
      exact hinvariant.learn rfl (hinvariant.seen thread) fun capacity hcapacity ↦
        (Option.some.inj hcapacity).symm.trans hinvariant.fixed
    | _ =>
      obtain ⟨hfixed, houtstanding, hclients⟩ := registryStep_frame hstep rfl nofun
      show AcceptInvariant maxClients _ (Function.update contexts thread (contexts thread))
      rw [Function.update_eq_self]
      exact hinvariant.frame hfixed rfl houtstanding (fun _ ↦ id) hclients
  · exact hinvariant.unchanged rfl rfl rfl

/-- The invariant and the discipline fit the server. -/
theorem acceptSound : acceptDiscipline.Sound (machine parse) (fun _ ↦ True)
    (@StartedOnce ι maxClients) where
  enter := by
    rintro state contexts thread program after hinvariant - ⟨event, henabled, rfl, rfl⟩
    exact hinvariant.enter henabled
  proceed := by
    intro state contexts thread operation after hinvariant hallows hproceed
    refine ⟨contexts thread, fun honce ↦ ?_, hallows, fun _ ↦ rfl⟩
    cases hproceed with
    | begins hidle => exact (hinvariant honce).unchanged rfl rfl rfl
    | sends hwrite hopen hbytes hmessage => exact (hinvariant honce).unchanged rfl rfl rfl
  reply := by
    intro state contexts thread operation value after hinvariant hallows hreplies
    refine ⟨(contexts thread).next operation value, rfl, fun honce ↦ ?_⟩
    cases operation with
    | registry operation =>
      obtain ⟨registry, hstep, rfl⟩ := hreplies
      exact (hinvariant honce).operate hallows hstep
    | lock =>
      obtain ⟨_, rfl⟩ := hreplies
      exact (hinvariant honce).unchanged rfl rfl rfl
    | unlock =>
      obtain rfl := hreplies
      exact (hinvariant honce).unchanged rfl rfl rfl
    | write client message =>
      obtain ⟨number, write, _, _, _, rfl⟩ := hreplies
      exact (hinvariant honce).unchanged rfl rfl rfl
    | remoteEndpoint client =>
      obtain rfl := hreplies
      exact (hinvariant honce).unchanged rfl rfl rfl
    | enterHandleMessage jsonMessage client =>
      obtain rfl := hreplies
      exact (hinvariant honce).unchanged rfl rfl rfl
  call := by
    intro state contexts thread procedure hinvariant _
    exact fun honce ↦ (hinvariant honce).unchanged rfl rfl rfl
  body := by
    intro procedure context _
    cases procedure with
    | broadcastMessage message excludeSocket =>
      exact acceptNeutral_broadcastMessage message excludeSocket context
    | removeClient client => exact acceptNeutral_removeClient client context

end Sound

/-! ### The capacity -/

/-- In every interleaving in which `start` is called at most once, `m_clients` holds at most
`m_maxClients` sessions, and there is at most one accept that is in flight or whose handler has not
started the next one. -/
theorem capacity_kept {ι : Type} [DecidableEq ι] {parse : Bytes → Option Json} {maxClients : ℕ}
    {config : Config signature ι (Shared ι)} (hreachable : Interleaved parse maxClients config)
    (hstart : config.state.starts ≤ 1) :
    config.state.clients.length ≤ maxClients ∧ config.state.outstandingAccepts ≤ 1 ∧
      (∀ thread, config.state.rearming thread = true → config.state.outstandingAccepts = 0) ∧
      ∀ first second, config.state.rearming first = true → config.state.rearming second = true →
        first = second := by
  have hinitial : @StartedOnce ι maxClients { maxClients := maxClients } fun _ ↦ {} := fun _ ↦
    { fixed := rfl
      fresh := fun _ ↦ ⟨rfl, fun _ ↦ rfl⟩
      outstanding := Nat.zero_le 1
      token := fun _ _ ↦ rfl
      unique := fun _ _ hfalse ↦ absurd hfalse Bool.false_ne_true
      rearming := fun _ hfalse ↦ absurd hfalse Bool.false_ne_true
      bound := Nat.zero_le maxClients
      seen := fun _ _ hfalse ↦ absurd hfalse Bool.false_ne_true
      capacity := fun _ _ hnothing ↦ by cases hnothing }
  obtain ⟨contexts, honce, -⟩ := acceptSound.reachable hinitial (fun _ ↦ trivial) hreachable
  have hinvariant := honce hstart
  refine ⟨hinvariant.bound, hinvariant.outstanding, fun thread hrearming ↦ ?_,
    fun first second hfirst hsecond ↦ ?_⟩
  · exact hinvariant.token thread (hinvariant.rearming thread hrearming)
  · exact hinvariant.unique first second (hinvariant.rearming first hfirst)
      (hinvariant.rearming second hsecond)

/-- A server for one session, after the handlers of two accepts: the second connection was rejected
and the third accept is in flight. -/
theorem capacity_kept_of_one :
    ∃ config : Config signature ℕ (Shared ℕ), Interleaved (fun _ ↦ none) 1 config ∧
      config.state.starts = 1 ∧ config.state.clients = [0] ∧ config.state.accepted = 2 ∧
      config.state.clients.length ≤ 1 ∧ config.state.outstandingAccepts ≤ 1 ∧
      (∀ thread, config.state.rearming thread = true → config.state.outstandingAccepts = 0) ∧
      ∀ first second, config.state.rearming first = true → config.state.rearming second = true →
        first = second := by
  let events : List Event :=
    [.start, .acceptCompletes .success, .runAccept .success, .acceptCompletes .success,
      .runAccept .success]
  have hsome : (play (fun _ ↦ none) reliable events (initial 1)).isSome = true := by decide
  have hrun := play_eq_run (.nil _) (Option.some_get hsome).symm
  obtain ⟨shared, halike, hreachable⟩ := interleaved_of_run (0 : ℕ) hrun
  have hstarts : shared.starts = 1 := halike.starts
  refine ⟨⟨shared, fun _ ↦ none⟩, hreachable, hstarts, ?_, ?_, capacity_kept hreachable ?_⟩
  · show shared.clients = [0]
    rw [halike.registry]
    rfl
  · show shared.accepted = 2
    rw [halike.registry]
    rfl
  · exact Nat.le_of_eq hstarts

end KoboldKhat.Server
