import KoboldKhat.Library.Interleaving
import KoboldKhat.Server.State
import Mathlib.Data.List.Basic

/-!
# The server run by many threads

Any number of threads `ι` run the handlers of one `io_context` and call `start`,
`broadcastMessage` and `shutdown`. An idle thread begins the program of any event that the registry
enables, and the steps of the programs interleave without restriction (`machine`).

`m_clientsMutex` has an owner, and a thread that locks it while it has one waits; a thread that
locks the mutex it owns waits for ever. A call of `asio::write` is many steps: it begins, sends some
more of its text any number of times, and returns when all is sent or throws, which it may do at any
time unless it was given nothing to write. The bytes of all calls go to the one stream of the
socket, in the order in which they are sent. An operation on the registry is one step, and one that
is undefined, as reading past the end of `m_clients`, may be finished with any reply or never.

`Shared` records beside the data of the server what statements about it speak of: every call of
`asio::write` with the thread and the call of a function it belongs to, how often `start` was
called, and which threads run an accept handler that has not started the next accept.

`Alike` relates this state to that of the one thread of `Server.State`, and `interleaved_of_run`
makes each run by one thread an interleaving.
-/

set_option autoImplicit false
set_option relaxedAutoImplicit false

namespace KoboldKhat.Server

open Library

/-! ### The shared state -/

/-- How far a call of `asio::write` has got: it is running, it returned, or it threw. -/
inductive WriteStatus
  | running
  | returned
  | failed
  deriving DecidableEq

/-- One call of `asio::write`. -/
structure Write (ι : Type) where
  /-- The thread that calls. -/
  thread : ι
  /-- The call of a function of the server that the write belongs to, numbered in its thread. -/
  call : ℕ
  /-- The session written to. -/
  client : SessionId
  /-- The line to be written. -/
  text : Bytes
  /-- The bytes of it that have been sent. -/
  sent : Bytes := []
  /-- How far the call has got. -/
  status : WriteStatus := .running

/-- The write after some more bytes were sent. -/
def Write.send {ι : Type} (bytes : Bytes) (write : Write ι) : Write ι :=
  { write with sent := write.sent ++ bytes }

/-- The write after it returned or threw. -/
def Write.finish {ι : Type} (sent : Bool) (write : Write ι) : Write ι :=
  { write with status := if sent then .returned else .failed }

/-- The state the threads share. -/
structure Shared (ι : Type) extends Registry where
  /-- The thread that owns `m_clientsMutex`. -/
  owner : Option ι := none
  /-- The bytes sent on the socket of each session. -/
  out : SessionId → Bytes := fun _ ↦ []
  /-- The calls of `asio::write` so far, in the order in which they began. -/
  writes : List (Write ι) := []
  /-- The call of `asio::write` each thread is in, by its place among all. -/
  writing : ι → Option ℕ := fun _ ↦ none
  /-- The number of calls of functions of the server that each thread has made. -/
  calls : ι → ℕ := fun _ ↦ 0
  /-- The number of calls of `start`. -/
  starts : ℕ := 0
  /-- The thread runs an accept handler and has not started the next accept. -/
  rearming : ι → Bool := fun _ ↦ false

/-! ### The steps of a thread -/

/-- The operation starts an accept. -/
def RegistryOperation.isAccept : RegistryOperation → Bool
  | asyncAccept => true
  | _ => false

/-- The event runs an accept handler. -/
def Event.isAccept : Event → Bool
  | runAccept _ => true
  | _ => false

/-- The event is a call of `start`. -/
def Event.isStart : Event → Bool
  | start => true
  | _ => false

section Steps

variable {ι : Type} [DecidableEq ι]

/-- The state after a thread has begun the program of an event. -/
def Shared.begin (thread : ι) (event : Event) (state : Shared ι) : Shared ι :=
  { state with
    toRegistry := event.arrive state.toRegistry
    calls := Function.update state.calls thread (state.calls thread + 1)
    starts := state.starts + if event.isStart then 1 else 0
    rearming := Function.update state.rearming thread event.isAccept }

theorem begin_rearming_of_ne {thread other : ι} (hother : other ≠ thread) (event : Event)
    (state : Shared ι) : (state.begin thread event).rearming other = state.rearming other :=
  Function.update_of_ne hother _ _

/-- The state after a thread has called a function. -/
def Shared.nextCall (thread : ι) (state : Shared ι) : Shared ι :=
  { state with calls := Function.update state.calls thread (state.calls thread + 1) }

@[simp] theorem nextCall_calls_self (thread : ι) (state : Shared ι) :
    (state.nextCall thread).calls thread = state.calls thread + 1 :=
  Function.update_self ..

/-- Calling a function takes no call back. -/
theorem calls_le_nextCall (thread : ι) (state : Shared ι) (other : ι) :
    state.calls other ≤ (state.nextCall thread).calls other := by
  by_cases hother : other = thread
  · rw [hother, nextCall_calls_self]
    exact Nat.le_succ _
  · exact Nat.le_of_eq (Function.update_of_ne hother ..).symm

/-- The state after a call of `asio::write` has begun. -/
def Shared.beginWrite (thread : ι) (client : SessionId) (message : Bytes) (state : Shared ι) :
    Shared ι :=
  { state with
    writes := state.writes ++ [⟨thread, state.calls thread, client, message, [], .running⟩]
    writing := Function.update state.writing thread (some state.writes.length) }

@[simp] theorem beginWrite_writing_self (thread : ι) (client : SessionId) (message : Bytes)
    (state : Shared ι) :
    (state.beginWrite thread client message).writing thread = some state.writes.length :=
  Function.update_self ..

/-- The state after some more bytes of a write were sent. -/
def Shared.send (number : ℕ) (client : SessionId) (bytes : Bytes) (state : Shared ι) : Shared ι :=
  { state with
    writes := state.writes.modify number (Write.send bytes)
    out := Function.update state.out client (state.out client ++ bytes) }

/-- The state after a thread's write has returned or thrown. -/
def Shared.finishWrite (thread : ι) (number : ℕ) (sent : Bool) (state : Shared ι) : Shared ι :=
  { state with
    writes := state.writes.modify number (Write.finish sent)
    writing := Function.update state.writing thread none }

@[simp] theorem finishWrite_writing_self (thread : ι) (number : ℕ) (sent : Bool)
    (state : Shared ι) : (state.finishWrite thread number sent).writing thread = none :=
  Function.update_self ..

/-- The state in which the mutex has the owner. -/
def Shared.own (owner : Option ι) (state : Shared ι) : Shared ι :=
  { state with owner := owner }

/-- The state after a thread's operation on the registry. -/
def Shared.operate (thread : ι) (operation : RegistryOperation) (registry : Registry)
    (state : Shared ι) : Shared ι :=
  { state with
    toRegistry := registry
    rearming := if operation.isAccept then Function.update state.rearming thread false
      else state.rearming }

/-- The thread is in the write with the number, and this is the write of the message to the
session. -/
def Shared.InWrite (state : Shared ι) (thread : ι) (number : ℕ) (write : Write ι)
    (client : SessionId) (message : Bytes) : Prop :=
  state.writing thread = some number ∧ state.writes[number]? = some write ∧
    write.client = client ∧ write.text = message

/-- What happens while an operation of a thread is not finished: a write begins, or sends some more
bytes to an open socket. -/
inductive Proceeds (thread : ι) : Operation → Shared ι → Shared ι → Prop
  | begins {state : Shared ι} {client : SessionId} {message : Bytes}
      (hidle : state.writing thread = none) :
      Proceeds thread (.write client message) state (state.beginWrite thread client message)
  | sends {state : Shared ι} {client : SessionId} {message : Bytes} {number : ℕ} {write : Write ι}
      {bytes : Bytes} (hwrite : state.InWrite thread number write client message)
      (hopen : state.isOpen client = true) (hbytes : bytes ≠ [])
      (hmessage : write.sent ++ bytes <+: message) :
      Proceeds thread (.write client message) state (state.send number client bytes)

/-- The operation on the registry can be finished with the reply: the one it returns, or any when it
is undefined. -/
def Registry.MayReply (registry : Registry) (operation : RegistryOperation)
    (reply : operation.Reply) (after : Registry) : Prop :=
  registryStep none operation registry = .returned reply after ∨
    ∃ fault, registryStep none operation registry = .stopped fault after

/-- The only undefined operation on the registry is to read past the end of `m_clients`, and it
leaves the registry as it is. -/
theorem Registry.MayReply.returned_or_past {registry after : Registry}
    {operation : RegistryOperation} {reply : operation.Reply}
    (hreply : registry.MayReply operation reply after) :
    registryStep none operation registry = .returned reply after ∨
      (∃ slot, operation = .dereference slot ∧ registry.clients[slot]? = none) ∧
        after = registry := by
  rcases hreply with hreturned | ⟨fault, hstopped⟩
  · exact Or.inl hreturned
  · cases operation with
    | dereference slot =>
      simp only [registryStep, Option.or_none] at hstopped
      split at hstopped
      case h_1 => cases hstopped
      case h_2 hpast =>
        cases hstopped
        exact Or.inr ⟨⟨slot, rfl, hpast⟩, rfl⟩
    | _ => cases hstopped

/-- What finishes an operation of a thread, with the reply and the state after it. -/
def Replies (thread : ι) : (operation : Operation) → Shared ι → operation.Reply → Shared ι → Prop
  | .lock, state, _, after => state.owner = none ∧ after = state.own (some thread)
  | .unlock, state, _, after => after = state.own none
  | .write client message, state, sent, after => ∃ number write,
    state.InWrite thread number write client message ∧ (sent = true → write.sent = message) ∧
      (message = [] → sent = true) ∧ after = state.finishWrite thread number sent
  | .remoteEndpoint _, state, _, after => after = state
  | .enterHandleMessage _ _, state, _, after => after = state
  | .registry operation, state, reply, after => ∃ registry,
    state.MayReply operation reply registry ∧ after = state.operate thread operation registry

/-- The server as a machine of many threads. -/
def machine (parse : Bytes → Option Json) : Machine signature ι (Shared ι) where
  body := procedureBody .slots
  enter thread state program after := ∃ event : Event, state.Enables event ∧
    program = event.program parse state.toRegistry ∧ after = state.begin thread event
  proceed thread operation state after := Proceeds thread operation state after
  reply thread operation state value after := Replies thread operation state value after
  note thread _ state := state.nextCall thread

/-- The configuration can be reached by some interleaving, from a server before `start`. -/
def Interleaved (parse : Bytes → Option Json) (maxClients : ℕ)
    (config : Config signature ι (Shared ι)) : Prop :=
  (machine parse).Reachable { maxClients := maxClients } config

end Steps

/-! ### Runs by one thread are interleavings -/

/-- Changing the element after all others changes nothing else. -/
theorem modify_append_length {α : Type} (list : List α) (last : α) (change : α → α) :
    (list ++ [last]).modify list.length change = list ++ [change last] := by
  induction list with
  | nil => rfl
  | cons head tail ih => rw [List.cons_append, List.length_cons, List.modify_succ_cons, ih]; rfl

/-- The write as one thread records it. -/
def Write.attempt {ι : Type} (write : Write ι) : Attempt :=
  ⟨write.client, write.text, write.sent, write.status = .returned⟩

/-- The write that becomes an attempt of one thread. -/
def Attempt.write {ι : Type} (thread : ι) (call : ℕ) (attempt : Attempt) : Write ι :=
  ⟨thread, call, attempt.client, attempt.message, attempt.sent,
    if attempt.ok then .returned else .failed⟩

@[simp] theorem attempt_write {ι : Type} (thread : ι) (call : ℕ) (attempt : Attempt) :
    (attempt.write thread call).attempt = attempt := by
  obtain ⟨client, message, sent, ok⟩ := attempt
  cases ok <;> rfl

/-- The state of one thread is what the threads share when a thread has run alone and `start` was
called a number of times. -/
structure Alike {ι : Type} (thread : ι) (starts : ℕ) (state : State) (shared : Shared ι) :
    Prop where
  /-- The registries are the same. -/
  registry : shared.toRegistry = state.toRegistry
  /-- The thread does not hold the mutex twice. -/
  held : state.held ≤ 1
  /-- The mutex has an owner when the thread holds it. -/
  owner : shared.owner = none ↔ state.held = 0
  /-- The thread is in no write. -/
  settled : shared.writing thread = none
  /-- The calls of `start`. -/
  starts : shared.starts = starts
  /-- The writes are the same. -/
  writes : shared.writes.map Write.attempt = state.attempts

section Alone

variable {ι : Type} [DecidableEq ι] {thread : ι} {parse : Bytes → Option Json} {network : Network}
  {starts : ℕ} {state : State} {shared : Shared ι}

/-- A thread in no write can make an attempt: begin, send what it sent, and finish as it did. -/
theorem exists_write (hsettled : shared.writing thread = none) {attempt : Attempt}
    (hfaithful : attempt.Faithful)
    (hopen : attempt.sent ≠ [] → shared.isOpen attempt.client = true) :
    ∃ middle out,
      Relation.ReflTransGen (Proceeds thread (.write attempt.client attempt.message)) shared
        middle ∧
      Replies thread (.write attempt.client attempt.message) middle attempt.ok { shared with
        writes := shared.writes ++ [attempt.write thread (shared.calls thread)]
        out := out } := by
  obtain ⟨client, message, sent, ok⟩ := attempt
  have hbegins : Proceeds thread (.write client message) shared
      (shared.beginWrite thread client message) := .begins hsettled
  have hbegun : (shared.beginWrite thread client message).InWrite thread shared.writes.length
      ⟨thread, shared.calls thread, client, message, [], .running⟩ client message :=
    ⟨beginWrite_writing_self .., List.getElem?_concat_length, rfl, rfl⟩
  have hwriting : shared.writing = Function.update (Function.update shared.writing thread
      (some shared.writes.length)) thread none := by
    rw [Function.update_idem, Function.update_eq_self_iff.mpr hsettled.symm]
  by_cases hempty : sent = []
  · refine ⟨_, shared.out, .single hbegins, _, _, hbegun, fun hok ↦ ?_, hfaithful.nothing, ?_⟩
    · exact hempty.symm.trans (hfaithful.whole hok)
    · simp only [Shared.finishWrite, Shared.beginWrite, modify_append_length, Write.finish,
        Attempt.write, hempty, ← hwriting]
  · have hsends : Proceeds thread (.write client message) _ _ :=
      .sends hbegun (hopen hempty) hempty hfaithful.beginning
    have hsent : ((shared.beginWrite thread client message).send shared.writes.length client
        sent).InWrite thread shared.writes.length
        ⟨thread, shared.calls thread, client, message, sent, .running⟩ client message := by
      refine ⟨beginWrite_writing_self thread client message shared, ?_, rfl, rfl⟩
      simp only [Shared.send, Shared.beginWrite, modify_append_length, Write.send, List.nil_append]
      exact List.getElem?_concat_length
    refine ⟨_, Function.update shared.out client (shared.out client ++ sent),
      (Relation.ReflTransGen.single hbegins).tail hsends, _, _, hsent, hfaithful.whole,
      hfaithful.nothing, ?_⟩
    simp only [Shared.finishWrite, Shared.send, Shared.beginWrite, modify_append_length,
      Write.finish, Write.send, Attempt.write, List.nil_append, ← hwriting]

/-- What one thread does alone, a thread among others can do. -/
theorem simulates (parse : Bytes → Option Json) (network : Network) (thread : ι) (starts : ℕ) :
    Simulates (machine parse) (semantics (standard network)) thread (Alike thread starts) where
  body := rfl
  note := fun halike ↦ ⟨halike.registry, halike.held, halike.owner, halike.settled,
    halike.starts, halike.writes⟩
  perform := by
    intro operation state value after shared halike hperform
    obtain ⟨hregistry, hheld, howner, hsettled, hstarts, hwrites⟩ := halike
    cases operation with
    | lock =>
      simp only [semantics, perform, standard, true_and] at hperform
      split_ifs at hperform with hbusy
      cases hperform
      have hfree : state.held = 0 := not_not.mp hbusy
      refine ⟨_, _, .refl, ⟨howner.mpr hfree, rfl⟩, hregistry, ?_, ?_, hsettled, hstarts, hwrites⟩
      · show state.held + 1 ≤ 1
        omega
      · simp [Shared.own]
    | unlock =>
      cases hperform
      refine ⟨_, _, .refl, rfl, hregistry, ?_, ?_, hsettled, hstarts, hwrites⟩
      · show state.held - 1 ≤ 1
        omega
      · simp only [Shared.own, true_iff]
        omega
    | write client message =>
      cases hperform
      have hopen : shared.isOpen client = state.isOpen client := by rw [hregistry]
      have hwrite := exists_write hsettled
        (attemptOf_faithful network state.attempts.length (state.isOpen client) client message)
        fun hsent ↦ by rw [attemptOf_client, hopen, isOpen_of_attemptOf_sent hsent]
      rw [attemptOf_client, attemptOf_message] at hwrite
      obtain ⟨middle, out, hproceeds, hreplies⟩ := hwrite
      refine ⟨_, _, hproceeds, hreplies, hregistry, hheld, howner, hsettled, hstarts, ?_⟩
      simp only [List.map_append, List.map_singleton, hwrites, attempt_write]
      rfl
    | remoteEndpoint client =>
      cases hperform
      exact ⟨_, _, .refl, rfl, hregistry, hheld, howner, hsettled, hstarts, hwrites⟩
    | enterHandleMessage jsonMessage client =>
      cases hperform
      exact ⟨_, _, .refl, rfl, hregistry, hheld, howner, hsettled, hstarts, hwrites⟩
    | registry operation =>
      simp only [semantics, perform] at hperform
      cases hstep : registryStep (standard network).pastEnd operation state.toRegistry with
      | returned reply registry =>
        rw [hstep] at hperform
        cases hperform
        rw [← hregistry] at hstep
        exact ⟨_, _, .refl, ⟨registry, Or.inl hstep, rfl⟩, rfl, hheld, howner, hsettled, hstarts,
          hwrites⟩
      | stopped reason registry =>
        rw [hstep] at hperform
        cases hperform

/-- One event run by one thread is run by a thread among others that are idle. -/
theorem steps_of_step {event : Event} {after : State} {value : Unit}
    (henabled : event.Enabled state)
    (hstep : step parse network event state = .returned value after)
    (halike : Alike thread starts state shared) :
    ∃ final, Alike thread (starts + if event.isStart then 1 else 0) after final ∧
      (machine parse).Steps ⟨shared, fun _ ↦ none⟩ ⟨final, fun _ ↦ none⟩ := by
  have henter : (machine parse).enter thread shared (event.program parse state.toRegistry)
      (shared.begin thread event) :=
    ⟨event, halike.registry ▸ henabled, by rw [halike.registry], rfl⟩
  have hbegun : Alike thread (starts + if event.isStart then 1 else 0) (event.prepare state)
      (shared.begin thread event) :=
    ⟨congrArg event.arrive halike.registry, halike.held, halike.owner, halike.settled,
      congrArg (· + _) halike.starts, halike.writes⟩
  have hat : Function.update (fun _ ↦ none) thread (some (event.program parse state.toRegistry))
      thread = some (event.program parse state.toRegistry >>= pure) := by
    rw [Function.update_self, bind_pure]
  obtain ⟨final, hfinal, hsteps⟩ := (simulates parse network thread _).exec hstep hbegun hat
  rw [Function.update_idem] at hsteps
  have hentered : (machine parse).Step ⟨shared, fun _ ↦ none⟩ _ := .enter rfl henter
  have hleft : (machine parse).Step ⟨final, Function.update (fun _ ↦ none) thread
      (some (pure value))⟩ _ := .leave (Function.update_self ..)
  rw [Function.update_idem, Function.update_eq_self_iff.mpr rfl] at hleft
  exact ⟨final, hfinal, (Relation.ReflTransGen.head hentered hsteps).tail hleft⟩

/-- A run by one thread is an interleaving in which the other threads stay idle. -/
theorem interleaved_of_run {maxClients : ℕ} {events : List Event} (thread : ι)
    (hrun : Run parse network (initial maxClients) events state) :
    ∃ shared, Alike thread (events.countP Event.isStart) state shared ∧
      Interleaved parse maxClients (⟨shared, fun _ ↦ none⟩ : Config signature ι (Shared ι)) := by
  induction hrun with
  | nil =>
    exact ⟨{ maxClients := maxClients }, ⟨rfl, Nat.zero_le 1, iff_of_true rfl rfl, rfl, rfl, rfl⟩,
      .refl⟩
  | snoc run henabled hstep ih =>
    obtain ⟨shared, halike, hsteps⟩ := ih
    obtain ⟨final, hfinal, hlast⟩ := steps_of_step henabled hstep halike
    refine ⟨final, ?_, hsteps.trans hlast⟩
    rw [List.countP_append, List.countP_singleton]
    exact hfinal

end Alone

/-! ### Disciplines of the server's programs -/

section Disciplines

variable {γ : Type} {discipline : Discipline signature γ} {context : γ}

/-- The operation is allowed, and every reply to it leads to a context with a property. -/
def Performs (discipline : Discipline signature γ) (context : γ) (operation : Operation)
    (post : operation.Reply → γ → Prop) : Prop :=
  discipline.allowed context operation ∧ ∀ reply after,
    discipline.next context operation reply = some after → post reply after

@[simp] theorem ok_lock {post : Unit → γ → Prop} :
    discipline.Ok lock context post ↔ Performs discipline context .lock post :=
  Iff.rfl

@[simp] theorem ok_unlock {post : Unit → γ → Prop} :
    discipline.Ok unlock context post ↔ Performs discipline context .unlock post :=
  Iff.rfl

@[simp] theorem ok_remoteEndpoint (client : SessionId) {post : Bool → γ → Prop} :
    discipline.Ok (remoteEndpoint client) context post ↔
      Performs discipline context (.remoteEndpoint client) post :=
  Iff.rfl

@[simp] theorem ok_clients {post : List SessionId → γ → Prop} :
    discipline.Ok clients context post ↔ Performs discipline context (.registry .clients) post :=
  Iff.rfl

@[simp] theorem ok_pushBack (client : SessionId) {post : Unit → γ → Prop} :
    discipline.Ok (pushBack client) context post ↔
      Performs discipline context (.registry (.pushBack client)) post :=
  Iff.rfl

@[simp] theorem ok_maxClients {post : ℕ → γ → Prop} :
    discipline.Ok maxClients context post ↔
      Performs discipline context (.registry .maxClients) post :=
  Iff.rfl

@[simp] theorem ok_isOpen (client : SessionId) {post : Bool → γ → Prop} :
    discipline.Ok (isOpen client) context post ↔
      Performs discipline context (.registry (.isOpen client)) post :=
  Iff.rfl

@[simp] theorem ok_close (client : SessionId) {post : Unit → γ → Prop} :
    discipline.Ok (close client) context post ↔
      Performs discipline context (.registry (.close client)) post :=
  Iff.rfl

@[simp] theorem ok_asyncReadSome (client : SessionId) {post : Unit → γ → Prop} :
    discipline.Ok (asyncReadSome client) context post ↔
      Performs discipline context (.registry (.asyncReadSome client)) post :=
  Iff.rfl

@[simp] theorem ok_asyncAccept {post : Unit → γ → Prop} :
    discipline.Ok asyncAccept context post ↔
      Performs discipline context (.registry .asyncAccept) post :=
  Iff.rfl

@[simp] theorem ok_setRunning (value : Bool) {post : Unit → γ → Prop} :
    discipline.Ok (setRunning value) context post ↔
      Performs discipline context (.registry (.setRunning value)) post :=
  Iff.rfl

/-- What the slots of a loop over `m_clients` keep, the loop keeps. -/
theorem ok_visitSlots {body : SessionId → ServerProgram Unit} {holds : ℕ → γ → Prop} {size : ℕ}
    (hslot : ∀ slot context, slot < size → holds slot context →
      Performs discipline context (.registry (.dereference slot)) fun client after ↦
        discipline.Ok (body client) after fun _ final ↦ holds (slot + 1) final)
    (remaining slot : ℕ) (hsize : slot + remaining = size) (hholds : holds slot context) :
    discipline.Ok (visitSlots body remaining slot) context fun _ final ↦ holds size final := by
  induction remaining generalizing slot context with
  | zero => exact hsize ▸ hholds
  | succ remaining ih =>
    obtain ⟨hallowed, hnext⟩ := hslot slot context (by omega) hholds
    refine Discipline.ok_bind.mpr ⟨hallowed, fun client after hafter ↦ ?_⟩
    refine Discipline.ok_bind.mpr ((hnext client after hafter).mono fun _ final hfinal ↦ ?_)
    exact ih (slot + 1) (by omega) hfinal

/-- What the slots of a loop over `m_clients` keep, the loop keeps from its first reading of
`m_clients` on. -/
theorem ok_forEachClient {body : SessionId → ServerProgram Unit} {holds : ℕ → ℕ → γ → Prop}
    (hslot : ∀ size slot context, slot < size → holds size slot context →
      Performs discipline context (.registry (.dereference slot)) fun client after ↦
        discipline.Ok (body client) after fun _ final ↦ holds size (slot + 1) final)
    (hclients : Performs discipline context (.registry .clients) fun members after ↦
      holds members.length 0 after) :
    discipline.Ok (forEachClient .slots body) context fun _ final ↦
      ∃ size, holds size size final := by
  refine Discipline.ok_bind.mpr ⟨hclients.1, fun members after hafter ↦ ?_⟩
  have hbegun := hclients.2 members after hafter
  refine (ok_visitSlots (hslot members.length) members.length 0 (Nat.zero_add _) hbegun).mono ?_
  exact fun _ final hfinal ↦ ⟨_, hfinal⟩

end Disciplines

end KoboldKhat.Server
