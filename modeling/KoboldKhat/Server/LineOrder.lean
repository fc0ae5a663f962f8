import KoboldKhat.Server.LineDiscipline
import KoboldKhat.Server.Lines

/-!
# The order of lines under many threads

Every line the server sends, a broadcast, a direct message or the notice that a recipient was not
found, is written in one critical section, from its first write to its last. The writes of all
threads therefore form one sequence of lines, and the stream of a socket is what that sequence wrote
to it (`lineOrder`).

The invariant joins what each thread knows (`ThreadInvariant`) with what holds of the writes, the
streams and `m_clients` (`LineInvariant`). As `m_clients` holds no session twice and does not change
while a broadcast runs, no session is written to twice by one call.
-/

set_option autoImplicit false
set_option relaxedAutoImplicit false

namespace KoboldKhat.Server

open Library

/-! ### The invariant -/

section Invariant

variable {ι : Type}

/-- What holds of a thread and its context. -/
structure ThreadInvariant (state : Shared ι) (thread : ι) (context : LineContext) : Prop where
  /-- The thread knows whether it owns the mutex. -/
  owns : context.owns = true ↔ state.owner = some thread
  /-- The thread knows whether it is in a write. -/
  writing : context.writing = (state.writing thread).isSome
  /-- Only the owner is in a write, which is the last one. -/
  last : ∀ number, state.writing thread = some number → context.owns = true ∧
    ∃ earlier write, state.writes = earlier ++ [write] ∧ earlier.length = number ∧
      write.status = .running
  /-- A call that has sent nothing has no write. -/
  fresh : context.progress = .nothing → ∀ write ∈ state.writes,
    write.source ≠ (thread, state.calls thread)
  /-- The last write is of the call that is sending, and its writes went to slots below the
  bound. -/
  progress : ∀ text bound, context.owns = true → context.progress = .slots text bound →
    (∃ earlier write, state.writes = earlier ++ [write] ∧
      write.source = (thread, state.calls thread) ∧ write.text = text) ∧
    ∀ write ∈ state.writes, write.source = (thread, state.calls thread) →
      write.client ∈ state.clients.take bound
  /-- The slots that the owner knows of are there. -/
  size : context.owns = true → context.size ≤ state.clients.length
  /-- The slot that the owner has read does not change. -/
  found : ∀ slot client, context.owns = true → context.found = some (slot, client) →
    state.clients[slot]? = some client
  /-- The new session of an accept handler is not in `m_clients` before it is appended. -/
  newSocket : ∀ client, context.newSocket = some client →
    client ∉ state.clients ∧ client < state.accepted

/-- The writes so far are in the order of lines, the streams hold what they sent, and `m_clients`
holds no session twice. -/
structure LineInvariant (state : Shared ι) (contexts : ι → LineContext) : Prop where
  /-- The threads and their contexts. -/
  threads : ∀ thread, ThreadInvariant state thread (contexts thread)
  /-- The writes are in the order of lines. -/
  lines : InLines state.writes
  /-- The writes sent beginnings of their texts. -/
  faithful : ∀ write ∈ state.writes, write.Faithful
  /-- The streams hold what the writes sent. -/
  streams : ∀ client, state.out client = sentTo client state.writes
  /-- The writes are of calls made before. -/
  past : ∀ write ∈ state.writes, write.call ≤ state.calls write.thread
  /-- `m_clients` holds no session twice. -/
  clients : state.clients.Nodup
  /-- The sessions in `m_clients` have been given to an accept handler. -/
  accepted : ∀ client ∈ state.clients, client < state.accepted
  /-- No two threads append the same session. -/
  newSockets : ∀ first second client, (contexts first).newSocket = some client →
    (contexts second).newSocket = some client → first = second

variable {state after : Shared ι} {thread : ι} {context : LineContext}

/-- A step that changes nothing the thread depends on. -/
theorem ThreadInvariant.frame (hthread : ThreadInvariant state thread context)
    (howner : after.owner = state.owner) (hwriting : after.writing thread = state.writing thread)
    (hwrites : after.writes = state.writes) (hcalls : after.calls thread = state.calls thread)
    (hclients : after.clients = state.clients) (haccepted : state.accepted ≤ after.accepted) :
    ThreadInvariant after thread context where
  owns := howner ▸ hthread.owns
  writing := hwriting ▸ hthread.writing
  last := hwriting ▸ hwrites ▸ hthread.last
  fresh := hcalls ▸ hwrites ▸ hthread.fresh
  progress := hcalls ▸ hwrites ▸ hclients ▸ hthread.progress
  size := hclients ▸ hthread.size
  found := hclients ▸ hthread.found
  newSocket := fun client hclient ↦ ⟨hclients ▸ (hthread.newSocket client hclient).1,
    Nat.lt_of_lt_of_le (hthread.newSocket client hclient).2 haccepted⟩

/-- A step of another thread that leaves the thread without the mutex. -/
theorem ThreadInvariant.bystander (hthread : ThreadInvariant state thread context)
    (hbefore : state.owner ≠ some thread) (howner : after.owner ≠ some thread)
    (hwriting : after.writing thread = state.writing thread)
    (hwrites : ∀ write ∈ after.writes, write.thread = thread →
      ∃ old ∈ state.writes, old.source = write.source)
    (hcalls : after.calls thread = state.calls thread)
    (hclients : ∀ client ∈ after.clients, context.newSocket = some client →
      client ∈ state.clients) (haccepted : state.accepted ≤ after.accepted) :
    ThreadInvariant after thread context := by
  have howns : context.owns ≠ true := fun howns ↦ hbefore (hthread.owns.mp howns)
  refine ⟨iff_of_false howns howner, hwriting ▸ hthread.writing, ?_, ?_,
    fun _ _ h ↦ absurd h howns, fun h ↦ absurd h howns, fun _ _ h ↦ absurd h howns, ?_⟩
  · intro number hnumber
    exact absurd (hthread.last number (hwriting ▸ hnumber)).1 howns
  · intro hnothing write hwrite hsource
    obtain ⟨old, hold, hsame⟩ := hwrites write hwrite (congrArg Prod.fst hsource)
    refine hthread.fresh hnothing old hold ?_
    rw [hsame, hsource, hcalls]
  · intro client hclient
    obtain ⟨hout, hbelow⟩ := hthread.newSocket client hclient
    exact ⟨fun hmember ↦ hout (hclients client hmember hclient),
      Nat.lt_of_lt_of_le hbelow haccepted⟩

/-- Only one thread owns the mutex. -/
theorem ThreadInvariant.ne_owner (hthread : ThreadInvariant state thread context)
    (howns : context.owns = true) {other : ι} (hother : other ≠ thread) :
    state.owner ≠ some other := by
  intro howner
  have hsame := (hthread.owns.mp howns).symm.trans howner
  exact hother (Option.some.inj hsame).symm

/-- Another write of the same text by the same call to the same session takes the place of the last
one. -/
theorem ThreadInvariant.replace (hthread : ThreadInvariant state thread context)
    {earlier : List (Write ι)} {old new : Write ι} (hbefore : state.writes = earlier ++ [old])
    (hafter : after.writes = earlier ++ [new]) (hsource : new.source = old.source)
    (htext : new.text = old.text) (hclient : new.client = old.client)
    (howner : after.owner = state.owner) (hcalls : after.calls = state.calls)
    (hclients : after.clients = state.clients) (haccepted : after.accepted = state.accepted)
    {writing : Bool} (hwriting : writing = (after.writing thread).isSome)
    (hlast : ∀ number, after.writing thread = some number → context.owns = true ∧
      earlier.length = number ∧ new.status = .running) :
    ThreadInvariant after thread { context with writing := writing } := by
  have hold : ∀ write ∈ after.writes, ∃ other ∈ state.writes,
      other.source = write.source ∧ other.client = write.client := by
    rw [hafter, hbefore]
    refine forall_mem_concat (fun write hearlier ↦ ?_) ?_
    · exact ⟨write, List.mem_append_left _ hearlier, rfl, rfl⟩
    · exact ⟨old, List.mem_concat_self, hsource.symm, hclient.symm⟩
  refine ⟨howner ▸ hthread.owns, hwriting, ?_, ?_, ?_, hclients ▸ hthread.size,
    hclients ▸ hthread.found, hclients ▸ haccepted ▸ hthread.newSocket⟩
  · intro number hnumber
    obtain ⟨howns, hlength, hrunning⟩ := hlast number hnumber
    exact ⟨howns, earlier, new, hafter, hlength, hrunning⟩
  · intro hnothing write hwrite
    obtain ⟨other, hother, hsame, -⟩ := hold write hwrite
    rw [← hsame, hcalls]
    exact hthread.fresh hnothing other hother
  · intro text bound howns hslots
    obtain ⟨⟨before, write, hwrites, hown, hsent⟩, hbound⟩ :=
      hthread.progress text bound howns hslots
    have hsame : write = old := by
      rw [hwrites] at hbefore
      exact List.singleton_inj.mp (List.append_inj' hbefore rfl).2
    refine ⟨⟨earlier, new, hafter, ?_, ?_⟩, ?_⟩
    · rw [hsource, ← hsame, hown, hcalls]
    · rw [htext, ← hsame, hsent]
    · intro write hwrite howned
      obtain ⟨other, hother, hsource, hclient⟩ := hold write hwrite
      rw [← hclient, hclients]
      exact hbound other hother (hsource.trans (hcalls ▸ howned))

/-- A later slot of a list without duplicates holds nothing that stands before it. -/
theorem not_mem_take_of_getElem? {α : Type} {list : List α} (hnodup : list.Nodup) {slot bound : ℕ}
    {value : α} (hslot : list[slot]? = some value) (hbound : bound ≤ slot) :
    value ∉ list.take bound := by
  have hlater : (list.drop bound)[slot - bound]? = some value := by
    rw [List.getElem?_drop, Nat.add_sub_cancel' hbound, hslot]
  exact fun hmember ↦ List.disjoint_take_drop hnodup (Nat.le_refl bound) hmember
    (List.mem_of_getElem? hlater)

namespace LineInvariant

variable {contexts : ι → LineContext}

/-- A step that changes neither the mutex, the writes, the streams nor the sessions. -/
theorem frame (hinvariant : LineInvariant state contexts) (howner : after.owner = state.owner)
    (hwriting : after.writing = state.writing) (hwrites : after.writes = state.writes)
    (hout : after.out = state.out) (hcalls : after.calls = state.calls)
    (hclients : after.clients = state.clients) (haccepted : after.accepted = state.accepted) :
    LineInvariant after contexts where
  threads := fun other ↦ (hinvariant.threads other).frame howner (congrFun hwriting other) hwrites
    (congrFun hcalls other) hclients (Nat.le_of_eq haccepted.symm)
  lines := hwrites ▸ hinvariant.lines
  faithful := hwrites ▸ hinvariant.faithful
  streams := hout ▸ hwrites ▸ hinvariant.streams
  past := hwrites ▸ hcalls ▸ hinvariant.past
  clients := hclients ▸ hinvariant.clients
  accepted := hclients ▸ haccepted ▸ hinvariant.accepted
  newSockets := hinvariant.newSockets

/-- The writes of a call that may write once more went to other sessions. -/
theorem client_ne_of_mayWrite (hinvariant : LineInvariant state contexts)
    (howns : (contexts thread).owns = true) {client : SessionId} {message : Bytes}
    (hmay : (contexts thread).MayWrite client message) {write : Write ι}
    (hwrite : write ∈ state.writes) (hsource : write.source = (thread, state.calls thread)) :
    write.client ≠ client := by
  have hself := hinvariant.threads thread
  rcases hmay with hnothing | ⟨bound, slot, hslots, hfound, hbound⟩
  · exact absurd hsource (hself.fresh hnothing write hwrite)
  · have hbelow := (hself.progress message bound howns hslots).2 write hwrite hsource
    rintro rfl
    have hslot := hself.found slot write.client howns hfound
    exact not_mem_take_of_getElem? hinvariant.clients hslot hbound hbelow

/-- A call that may write once more adds to its line, or begins it. -/
theorem inLines_of_mayWrite (hinvariant : LineInvariant state contexts)
    (howns : (contexts thread).owns = true) {client : SessionId} {message : Bytes}
    (hmay : (contexts thread).MayWrite client message) :
    InLines (state.writes ++ [⟨thread, state.calls thread, client, message, [], .running⟩]) := by
  have hself := hinvariant.threads thread
  rcases hmay with hnothing | ⟨bound, slot, hslots, hfound, hbound⟩
  · exact .first hinvariant.lines (hself.fresh hnothing)
  · obtain ⟨⟨earlier, last, hwrites, hsource, htext⟩, -⟩ :=
      hself.progress message bound howns hslots
    have hother : ∀ write ∈ state.writes, write.source = (thread, state.calls thread) →
        write.client ≠ client := fun write hwrite hsource ↦
      hinvariant.client_ne_of_mayWrite howns (Or.inr ⟨bound, slot, hslots, hfound, hbound⟩) hwrite
        hsource
    rw [hwrites] at hother ⊢
    exact .next (hwrites ▸ hinvariant.lines) hsource htext hother

/-- What a thread knows once a write has begun. -/
theorem progress_of_write (hinvariant : LineInvariant state contexts)
    (howns : (contexts thread).owns = true) {client : SessionId} {message : Bytes}
    (hmay : (contexts thread).MayWrite client message) {text : Bytes} {bound : ℕ}
    (hprogress : ((contexts thread).write client message).progress = .slots text bound) :
    message = text ∧ client ∈ state.clients.take bound ∧ ∀ write ∈ state.writes,
      write.source = (thread, state.calls thread) → write.client ∈ state.clients.take bound := by
  have hself := hinvariant.threads thread
  cases hfound : (contexts thread).found with
  | none => simp [LineContext.write, hfound] at hprogress
  | some place =>
    obtain ⟨slot, found⟩ := place
    simp only [LineContext.write, hfound] at hprogress
    split_ifs at hprogress with hsame
    · obtain ⟨rfl, rfl⟩ := Progress.slots.inj hprogress
      subst hsame
      have hslot := hself.found slot found howns hfound
      refine ⟨rfl, ?_, fun write hwrite hsource ↦ ?_⟩
      · have htaken : (state.clients.take (slot + 1))[slot]? = some found := by
          rw [List.getElem?_take_of_lt (Nat.lt_succ_self slot), hslot]
        exact List.mem_of_getElem? htaken
      · rcases hmay with hnothing | ⟨below, place, hslots, hplace, hbelow⟩
        · exact absurd hsource (hself.fresh hnothing write hwrite)
        · have hwritten := (hself.progress message below howns hslots).2 write hwrite hsource
          rw [hfound] at hplace
          obtain ⟨rfl, -⟩ := Prod.mk.inj (Option.some.inj hplace)
          exact List.take_subset_take_left _ (Nat.le_succ_of_le hbelow) hwritten

/-- The write that a thread is in is the last one. -/
theorem exists_last (hinvariant : LineInvariant state contexts) {number : ℕ} {write : Write ι}
    (hwriting : state.writing thread = some number)
    (hwrite : state.writes[number]? = some write) :
    (contexts thread).owns = true ∧ write.status = .running ∧
      ∃ earlier, state.writes = earlier ++ [write] ∧ earlier.length = number := by
  obtain ⟨howns, earlier, last, hwrites, hlength, hrunning⟩ :=
    (hinvariant.threads thread).last number hwriting
  rw [hwrites, ← hlength, List.getElem?_concat_length] at hwrite
  obtain rfl := Option.some.inj hwrite
  exact ⟨howns, hrunning, earlier, hwrites, hlength⟩

/-- No write is of a call that its thread has not made. -/
theorem source_ne_of_later (hinvariant : LineInvariant state contexts) {write : Write ι}
    (hwrite : write ∈ state.writes) {call : ℕ} (hcall : call = state.calls thread + 1) :
    write.source ≠ (thread, call) := by
  intro hsource
  obtain ⟨rfl, hsame⟩ := Prod.mk.inj hsource
  have hpast := hinvariant.past write hwrite
  omega

variable [DecidableEq ι]

/-- The new sessions stay apart when a thread's context changes without a new one. -/
theorem newSockets_update (hinvariant : LineInvariant state contexts) {context : LineContext}
    (hcontext : ∀ client, context.newSocket = some client →
      (contexts thread).newSocket = some client) (first second : ι) (client : SessionId)
    (hfirst : (Function.update contexts thread context first).newSocket = some client)
    (hsecond : (Function.update contexts thread context second).newSocket = some client) :
    first = second := by
  have hkept : ∀ other, (Function.update contexts thread context other).newSocket = some client →
      (contexts other).newSocket = some client := by
    intro other
    by_cases hother : other = thread
    · rw [hother, Function.update_self]
      exact hcontext client
    · rw [Function.update_of_ne hother]
      exact id
  exact hinvariant.newSockets first second client (hkept first hfirst) (hkept second hsecond)

/-- A step of one thread that changes at most the owner of the mutex and what the thread knows. -/
theorem own (hinvariant : LineInvariant state contexts) {owner : Option ι} {context : LineContext}
    (hself : ThreadInvariant (state.own owner) thread context)
    (hothers : ∀ other, other ≠ thread → ThreadInvariant (state.own owner) other (contexts other))
    (hcontext : context.newSocket = none ∨ context.newSocket = (contexts thread).newSocket) :
    LineInvariant (state.own owner) (Function.update contexts thread context) where
  threads := (Function.forall_update_iff _ (ThreadInvariant (state.own owner))).mpr ⟨hself, hothers⟩
  lines := hinvariant.lines
  faithful := hinvariant.faithful
  streams := hinvariant.streams
  past := hinvariant.past
  clients := hinvariant.clients
  accepted := hinvariant.accepted
  newSockets := by
    refine hinvariant.newSockets_update fun client hclient ↦ ?_
    rcases hcontext with hnone | hsame
    · rw [hnone] at hclient
      cases hclient
    · exact hsame ▸ hclient

/-- Locking the mutex. -/
theorem lock (hinvariant : LineInvariant state contexts) (hfree : state.owner = none) :
    LineInvariant (state.own (some thread))
      (Function.update contexts thread ((contexts thread).changed true)) := by
  have hself := hinvariant.threads thread
  have hidle : ∀ other, state.owner ≠ some other := fun other ↦ hfree ▸ nofun
  refine hinvariant.own ⟨iff_of_true rfl rfl, hself.writing, ?_, ?_, ?_, fun _ ↦ Nat.zero_le _, ?_,
    hself.newSocket⟩ (fun other hother ↦ ?_) (Or.inr rfl)
  · intro number hnumber
    exact absurd (hself.owns.mp (hself.last number hnumber).1) (hidle thread)
  · exact fun hnothing ↦ hself.fresh (Progress.close_eq_nothing.mp hnothing)
  · exact fun text bound _ hslots ↦ absurd hslots (Progress.close_ne_slots _ text bound)
  · exact fun _ _ _ hnone ↦ by cases hnone
  · refine (hinvariant.threads other).bystander (hidle other) ?_ rfl
      (fun write hwrite _ ↦ ⟨write, hwrite, rfl⟩) rfl (fun _ hclient _ ↦ hclient) (Nat.le_refl _)
    exact fun hsame ↦ hother (Option.some.inj hsame).symm

/-- Unlocking the mutex. -/
theorem unlock (hinvariant : LineInvariant state contexts)
    (hlocked : (contexts thread).owns = true ∧ (contexts thread).writing = false) :
    LineInvariant (state.own none)
      (Function.update contexts thread ((contexts thread).changed false)) := by
  have hself := hinvariant.threads thread
  refine hinvariant.own ⟨iff_of_false Bool.false_ne_true nofun, hself.writing, ?_, ?_, ?_,
    fun _ ↦ Nat.zero_le _, ?_, hself.newSocket⟩ (fun other hother ↦ ?_) (Or.inr rfl)
  · intro number hnumber
    have hwriting := hself.writing
    rw [hlocked.2, show state.writing thread = some number from hnumber] at hwriting
    cases hwriting
  · exact fun hnothing ↦ hself.fresh (Progress.close_eq_nothing.mp hnothing)
  · exact fun _ _ hfalse ↦ absurd hfalse Bool.false_ne_true
  · exact fun _ _ hfalse ↦ absurd hfalse Bool.false_ne_true
  · exact (hinvariant.threads other).bystander (hself.ne_owner hlocked.1 hother) nofun rfl
      (fun write hwrite _ ↦ ⟨write, hwrite, rfl⟩) rfl (fun _ hclient _ ↦ hclient) (Nat.le_refl _)

/-- The owner of the mutex reads `m_clients`. -/
theorem learnSize (hinvariant : LineInvariant state contexts) :
    LineInvariant state
      (Function.update contexts thread { contexts thread with size := state.clients.length }) := by
  have hself := hinvariant.threads thread
  exact @own _ _ _ _ _ hinvariant state.owner _ ⟨hself.owns, hself.writing, hself.last, hself.fresh,
    hself.progress, fun _ ↦ Nat.le_refl _, hself.found, hself.newSocket⟩
    (fun other _ ↦ hinvariant.threads other) (Or.inr rfl)

/-- The owner of the mutex reads a slot of `m_clients`. What it reads past the slots it knows of, it
does not rely on. -/
theorem dereference (hinvariant : LineInvariant state contexts) {slot : ℕ} {client : SessionId}
    (hslot : slot < state.clients.length → state.clients[slot]? = some client) :
    LineInvariant state (Function.update contexts thread { contexts thread with
      found := if slot < (contexts thread).size then some (slot, client) else none }) := by
  have hself := hinvariant.threads thread
  refine @own _ _ _ _ _ hinvariant state.owner _ ⟨hself.owns, hself.writing, hself.last,
    hself.fresh, hself.progress, hself.size, ?_, hself.newSocket⟩
    (fun other _ ↦ hinvariant.threads other) (Or.inr rfl)
  intro place value howns hplace
  dsimp only at hplace
  split_ifs at hplace with hknown
  obtain ⟨rfl, rfl⟩ := Prod.mk.inj (Option.some.inj hplace)
  exact hslot (Nat.lt_of_lt_of_le hknown (hself.size howns))

/-- The owner of the mutex takes sessions out of `m_clients`. -/
theorem shrink (hinvariant : LineInvariant state contexts) (howns : (contexts thread).owns = true)
    {clients : List SessionId} (hclients : clients.Sublist state.clients) :
    LineInvariant { state with clients := clients }
      (Function.update contexts thread ((contexts thread).changed (contexts thread).owns)) where
  threads := by
    have hself := hinvariant.threads thread
    refine (Function.forall_update_iff _ (ThreadInvariant { state with clients := clients })).mpr
      ⟨⟨hself.owns, hself.writing, hself.last, ?_, ?_, fun _ ↦ Nat.zero_le _, ?_, ?_⟩,
        fun other hother ↦ ?_⟩
    · exact fun hnothing ↦ hself.fresh (Progress.close_eq_nothing.mp hnothing)
    · exact fun text bound _ hslots ↦ absurd hslots (Progress.close_ne_slots _ text bound)
    · exact fun _ _ _ hnone ↦ by cases hnone
    · exact fun client hclient ↦ (hself.newSocket client hclient).imp_left
        fun hout hmember ↦ hout (hclients.subset hmember)
    · exact (hinvariant.threads other).bystander (hself.ne_owner howns hother)
        (hself.ne_owner howns hother) rfl (fun write hwrite _ ↦ ⟨write, hwrite, rfl⟩) rfl
        (fun client hclient _ ↦ hclients.subset hclient) (Nat.le_refl _)
  lines := hinvariant.lines
  faithful := hinvariant.faithful
  streams := hinvariant.streams
  past := hinvariant.past
  clients := hinvariant.clients.sublist hclients
  accepted := fun client hclient ↦ hinvariant.accepted client (hclients.subset hclient)
  newSockets := hinvariant.newSockets_update fun _ ↦ id

/-- The owner of the mutex appends the session it was given to `m_clients`. -/
theorem append (hinvariant : LineInvariant state contexts) (howns : (contexts thread).owns = true)
    {client : SessionId} (hnew : (contexts thread).newSocket = some client) :
    LineInvariant { state with clients := state.clients ++ [client] }
      (Function.update contexts thread { contexts thread with newSocket := none }) where
  threads := by
    have hself := hinvariant.threads thread
    refine (Function.forall_update_iff _
      (ThreadInvariant { state with clients := state.clients ++ [client] })).mpr
      ⟨⟨hself.owns, hself.writing, hself.last, hself.fresh, ?_, ?_, ?_, nofun⟩,
        fun other hother ↦ ?_⟩
    · intro text bound _ hslots
      refine (hself.progress text bound howns hslots).imp_right fun hbound write hwrite hown ↦ ?_
      rw [List.take_append]
      exact List.mem_append_left _ (hbound write hwrite hown)
    · exact fun _ ↦ Nat.le_trans (hself.size howns) (by simp)
    · intro slot value _ hfound
      have hslot := hself.found slot value howns hfound
      exact (List.getElem?_append_left (List.getElem?_eq_some_iff.mp hslot).1).trans hslot
    · refine (hinvariant.threads other).bystander (hself.ne_owner howns hother)
        (hself.ne_owner howns hother) rfl (fun write hwrite _ ↦ ⟨write, hwrite, rfl⟩) rfl
        (fun value hvalue hpending ↦ ?_) (Nat.le_refl _)
      rcases List.mem_append.mp hvalue with hbefore | hlast
      · exact hbefore
      · rw [List.mem_singleton.mp hlast] at hpending
        exact absurd (hinvariant.newSockets other thread client hpending hnew) hother
  lines := hinvariant.lines
  faithful := hinvariant.faithful
  streams := hinvariant.streams
  past := hinvariant.past
  clients := by
    rw [← List.concat_eq_append]
    exact List.Nodup.concat ((hinvariant.threads thread).newSocket client hnew).1
      hinvariant.clients
  accepted := forall_mem_concat hinvariant.accepted
    ((hinvariant.threads thread).newSocket client hnew).2
  newSockets := hinvariant.newSockets_update fun _ hnone ↦ by cases hnone

/-- A write begins. -/
theorem beginWrite (hinvariant : LineInvariant state contexts)
    (howns : (contexts thread).owns = true) {client : SessionId} {message : Bytes}
    (hmay : (contexts thread).MayWrite client message) :
    LineInvariant (state.beginWrite thread client message)
      (Function.update contexts thread ((contexts thread).write client message)) where
  threads := by
    have hself := hinvariant.threads thread
    refine (Function.forall_update_iff _
      (ThreadInvariant (state.beginWrite thread client message))).mpr ⟨?_, fun other hother ↦ ?_⟩
    · refine ⟨hself.owns, ?_, ?_, ?_, ?_, hself.size, hself.found, hself.newSocket⟩
      · simp [LineContext.write]
      · intro number hnumber
        rw [beginWrite_writing_self] at hnumber
        exact ⟨howns, state.writes, _, rfl, Option.some.inj hnumber, rfl⟩
      · exact fun hnothing ↦ absurd hnothing (LineContext.write_progress_ne_nothing _ _ _)
      · intro text bound _ hprogress
        obtain ⟨rfl, hclient, hothers⟩ := hinvariant.progress_of_write howns hmay hprogress
        exact ⟨⟨state.writes, _, rfl, rfl, rfl⟩, forall_mem_concat hothers fun _ ↦ hclient⟩
    · refine (hinvariant.threads other).bystander (hself.ne_owner howns hother)
        (hself.ne_owner howns hother) (Function.update_of_ne hother ..) ?_ rfl
        (fun _ hclient _ ↦ hclient) (Nat.le_refl _)
      exact forall_mem_concat (fun write hwrite _ ↦ ⟨write, hwrite, rfl⟩)
        fun hown ↦ absurd hown.symm hother
  lines := hinvariant.inLines_of_mayWrite howns hmay
  faithful := forall_mem_concat hinvariant.faithful
    ⟨List.nil_prefix, fun hreturned ↦ by cases hreturned⟩
  streams := by
    intro other
    rw [Shared.beginWrite, sentTo_concat]
    simp only [hinvariant.streams other, ite_self, List.append_nil]
  past := forall_mem_concat hinvariant.past (Nat.le_refl _)
  clients := hinvariant.clients
  accepted := hinvariant.accepted
  newSockets := hinvariant.newSockets_update fun _ ↦ id

/-- The write that a thread is in takes a step: its record and the stream of its session change. -/
theorem replaceLast (hinvariant : LineInvariant state contexts)
    (howns : (contexts thread).owns = true) {earlier : List (Write ι)} {old new : Write ι}
    (hbefore : state.writes = earlier ++ [old]) (hafter : after.writes = earlier ++ [new])
    (hsource : new.source = old.source) (htext : new.text = old.text)
    (hclient : new.client = old.client) (hfaithful : new.Faithful)
    (howner : after.owner = state.owner) (hcalls : after.calls = state.calls)
    (hregistry : after.toRegistry = state.toRegistry)
    (hstreams : ∀ client, after.out client = sentTo client after.writes)
    (hothers : ∀ other, other ≠ thread → after.writing other = state.writing other)
    {writing : Bool} (hwriting : writing = (after.writing thread).isSome)
    (hlast : ∀ number, after.writing thread = some number →
      earlier.length = number ∧ new.status = .running) :
    LineInvariant after
      (Function.update contexts thread { contexts thread with writing := writing }) := by
  have hclients : after.clients = state.clients := congrArg _ hregistry
  have haccepted : after.accepted = state.accepted := congrArg _ hregistry
  have hself := hinvariant.threads thread
  have holds : ∀ {holds : Write ι → Prop}, (∀ write ∈ state.writes, holds write) →
      (holds old → holds new) → ∀ write ∈ after.writes, holds write := by
    intro holds hall hnew
    rw [hbefore] at hall
    rw [hafter]
    exact forall_mem_concat (fun write hearlier ↦ hall write (List.mem_append_left _ hearlier))
      (hnew (hall old List.mem_concat_self))
  refine ⟨(Function.forall_update_iff _ (ThreadInvariant after)).mpr ⟨?_, fun other hother ↦ ?_⟩,
    ?_, ?_, hstreams, ?_, hclients ▸ hinvariant.clients, hclients ▸ haccepted ▸ hinvariant.accepted,
    hinvariant.newSockets_update fun _ ↦ id⟩
  · exact hself.replace hbefore hafter hsource htext hclient howner hcalls hclients haccepted
      hwriting fun number hnumber ↦ ⟨howns, hlast number hnumber⟩
  · refine (hinvariant.threads other).bystander (hself.ne_owner howns hother)
      (howner ▸ hself.ne_owner howns hother) (hothers other hother) ?_ (congrFun hcalls other)
      (fun _ hmember _ ↦ hclients ▸ hmember) (Nat.le_of_eq haccepted.symm)
    refine holds (fun write hwrite _ ↦ ⟨write, hwrite, rfl⟩) fun hold hown ↦ ?_
    rw [hsource]
    exact hold ((congrArg Prod.fst hsource).symm.trans hown)
  · rw [hafter]
    exact InLines.replace (hbefore ▸ hinvariant.lines) hsource htext hclient
  · exact holds hinvariant.faithful fun _ ↦ hfaithful
  · rw [hcalls]
    refine holds hinvariant.past fun hpast ↦ ?_
    obtain ⟨hthread, hcall⟩ := Prod.mk.inj hsource
    rw [hthread, hcall]
    exact hpast

/-- A write sends some more bytes. -/
theorem send (hinvariant : LineInvariant state contexts) {number : ℕ} {write : Write ι}
    {client : SessionId} {message bytes : Bytes}
    (hwrite : state.InWrite thread number write client message)
    (hmessage : write.sent ++ bytes <+: message) :
    LineInvariant (state.send number client bytes) contexts := by
  obtain ⟨hwriting, hrecord, rfl, rfl⟩ := hwrite
  obtain ⟨howns, hrunning, earlier, hwrites, hlength⟩ := hinvariant.exists_last hwriting hrecord
  have hafter : (state.send number write.client bytes).writes = earlier ++ [write.send bytes] := by
    simp only [Shared.send, hwrites, ← hlength, modify_append_length]
  have hkept := hinvariant.replaceLast howns hwrites hafter rfl rfl rfl
    ⟨hmessage, fun hreturned ↦ by cases hrunning.symm.trans hreturned⟩ rfl rfl rfl
    (fun other ↦ ?_) (fun _ _ ↦ rfl) (hinvariant.threads thread).writing
    (fun other hother ↦ ⟨?_, hrunning⟩)
  · have hsame : { contexts thread with writing := (contexts thread).writing } = contexts thread :=
      rfl
    rwa [hsame, Function.update_eq_self] at hkept
  · rw [hafter, sentTo_concat]
    have hstream := hinvariant.streams other
    rw [hwrites, sentTo_concat] at hstream
    by_cases hother : write.client = other
    · subst hother
      rw [if_pos rfl] at hstream
      show Function.update state.out write.client (state.out write.client ++ bytes) write.client = _
      rw [Function.update_self, hstream, List.append_assoc]
      exact congrArg _ (if_pos rfl).symm
    · rw [if_neg hother] at hstream
      show Function.update state.out write.client (state.out write.client ++ bytes) other = _
      rw [Function.update_of_ne (Ne.symm hother), hstream]
      exact congrArg _ (if_neg hother).symm
  · exact hlength.trans (Option.some.inj (hwriting.symm.trans hother))

/-- A write returns or throws. -/
theorem finishWrite (hinvariant : LineInvariant state contexts) {number : ℕ} {write : Write ι}
    {client : SessionId} {message : Bytes} {sent : Bool}
    (hwrite : state.InWrite thread number write client message)
    (hsent : sent = true → write.sent = message) :
    LineInvariant (state.finishWrite thread number sent)
      (Function.update contexts thread { contexts thread with writing := false }) := by
  obtain ⟨hwriting, hrecord, rfl, rfl⟩ := hwrite
  obtain ⟨howns, hrunning, earlier, hwrites, hlength⟩ := hinvariant.exists_last hwriting hrecord
  have hafter : (state.finishWrite thread number sent).writes = earlier ++ [write.finish sent] := by
    simp only [Shared.finishWrite, hwrites, ← hlength, modify_append_length]
  have hmember : write ∈ state.writes := hwrites ▸ List.mem_concat_self
  refine hinvariant.replaceLast howns hwrites hafter rfl rfl rfl
    ⟨(hinvariant.faithful write hmember).beginning, ?_⟩ rfl rfl rfl (fun other ↦ ?_)
    (fun other hother ↦ Function.update_of_ne hother ..) ?_ (fun other hother ↦ ?_)
  · cases sent with
    | true => exact fun _ ↦ hsent rfl
    | false =>
      intro hreturned
      cases hreturned
  · rw [hafter, sentTo_concat]
    exact (hinvariant.streams other).trans (hwrites ▸ sentTo_concat other earlier write)
  · rw [finishWrite_writing_self]
    rfl
  · rw [finishWrite_writing_self] at hother
    cases hother

/-- A thread calls a function: a line of its own is still to begin. -/
theorem nextCall (hinvariant : LineInvariant state contexts) :
    LineInvariant (state.nextCall thread)
      (Function.update contexts thread { contexts thread with progress := .nothing }) where
  threads := by
    have hself := hinvariant.threads thread
    refine (Function.forall_update_iff _ (ThreadInvariant (state.nextCall thread))).mpr
      ⟨⟨hself.owns, hself.writing, hself.last, ?_, nofun, hself.size, hself.found,
        hself.newSocket⟩, fun other hother ↦ ?_⟩
    · exact fun _ write hwrite ↦ hinvariant.source_ne_of_later hwrite (nextCall_calls_self ..)
    · exact (hinvariant.threads other).frame rfl rfl rfl (Function.update_of_ne hother ..) rfl
        (Nat.le_refl _)
  lines := hinvariant.lines
  faithful := hinvariant.faithful
  streams := hinvariant.streams
  past := fun write hwrite ↦
    Nat.le_trans (hinvariant.past write hwrite) (calls_le_nextCall thread state write.thread)
  clients := hinvariant.clients
  accepted := hinvariant.accepted
  newSockets := hinvariant.newSockets_update fun _ ↦ id

/-- An idle thread begins a program, with a new session if it is an accept handler given one. -/
theorem begin (hinvariant : LineInvariant state contexts) (hfree : (contexts thread).owns = false)
    {event : Event} {newSocket : Option SessionId}
    (hclients : (event.arrive state.toRegistry).clients = state.clients)
    (haccepted : state.accepted ≤ (event.arrive state.toRegistry).accepted)
    (hnew : ∀ client, newSocket = some client →
      client = state.accepted ∧ state.accepted < (event.arrive state.toRegistry).accepted) :
    LineInvariant (state.begin thread event)
      (Function.update contexts thread { newSocket := newSocket }) where
  threads := by
    have hself := hinvariant.threads thread
    have howns : (contexts thread).owns ≠ true := fun howns ↦ by rw [hfree] at howns; cases howns
    have hidle : state.writing thread = none := by
      cases hwriting : state.writing thread with
      | none => rfl
      | some number => exact absurd (hself.last number hwriting).1 howns
    refine (Function.forall_update_iff _ (ThreadInvariant (state.begin thread event))).mpr
      ⟨?_, fun other hother ↦ ?_⟩
    · refine ⟨iff_of_false Bool.false_ne_true fun howner ↦ howns (hself.owns.mpr howner), ?_, ?_,
        ?_, nofun, nofun, nofun, ?_⟩
      · exact (congrArg Option.isSome hidle).symm
      · exact fun number hnumber ↦ absurd (hself.last number hnumber).1 howns
      · exact fun _ write hwrite ↦ hinvariant.source_ne_of_later hwrite (nextCall_calls_self ..)
      · intro client hclient
        obtain ⟨rfl, hbelow⟩ := hnew client hclient
        refine ⟨fun hmember ↦ ?_, hbelow⟩
        have hless := hinvariant.accepted state.accepted (hclients ▸ hmember)
        exact absurd hless (Nat.lt_irrefl _)
    · exact (hinvariant.threads other).frame rfl rfl rfl (Function.update_of_ne hother ..) hclients
        haccepted
  lines := hinvariant.lines
  faithful := hinvariant.faithful
  streams := hinvariant.streams
  past := fun write hwrite ↦
    Nat.le_trans (hinvariant.past write hwrite) (calls_le_nextCall thread state write.thread)
  clients := hclients.symm ▸ hinvariant.clients
  accepted := fun client hclient ↦
    Nat.lt_of_lt_of_le (hinvariant.accepted client (hclients ▸ hclient)) haccepted
  newSockets := by
    have honly : ∀ other client, other ≠ thread → newSocket = some client →
        (contexts other).newSocket ≠ some client := by
      intro other client hother hclient hpending
      have hbelow := ((hinvariant.threads other).newSocket client hpending).2
      rw [(hnew client hclient).1] at hbelow
      exact absurd hbelow (Nat.lt_irrefl _)
    intro first second client hfirst hsecond
    by_cases hone : first = thread
    · by_cases htwo : second = thread
      · rw [hone, htwo]
      · rw [hone, Function.update_self] at hfirst
        rw [Function.update_of_ne htwo] at hsecond
        exact absurd hsecond (honly second client htwo hfirst)
    · rw [Function.update_of_ne hone] at hfirst
      by_cases htwo : second = thread
      · rw [htwo, Function.update_self] at hsecond
        exact absurd hfirst (honly first client hone hsecond)
      · rw [Function.update_of_ne htwo] at hsecond
        exact hinvariant.newSockets first second client hfirst hsecond

end LineInvariant

end Invariant

/-! ### Every step keeps the invariant -/

section Sound

variable {ι : Type} [DecidableEq ι] {parse : Bytes → Option Json} {state : Shared ι}
  {contexts : ι → LineContext} {thread : ι}

/-- A program that is begun keeps the discipline, in a context with the new session if it is an
accept handler that is given one. -/
theorem LineInvariant.enter (hinvariant : LineInvariant state contexts)
    (hfree : (contexts thread).owns = false) (event : Event) :
    ∃ context, LineInvariant (state.begin thread event)
        (Function.update contexts thread context) ∧
      lineDiscipline.Ok (event.program parse state.toRegistry) context fun _ final ↦
        final.Free := by
  cases event with
  | runAccept result =>
    cases result with
    | error =>
      exact ⟨{ newSocket := none }, hinvariant.begin hfree rfl (Nat.le_refl _) nofun,
        ok_acceptHandler_newSocket state.accepted .error ⟨rfl, rfl⟩ nofun⟩
    | success =>
      refine ⟨{ newSocket := some state.accepted }, hinvariant.begin hfree rfl (Nat.le_succ _) ?_,
        ok_acceptHandler_newSocket _ .success ⟨rfl, rfl⟩ fun _ ↦ rfl⟩
      exact fun client hclient ↦ ⟨(Option.some.inj hclient).symm, Nat.lt_succ_self _⟩
  | start =>
    refine ⟨{ newSocket := none }, hinvariant.begin hfree rfl (Nat.le_refl _) nofun, ?_⟩
    simp [Event.program, Server.start, acceptConnections, Performs, lineDiscipline,
      LineContext.Allows, LineContext.next, LineContext.Free]
  | acceptCompletes result =>
    exact ⟨{ newSocket := none }, hinvariant.begin hfree rfl (Nat.le_refl _) nofun, ⟨rfl, rfl⟩⟩
  | readCompletes client result =>
    exact ⟨{ newSocket := none }, hinvariant.begin hfree rfl (Nat.le_refl _) nofun, ⟨rfl, rfl⟩⟩
  | runRead client result =>
    exact ⟨{ newSocket := none }, hinvariant.begin hfree rfl (Nat.le_refl _) nofun,
      ok_readHandler parse client result ⟨rfl, rfl⟩ rfl⟩
  | broadcast message excludeSocket =>
    exact ⟨{ newSocket := none }, hinvariant.begin hfree rfl (Nat.le_refl _) nofun,
      rfl, fun _ hfinal ↦ hfinal.2⟩
  | shutdown =>
    exact ⟨{ newSocket := none }, hinvariant.begin hfree rfl (Nat.le_refl _) nofun,
      ok_shutdown ⟨rfl, rfl⟩⟩

/-- An operation on the registry keeps the invariant. -/
theorem LineInvariant.operate (hinvariant : LineInvariant state contexts)
    {operation : RegistryOperation} {reply : operation.Reply} {registry : Registry}
    (hallows : (contexts thread).Allows (.registry operation))
    (hreply : state.MayReply operation reply registry) :
    ∃ context, (contexts thread).next (.registry operation) reply = some context ∧
      LineInvariant (state.operate thread operation registry)
        (Function.update contexts thread context) := by
  rcases hreply.returned_or_past with hstep | ⟨⟨slot, rfl, hpast⟩, rfl⟩
  · cases operation with
    | clients =>
      cases hstep
      exact ⟨_, rfl, hinvariant.learnSize.frame rfl rfl rfl rfl rfl rfl rfl⟩
    | dereference slot =>
      simp only [registryStep, Option.or_none] at hstep
      split at hstep
      case h_1 client hslot =>
        cases hstep
        exact ⟨_, rfl, (hinvariant.dereference fun _ ↦ hslot).frame rfl rfl rfl rfl rfl rfl rfl⟩
      case h_2 => cases hstep
    | pushBack client =>
      cases hstep
      exact ⟨_, rfl, hinvariant.append hallows.1 hallows.2⟩
    | erase slot =>
      cases hstep
      exact ⟨_, rfl, hinvariant.shrink hallows (List.eraseIdx_sublist _ _)⟩
    | clear =>
      cases hstep
      exact ⟨_, rfl, hinvariant.shrink hallows (List.nil_sublist _)⟩
    | _ =>
      cases hstep
      refine ⟨contexts thread, rfl, ?_⟩
      rw [Function.update_eq_self]
      exact hinvariant.frame rfl rfl rfl rfl rfl rfl rfl
  · refine ⟨_, rfl, (hinvariant.dereference fun hslot ↦ ?_).frame rfl rfl rfl rfl rfl rfl rfl⟩
    exact absurd hslot (Nat.not_lt.mpr (List.getElem?_eq_none_iff.mp hpast))

/-- The invariant and the discipline fit the server. -/
theorem lineSound : lineDiscipline.Sound (machine parse) LineContext.Free (@LineInvariant ι) where
  enter := by
    rintro state contexts thread program after hinvariant hrest ⟨event, -, rfl, rfl⟩
    exact hinvariant.enter hrest.1 event
  proceed := by
    intro state contexts thread operation after hinvariant hallows hproceed
    cases hproceed with
    | @begins _ client message hidle =>
      have hwriting : (contexts thread).writing = false := by
        rw [(hinvariant.threads thread).writing, hidle]
        rfl
      obtain ⟨howns, hmay⟩ := hallows.resolve_left fun h ↦ by rw [hwriting] at h; cases h
      refine ⟨_, hinvariant.beginWrite howns hmay, Or.inl rfl, fun sent ↦ ?_⟩
      simp [lineDiscipline, LineContext.next, hwriting, LineContext.write]
    | sends hwrite hopen hbytes hmessage =>
      refine ⟨contexts thread, ?_, hallows, fun _ ↦ rfl⟩
      rw [Function.update_eq_self]
      exact hinvariant.send hwrite hmessage
  reply := by
    intro state contexts thread operation value after hinvariant hallows hreplies
    cases operation with
    | lock =>
      obtain ⟨hfree, rfl⟩ := hreplies
      have howns : (contexts thread).owns ≠ true := fun howns ↦ by
        have howner := (hinvariant.threads thread).owns.mp howns
        rw [hfree] at howner
        cases howner
      exact ⟨_, if_neg howns, hinvariant.lock hfree⟩
    | unlock =>
      obtain rfl := hreplies
      exact ⟨_, rfl, hinvariant.unlock hallows⟩
    | write client message =>
      obtain ⟨number, write, hwrite, hsent, -, rfl⟩ := hreplies
      have hwriting : (contexts thread).writing = true := by
        rw [(hinvariant.threads thread).writing, hwrite.1]
        rfl
      refine ⟨{ contexts thread with writing := false }, ?_, hinvariant.finishWrite hwrite hsent⟩
      simp [lineDiscipline, LineContext.next, hwriting]
    | remoteEndpoint client =>
      obtain rfl := hreplies
      refine ⟨contexts thread, rfl, ?_⟩
      rwa [Function.update_eq_self]
    | enterHandleMessage jsonMessage client =>
      obtain rfl := hreplies
      refine ⟨contexts thread, rfl, ?_⟩
      rwa [Function.update_eq_self]
    | registry operation =>
      obtain ⟨registry, hstep, rfl⟩ := hreplies
      exact hinvariant.operate hallows hstep
  call := fun hinvariant _ ↦ hinvariant.nextCall
  body := by
    intro procedure context hwriting
    cases procedure with
    | broadcastMessage message excludeSocket =>
      exact ok_broadcastMessage message excludeSocket hwriting rfl
    | removeClient client => exact ok_removeClient client hwriting

end Sound

/-! ### The order of lines -/

section Order

variable {ι : Type}

/-- The server has sent one sequence of lines. -/
structure Shared.SentInOrder (state : Shared ι) (lines : List (Line ι)) : Prop where
  /-- The lines consist of all writes, in the order in which they began. -/
  writes : lines.flatMap Line.writes = state.writes
  /-- Every line is of a call of its own. -/
  sources : (lines.map Line.source).Nodup
  /-- A line is one text, sent to different sessions. -/
  wellFormed : ∀ line ∈ lines, line.WellFormed
  /-- A session is sent the line whole or, if the write threw or is running, a beginning of it. -/
  parts : ∀ line ∈ lines, ∀ write ∈ line.writes,
    write.sent = line.text ∨ write.status ≠ .returned ∧ write.sent <+: line.text
  /-- The stream of a session is what the lines addressed to it sent, one after the other. -/
  streams : ∀ client, state.out client =
    (lines.filter fun line ↦ line.AddressedTo client).flatMap fun line ↦ sentTo client line.writes
  /-- Two lines stand in one order in the streams of all sessions to which both are addressed. -/
  order : ∀ earlier later, [earlier, later].Sublist lines → ∀ client,
    earlier.AddressedTo client → later.AddressedTo client → ∃ start middle rest,
      state.out client = start ++ sentTo client earlier.writes ++ middle ++
        sentTo client later.writes ++ rest

/-- The invariant makes the writes one sequence of lines. -/
theorem LineInvariant.sentInOrder {state : Shared ι} {contexts : ι → LineContext}
    (hinvariant : LineInvariant state contexts) : ∃ lines, state.SentInOrder lines := by
  obtain ⟨lines, hwrites, hsources, hwell⟩ := hinvariant.lines.exists_lines
  have hstreams : ∀ client, state.out client =
      (lines.filter fun line ↦ line.AddressedTo client).flatMap
        fun line ↦ sentTo client line.writes := by
    intro client
    rw [hinvariant.streams client, ← hwrites]
    exact sentTo_lines client lines
  refine ⟨lines, hwrites, hsources, hwell, fun line hline write hwrite ↦ ?_, hstreams, ?_⟩
  · have hmember : write ∈ state.writes := hwrites ▸ List.mem_flatMap.mpr ⟨line, hline, hwrite⟩
    have hfaithful := hinvariant.faithful write hmember
    rw [← (hwell line hline).text write hwrite]
    by_cases hreturned : write.status = .returned
    · exact Or.inl (hfaithful.whole hreturned)
    · exact Or.inr ⟨hreturned, hfaithful.beginning⟩
  · intro earlier later hsublist client hearlier hlater
    have hboth := hsublist.filter fun line ↦ line.AddressedTo client
    have hkept : [earlier, later].filter (fun line ↦ line.AddressedTo client) = [earlier, later] :=
      List.filter_eq_self.mpr (by simp [hearlier, hlater])
    rw [hkept] at hboth
    rw [hstreams client]
    exact flatMap_of_sublist hboth fun line ↦ sentTo client line.writes

/-- In every interleaving of any number of threads, the server has sent one sequence of lines. -/
theorem lineOrder [DecidableEq ι] {parse : Bytes → Option Json} {maxClients : ℕ}
    {config : Config signature ι (Shared ι)} (hreachable : Interleaved parse maxClients config) :
    ∃ lines, config.state.SentInOrder lines := by
  have hinitial : @LineInvariant ι { maxClients := maxClients } fun _ ↦ {} :=
    { threads := fun _ ↦
        ⟨iff_of_false Bool.false_ne_true nofun, rfl, nofun, nofun, nofun, nofun, nofun, nofun⟩
      lines := .nil
      faithful := nofun
      streams := fun _ ↦ rfl
      past := nofun
      clients := List.nodup_nil
      accepted := nofun
      newSockets := nofun }
  obtain ⟨contexts, hinvariant, -⟩ :=
    lineSound.reachable hinitial (fun _ ↦ ⟨rfl, rfl⟩) hreachable
  exact hinvariant.sentInOrder

/-- A line for both of two sessions, and one that the first of them is excluded from. -/
theorem lineOrder_of_two :
    ∃ config : Config signature ℕ (Shared ℕ), Interleaved (fun _ ↦ none) 2 config ∧
      config.state.writes.map Write.attempt =
        [⟨0, [104, 105], [104, 105], true⟩, ⟨1, [104, 105], [104, 105], true⟩,
          ⟨1, [121, 111], [121, 111], true⟩] ∧
      ∃ lines, config.state.SentInOrder lines := by
  let events : List Event :=
    [.start, .acceptCompletes .success, .runAccept .success, .acceptCompletes .success,
      .runAccept .success, .broadcast [104, 105] none, .broadcast [121, 111] (some 0)]
  have hsome : (play (fun _ ↦ none) reliable events (initial 2)).isSome = true := by decide
  have hrun := play_eq_run (.nil _) (Option.some_get hsome).symm
  obtain ⟨shared, halike, hreachable⟩ := interleaved_of_run (0 : ℕ) hrun
  exact ⟨⟨shared, fun _ ↦ none⟩, hreachable, halike.writes, lineOrder hreachable⟩

end Order

end KoboldKhat.Server
