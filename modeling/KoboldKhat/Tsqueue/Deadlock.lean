import KoboldKhat.Tsqueue.Program

/-!
# The queue does not deadlock

Every function of the queue takes `muxQueue` before `muxBlocking`, and waits on `cvBlocking` with
`muxBlocking` alone. What a thread holds is its `Grip`, the context of a discipline that every
function keeps. The owners of the two mutexes and the threads asleep are those that the grips name
(`Locked`), in every state that an interleaving reaches.

A thread that is held up by a mutex is held up by a thread of lower rank: the owner of
`muxBlocking` is held up by nothing, and the owner of `muxQueue` by the owner of `muxBlocking` at
most. So some thread can go on (`noDeadlock`).
-/

set_option autoImplicit false
set_option relaxedAutoImplicit false

namespace KoboldKhat.Tsqueue

open Library

variable {ι α : Type}

/-! ### Grips -/

/-- What a thread holds: no mutex, `muxQueue`, both, `muxBlocking`, or no mutex while it waits on
`cvBlocking`. -/
inductive Grip
  | free
  | queue
  | both
  | blocking
  | asleep
  deriving DecidableEq

/-- The mutexes held in a grip. -/
def Grip.Holds : Grip → Mutex → Prop
  | queue, .queue => True
  | both, _ => True
  | blocking, .blocking => True
  | _, _ => False

/-- The grip after an operation is finished, or `none` where the operation must not come. -/
def Grip.after : Grip → Operation α → Option Grip
  | free, .lock .queue => some queue
  | free, .lock .blocking => some blocking
  | queue, .lock .blocking => some both
  | both, .unlock .blocking => some queue
  | blocking, .unlock .blocking => some free
  | queue, .unlock .queue => some free
  | both, .notifyOne => some both
  | blocking, .wait => some blocking
  | asleep, .wait => some blocking
  | queue, .deque _ => some queue
  | _, _ => none

/-- A lock adds its mutex to those that are held. -/
theorem holds_of_after_lock {grip next : Grip} {mutex : Mutex}
    (hnext : grip.after (.lock mutex : Operation α) = some next) (other : Mutex) :
    next.Holds other ↔ other = mutex ∨ grip.Holds other := by
  cases grip <;> cases mutex <;> cases hnext <;> cases other <;> simp [Grip.Holds]

/-- An unlock takes its mutex from those that are held. -/
theorem holds_of_after_unlock {grip next : Grip} {mutex : Mutex}
    (hnext : grip.after (.unlock mutex : Operation α) = some next) (other : Mutex) :
    next.Holds other ↔ other ≠ mutex ∧ grip.Holds other := by
  cases grip <;> cases mutex <;> cases hnext <;> cases other <;> simp [Grip.Holds]

/-- No operation ends in a sleep, and only the wait on `cvBlocking` ends one. -/
theorem ne_asleep_of_after {grip next : Grip} {operation : Operation α}
    (hnext : grip.after operation = some next) :
    next ≠ .asleep ∧ (grip = .asleep → operation = .wait) := by
  unfold Grip.after at hnext
  split at hnext <;> cases hnext <;> simp

/-- An unlock comes where its mutex is held. -/
theorem holds_of_unlock {grip next : Grip} {mutex : Mutex}
    (hnext : grip.after (.unlock mutex : Operation α) = some next) : grip.Holds mutex := by
  cases grip <;> cases mutex <;> cases hnext <;> trivial

/-- A notification comes under both mutexes and keeps them. -/
theorem both_of_after_notifyOne {grip next : Grip}
    (hnext : grip.after (.notifyOne : Operation α) = some next) : grip = .both ∧ next = .both := by
  cases grip <;> cases hnext
  exact ⟨rfl, rfl⟩

/-- An access to the deque comes under `muxQueue` and keeps it. -/
theorem queue_of_after_deque {grip next : Grip} {access : Access α}
    (hnext : grip.after (.deque access) = some next) : grip = .queue ∧ next = .queue := by
  cases grip <;> cases hnext
  exact ⟨rfl, rfl⟩

/-- A wait begins under `muxBlocking` or goes on in sleep, and ends under `muxBlocking`. -/
theorem blocking_of_after_wait {grip next : Grip}
    (hnext : grip.after (.wait : Operation α) = some next) :
    (grip = .blocking ∨ grip = .asleep) ∧ next = .blocking := by
  cases grip <;> cases hnext
  · exact ⟨.inl rfl, rfl⟩
  · exact ⟨.inr rfl, rfl⟩

/-! ### The discipline of the grips -/

/-- The operations that the grips admit. A function is called with no mutex held. -/
def grips (α : Type) : Discipline (signature α) Grip where
  allowed grip operation := grip.after operation ≠ none
  next grip operation _ := grip.after operation
  before _ grip := grip = .free
  called _ grip := grip
  after _ _ final := final = .free

/-- An operation that the grip admits. -/
theorem perform_ok {operation : Operation α} {grip next : Grip}
    (hnext : grip.after operation = some next) :
    (grips α).Ok (@Program.perform (signature α) operation) grip fun _ final ↦ final = next := by
  refine ⟨fun hnone ↦ ?_, fun _ final hfinal ↦ ?_⟩
  · rw [hnext] at hnone
    cases hnone
  · exact Option.some.inj (hfinal.symm.trans hnext)

/-- A block under a lock leaves the grip that was before the lock, if it leaves the one under it. -/
theorem scopedLock_ok {β : Type} {mutex : Mutex} {block : QueueProgram α β} {grip held : Grip}
    (hlock : grip.after (.lock mutex : Operation α) = some held)
    (hunlock : held.after (.unlock mutex : Operation α) = some grip)
    (hblock : (grips α).Ok block held fun _ final ↦ final = held) :
    (grips α).Ok (scopedLock mutex block) grip fun _ final ↦ final = grip := by
  refine Discipline.ok_bind.mpr ((perform_ok hlock).mono fun _ locked hlocked ↦ ?_)
  rw [hlocked]
  refine Discipline.ok_bind.mpr (hblock.mono fun value last hlast ↦ ?_)
  rw [hlast]
  exact Discipline.ok_bind.mpr ((perform_ok hunlock).mono fun _ final hfinal ↦ hfinal)

/-- An access to the deque under `muxQueue`. -/
theorem deque_ok (access : Access α) :
    (grips α).Ok (deque access) .queue fun _ final ↦ final = .queue :=
  perform_ok rfl

theorem empty_ok : (grips α).Ok empty .free fun _ final ↦ final = .free :=
  scopedLock_ok rfl rfl (deque_ok .empty)

/-- A round of the loop of `wait`. -/
theorem wait_ok : (grips α).Ok wait .free fun _ final ↦ final = .free := by
  rw [wait, Discipline.ok_bind]
  refine empty_ok.mono fun value final hfinal ↦ ?_
  rw [hfinal, Discipline.ok_ite]
  refine ⟨fun _ ↦ ?_, fun _ ↦ rfl⟩
  rw [Discipline.ok_bind]
  refine (scopedLock_ok rfl rfl (perform_ok rfl)).mono fun _ last hlast ↦ ?_
  exact ⟨hlast, fun after hafter ↦ hafter⟩

/-- An access to the deque under `muxQueue` of which nothing is returned. -/
theorem look_ok (access : Access α) :
    (grips α).Ok (scopedLock .queue do
      let _ ← deque access
      pure ()) .free fun _ final ↦ final = .free :=
  scopedLock_ok rfl rfl (Discipline.ok_bind.mpr ((deque_ok access).mono fun _ _ hfinal ↦ hfinal))

/-- Two accesses to the deque under `muxQueue`, of which the first returns the value. -/
theorem take_ok (first second : Access α) :
    (grips α).Ok (scopedLock .queue do
      let item ← deque first
      let _ ← deque second
      pure item) .free fun _ final ↦ final = .free := by
  refine scopedLock_ok rfl rfl (Discipline.ok_bind.mpr ?_)
  refine (deque_ok first).mono fun _ middle hmiddle ↦ ?_
  rw [hmiddle]
  exact Discipline.ok_bind.mpr ((deque_ok second).mono fun _ final hfinal ↦ hfinal)

/-- An access to the deque and a notification under `muxQueue`. -/
theorem push_ok (access : Access α) :
    (grips α).Ok (scopedLock .queue do
      let _ ← deque access
      scopedLock .blocking notifyOne) .free fun _ final ↦ final = .free := by
  refine scopedLock_ok rfl rfl (Discipline.ok_bind.mpr ?_)
  refine (deque_ok access).mono fun _ middle hmiddle ↦ ?_
  rw [hmiddle]
  exact scopedLock_ok rfl rfl (perform_ok rfl)

/-- Every call of a function of the queue keeps the discipline, from no mutex to no mutex. -/
theorem program_ok (call : Call α) :
    (grips α).Ok call.program .free fun _ final ↦ final = .free := by
  cases call with
  | front => exact look_ok .front
  | back => exact look_ok .back
  | popFront => exact Discipline.ok_bind.mpr (take_ok .front .popFront)
  | popBack => exact Discipline.ok_bind.mpr (take_ok .back .popBack)
  | pushBack item => exact push_ok (.emplaceBack item)
  | pushFront item => exact push_ok (.emplaceFront item)
  | empty => exact Discipline.ok_bind.mpr empty_ok
  | clear => exact scopedLock_ok rfl rfl (deque_ok .clear)
  | wait => exact ⟨rfl, fun _ hfinal ↦ hfinal⟩

/-! ### Owners and sleepers -/

/-- The owners of the mutexes and the threads asleep are those that the grips name. -/
structure Locked (state : Shared ι α) (held : ι → Grip) : Prop where
  owner : ∀ mutex thread, state.owner mutex = some thread ↔ (held thread).Holds mutex
  awake : ∀ thread, state.sleep thread = .awake ↔ held thread ≠ .asleep

/-- No mutex has an owner and no thread is asleep before the first call. -/
theorem started_locked (items : List α) : Locked (started items : Shared ι α) fun _ ↦ .free :=
  ⟨fun _ _ ↦ iff_of_false nofun id, fun _ ↦ iff_of_true rfl nofun⟩

variable [DecidableEq ι] {state after : Shared ι α} {held : ι → Grip} {thread : ι}

/-- A mutex that the thread holds or nobody does passes to the thread or to nobody. -/
theorem Locked.own (hlocked : Locked state held) {mutex : Mutex} {value : Option ι} {next : Grip}
    (hbefore : state.owner mutex = none ∨ state.owner mutex = some thread)
    (hvalue : value = none ∨ value = some thread)
    (hnext : ∀ other, next.Holds other ↔
      if other = mutex then value = some thread else (held thread).Holds other)
    (mutex' : Mutex) (other : ι) :
    (state.own mutex value).owner mutex' = some other ↔
      (Function.update held thread next other).Holds mutex' := by
  have howner := hlocked.owner mutex' other
  by_cases hother : other = thread
  · rw [hother, Function.update_self, hnext mutex']
    rw [hother] at howner
    by_cases hmutex : mutex' = mutex
    · rw [if_pos hmutex, hmutex]
      simp [Shared.own]
    · rw [if_neg hmutex, ← howner]
      simp [Shared.own, hmutex]
  · rw [Function.update_of_ne hother]
    by_cases hmutex : mutex' = mutex
    · rw [hmutex] at howner ⊢
      rw [← howner]
      rcases hbefore with hbefore | hbefore <;> rcases hvalue with hvalue | hvalue <;>
        simp [Shared.own, hbefore, hvalue, Ne.symm hother]
    · rw [← howner]
      simp [Shared.own, hmutex]

/-- A thread that goes to sleep, or comes back, is the one whose grip says so. -/
theorem Locked.setSleep (hlocked : Locked state held) {sleep : Sleep} {next : Grip}
    (hnext : sleep = .awake ↔ next ≠ .asleep) (other : ι) :
    (state.setSleep thread sleep).sleep other = .awake ↔
      Function.update held thread next other ≠ .asleep := by
  by_cases hother : other = thread
  · simpa [Shared.setSleep, hother] using hnext
  · simpa [Shared.setSleep, hother] using hlocked.awake other

/-- A thread that stays awake changes no one's sleep. -/
theorem Locked.stay (hlocked : Locked state held) {next : Grip} (hgrip : held thread ≠ .asleep)
    (hnext : next ≠ .asleep) (other : ι) :
    state.sleep other = .awake ↔ Function.update held thread next other ≠ .asleep := by
  by_cases hother : other = thread
  · rw [hother, Function.update_self]
    exact iff_of_true ((hlocked.awake thread).mpr hgrip) hnext
  · rw [Function.update_of_ne hother]
    exact hlocked.awake other

/-- A notification wakes a thread that is asleep and goes on sleeping until it has `muxBlocking`. -/
theorem Locked.wake (hlocked : Locked state held) {sleeper : ι}
    (hparked : state.sleep sleeper = .parked) : Locked (state.setSleep sleeper .woken) held := by
  have hasleep : held sleeper = .asleep := by
    by_contra hne
    cases hparked.symm.trans ((hlocked.awake sleeper).mpr hne)
  refine ⟨hlocked.owner, fun other ↦ ?_⟩
  by_cases hother : other = sleeper
  · simp [Shared.setSleep, hother, hasleep]
  · simpa [Shared.setSleep, hother] using hlocked.awake other

/-- An operation that is finished leaves the owners and the sleepers that the next grip names. -/
theorem Locked.reply (hlocked : Locked state held) {operation : Operation α} {next : Grip}
    {value : operation.Reply} (hnext : (held thread).after operation = some next)
    (hreply : Replies thread operation state value after) :
    Locked after (Function.update held thread next) := by
  obtain ⟨hawake, hwait⟩ := ne_asleep_of_after hnext
  cases operation with
  | lock mutex =>
    obtain ⟨hfree, rfl⟩ := hreply
    have hstay : held thread ≠ .asleep := fun hasleep ↦ nomatch hwait hasleep
    refine ⟨hlocked.own (.inl hfree) (.inr rfl) fun other ↦ ?_, hlocked.stay hstay hawake⟩
    rw [holds_of_after_lock hnext]
    split_ifs with hother <;> simp [hother]
  | unlock mutex =>
    obtain ⟨hown, rfl⟩ := hreply
    have hstay : held thread ≠ .asleep := fun hasleep ↦ nomatch hwait hasleep
    refine ⟨hlocked.own (.inr hown) (.inl rfl) fun other ↦ ?_, hlocked.stay hstay hawake⟩
    rw [holds_of_after_unlock hnext]
    split_ifs with hother <;> simp [hother]
  | notifyOne =>
    obtain ⟨hboth, rfl⟩ := both_of_after_notifyOne hnext
    rw [← hboth, Function.update_eq_self]
    rcases hreply with ⟨sleeper, hparked, rfl⟩ | ⟨_, rfl⟩
    · exact hlocked.wake hparked
    · exact hlocked
  | wait =>
    obtain ⟨hwoken, hfree, rfl⟩ := hreply
    obtain ⟨_, rfl⟩ := blocking_of_after_wait hnext
    have hasleep : held thread = .asleep := by
      by_contra hne
      cases hwoken.symm.trans ((hlocked.awake thread).mpr hne)
    refine ⟨hlocked.own (.inl hfree) (.inr rfl) fun other ↦ ?_, hlocked.setSleep (by simp)⟩
    rw [hasleep]
    cases other <;> simp [Grip.Holds]
  | deque access =>
    obtain ⟨items, _, rfl⟩ := hreply
    obtain ⟨hqueue, rfl⟩ := queue_of_after_deque hnext
    rw [← hqueue, Function.update_eq_self]
    exact ⟨hlocked.owner, hlocked.awake⟩

/-- A step of a wait that does not finish it leaves the thread asleep. -/
theorem Locked.goes (hlocked : Locked state held) {operation : Operation α}
    (hallowed : (held thread).after operation ≠ none)
    (hgoes : Goes thread operation state after) :
    Locked after (Function.update held thread .asleep) ∧ operation = .wait := by
  cases operation with
  | wait =>
    refine ⟨?_, rfl⟩
    rcases hgoes with ⟨hawake, hown, rfl⟩ | ⟨hparked, rfl⟩
    · obtain ⟨next, hnext⟩ := Option.ne_none_iff_exists'.mp hallowed
      have hblocking : held thread = .blocking :=
        (blocking_of_after_wait hnext).1.resolve_right ((hlocked.awake thread).mp hawake)
      refine ⟨hlocked.own (.inr hown) (.inl rfl) fun other ↦ ?_, hlocked.setSleep (by simp)⟩
      rw [hblocking]
      cases other <;> simp [Grip.Holds]
    · have hasleep : held thread = .asleep := by
        by_contra hne
        cases hparked.symm.trans ((hlocked.awake thread).mpr hne)
      rw [← hasleep, Function.update_eq_self]
      exact hlocked.wake hparked
  | lock mutex => exact hgoes.elim
  | unlock mutex => exact hgoes.elim
  | notifyOne => exact hgoes.elim
  | deque access => exact hgoes.elim

/-- The owners and the sleepers are those that the grips name, whatever the threads call. -/
theorem grips_sound (calls : ι → Call α → Prop) :
    Discipline.Sound (machine calls) (grips α) (fun grip ↦ grip = .free) Locked where
  enter {state contexts thread program after} hlocked hrest henter := by
    obtain ⟨⟨call, _, rfl⟩, rfl⟩ := henter
    refine ⟨.free, ?_, program_ok call⟩
    rwa [← hrest, Function.update_eq_self]
  proceed {state contexts thread operation after} hlocked hallowed hgoes := by
    obtain ⟨hasleep, rfl⟩ := hlocked.goes hallowed hgoes
    refine ⟨.asleep, hasleep, nofun, fun _ ↦ ?_⟩
    obtain ⟨next, hnext⟩ := Option.ne_none_iff_exists'.mp hallowed
    exact ((blocking_of_after_wait hnext).2 ▸ hnext).symm
  reply {state contexts thread operation value after} hlocked hallowed hreply := by
    obtain ⟨next, hnext⟩ := Option.ne_none_iff_exists'.mp hallowed
    exact ⟨next, hnext, hlocked.reply hnext hreply⟩
  call {state contexts thread procedure} hlocked _ := by
    exact (Function.update_eq_self thread contexts).symm ▸ hlocked
  body {procedure context} hbefore := by
    cases hbefore
    exact wait_ok

/-! ### Freedom from deadlock -/

/-- How far a thread can be from the thread that holds it up in the end. -/
def Grip.rank : Grip → ℕ
  | both => 0
  | blocking => 0
  | queue => 1
  | _ => 2

/-- The accesses that are undefined on an empty deque. -/
def Access.NeedsItem : Access α → Prop
  | front => True
  | back => True
  | popFront => True
  | popBack => True
  | _ => False

/-- An access to a deque that has an item if one is needed returns. -/
theorem exists_run_of_needsItem {access : Access α} {items : List α}
    (hitem : access.NeedsItem → items ≠ []) :
    ∃ value left, access.run items = some (value, left) := by
  cases items with
  | nil =>
    cases access with
    | emplaceFront item => exact ⟨(), [item], rfl⟩
    | emplaceBack item => exact ⟨(), [item], rfl⟩
    | empty => exact ⟨true, [], rfl⟩
    | clear => exact ⟨(), [], rfl⟩
    | _ => exact absurd rfl (hitem trivial)
  | cons first rest =>
    cases access with
    | back =>
      have hlast := List.getLast?_eq_some_getLast (List.cons_ne_nil first rest)
      exact ⟨_, _, congrArg (Option.map fun item ↦ (item, first :: rest)) hlast⟩
    | _ => exact ⟨_, _, rfl⟩

/-- Every thread that is at the front, the back or a pop of the deque is there when the deque is not
empty. -/
def Defined (config : Config (signature α) ι (Shared ι α)) : Prop :=
  ∀ thread access next, config.threads thread = some (.act (.deque access) next) →
    access.NeedsItem → config.state.deqQueue ≠ []

/-- The thread is in a call and not parked on `cvBlocking`. -/
def Busy (config : Config (signature α) ι (Shared ι α)) (thread : ι) : Prop :=
  config.threads thread ≠ none ∧ config.state.sleep thread ≠ .parked

/-- A thread that takes a mutex ranks above the one that holds it. -/
theorem rank_lt_of_lock {grip next holder : Grip} {mutex : Mutex}
    (hnext : grip.after (.lock mutex : Operation α) = some next) (hholds : holder.Holds mutex) :
    holder.rank < grip.rank := by
  cases grip <;> cases mutex <;> cases hnext <;> cases holder <;> simp_all [Grip.Holds, Grip.rank]

/-- A thread that comes back from its sleep ranks above the one that holds `muxBlocking`. -/
theorem rank_lt_asleep {holder : Grip} (hholds : holder.Holds .blocking) :
    holder.rank < Grip.asleep.rank := by
  cases holder <;> simp_all [Grip.Holds, Grip.rank]

/-- An operation that the grip of a thread admits can go on or be finished, unless the thread is
parked or a thread of lower rank owns the mutex it takes. -/
theorem goes_or_replies (hlocked : Locked state held) {operation : Operation α}
    (hallowed : (held thread).after operation ≠ none) (hparked : state.sleep thread ≠ .parked)
    (hitem : ∀ access, operation = .deque access → access.NeedsItem → state.deqQueue ≠ []) :
    (∃ after, Goes thread operation state after) ∨
      (∃ value after, Replies thread operation state value after) ∨
      ∃ mutex other, state.owner mutex = some other ∧
        ((held other).Holds mutex → (held other).rank < (held thread).rank) := by
  obtain ⟨next, hnext⟩ := Option.ne_none_iff_exists'.mp hallowed
  cases operation with
  | lock mutex =>
    cases howner : state.owner mutex with
    | none => exact .inr (.inl ⟨(), _, howner, rfl⟩)
    | some other => exact .inr (.inr ⟨mutex, other, howner, rank_lt_of_lock hnext⟩)
  | unlock mutex =>
    have hholds : (held thread).Holds mutex := holds_of_unlock hnext
    exact .inr (.inl ⟨(), _, (hlocked.owner mutex thread).mpr hholds, rfl⟩)
  | notifyOne =>
    by_cases hsleeper : ∃ sleeper, state.sleep sleeper = .parked
    · obtain ⟨sleeper, hsleeper⟩ := hsleeper
      exact .inr (.inl ⟨(), _, .inl ⟨sleeper, hsleeper, rfl⟩⟩)
    · exact .inr (.inl ⟨(), _, .inr ⟨not_exists.mp hsleeper, rfl⟩⟩)
  | wait =>
    rcases (blocking_of_after_wait hnext).1 with hblocking | hasleep
    · have hawake : state.sleep thread = .awake := (hlocked.awake thread).mpr (by simp [hblocking])
      have hown : state.owner .blocking = some thread :=
        (hlocked.owner .blocking thread).mpr (by simp [hblocking, Grip.Holds])
      exact .inl ⟨_, .inl ⟨hawake, hown, rfl⟩⟩
    · have hwoken : state.sleep thread = .woken := by
        have hnotAwake := (hlocked.awake thread).not.mpr (not_not.mpr hasleep)
        cases hsleep : state.sleep thread <;> simp_all
      cases howner : state.owner .blocking with
      | none => exact .inr (.inl ⟨(), _, hwoken, howner, rfl⟩)
      | some other => exact .inr (.inr ⟨.blocking, other, howner, hasleep ▸ rank_lt_asleep⟩)
  | deque access =>
    obtain ⟨value, items, hrun⟩ := exists_run_of_needsItem (hitem access rfl)
    exact .inr (.inl ⟨value, _, items, hrun, rfl⟩)

omit [DecidableEq ι] in
/-- The owner of a mutex is in a call and not parked. -/
theorem busy_of_owner {config : Config (signature α) ι (Shared ι α)} {contexts : ι → Grip}
    (hlocked : Locked config.state contexts)
    (hthreads : ∀ other, (grips α).ThreadOk (fun grip ↦ grip = .free) (config.threads other)
      (contexts other)) {mutex : Mutex} (howner : config.state.owner mutex = some thread) :
    Busy config thread ∧ (contexts thread).Holds mutex := by
  have hholds := (hlocked.owner mutex thread).mp howner
  refine ⟨⟨fun hidle ↦ ?_, fun hparked ↦ ?_⟩, hholds⟩
  · have hrest := hthreads thread
    rw [hidle] at hrest
    rw [show contexts thread = .free from hrest] at hholds
    exact hholds
  · have hawake : config.state.sleep thread = .awake := by
      refine (hlocked.awake thread).mpr fun hasleep ↦ ?_
      rw [hasleep] at hholds
      exact hholds
    cases hparked.symm.trans hawake

/-- A busy thread can take a step or is held up by a busy thread of lower rank. -/
theorem stepOf_or_held {calls : ι → Call α → Prop} {config : Config (signature α) ι (Shared ι α)}
    {contexts : ι → Grip} (hlocked : Locked config.state contexts)
    (hthreads : ∀ other, (grips α).ThreadOk (fun grip ↦ grip = .free) (config.threads other)
      (contexts other)) (hdefined : Defined config) (hbusy : Busy config thread) :
    (∃ after, (machine calls).StepOf thread config after) ∨
      ∃ other, Busy config other ∧ (contexts other).rank < (contexts thread).rank := by
  have hok := hthreads thread
  rcases hat : config.threads thread with _ | (_ | reason | ⟨operation, next⟩ | ⟨procedure, next⟩)
  · exact absurd hat hbusy.1
  · refine .inl ⟨⟨config.state, Function.update config.threads thread none⟩, ?_⟩
    simp only [Machine.StepOf, hat]
    exact ⟨trivial, trivial⟩
  · cases reason
  · rw [hat] at hok
    rcases goes_or_replies hlocked hok.1 hbusy.2 fun access haccess hneeds ↦ by
      subst haccess
      exact hdefined thread access next hat hneeds
      with ⟨after, hgoes⟩ | ⟨value, after, hreply⟩ | ⟨mutex, other, howner, hrank⟩
    · refine .inl ⟨⟨after, config.threads⟩, ?_⟩
      simp only [Machine.StepOf, hat]
      exact .inl ⟨hgoes, trivial⟩
    · refine .inl ⟨⟨after, Function.update config.threads thread (some (next value))⟩, ?_⟩
      simp only [Machine.StepOf, hat]
      exact .inr ⟨value, hreply, rfl⟩
    · obtain ⟨hother, hholds⟩ := busy_of_owner hlocked hthreads howner
      exact .inr ⟨other, hother, hrank hholds⟩
  · refine .inl ⟨⟨config.state, Function.update config.threads thread
      (some (wait >>= fun _ ↦ next))⟩, ?_⟩
    simp only [Machine.StepOf, hat]
    exact ⟨rfl, rfl⟩

/-- Whatever calls of the functions of the queue any number of threads make, in every state that an
interleaving of their steps reaches: if a thread is in a call and not parked on `cvBlocking`, then
some thread in a call and not parked can take a step. No thread may stand at the front, the back or
a pop of an empty deque. -/
theorem noDeadlock {calls : ι → Call α → Prop} {items : List α}
    {config : Config (signature α) ι (Shared ι α)}
    (hreachable : (machine calls).Reachable (started items) config) (hdefined : Defined config)
    (hbusy : Busy config thread) :
    ∃ other, Busy config other ∧ ∃ after, (machine calls).StepOf other config after := by
  obtain ⟨contexts, hlocked, hthreads⟩ :=
    (grips_sound calls).reachable (started_locked items) (fun _ ↦ rfl) hreachable
  exact (machine calls).exists_stepOf_of_rank (fun other ↦ (contexts other).rank)
    (fun other hother ↦ stepOf_or_held hlocked hthreads hdefined hother) hbusy

/-- Two threads push to a queue with an item. The first has locked `muxQueue`, which the second is
about to lock. -/
def contended : Config (signature ℕ) ℕ (Shared ℕ ℕ) where
  state := (started [5]).own .queue (some 0)
  threads := Function.update (Function.update (fun _ ↦ none) 0 (some do
    deque (.emplaceBack 7)
    scopedLock .blocking notifyOne
    unlock .queue)) 1 (some (pushBack 8))

/-- The second thread cannot take a step, but the first one can. -/
theorem noDeadlock_of_contended :
    (machine fun _ _ ↦ True).Reachable (started [5]) contended ∧ Busy contended 1 ∧
      ∃ other, Busy contended other ∧
        ∃ after, (machine fun _ _ ↦ True).StepOf other contended after := by
  have hlocks : Replies 0 (.lock .queue) (started [5]) () contended.state := ⟨rfl, rfl⟩
  have hfirst : (machine fun _ _ ↦ True).Step ⟨started [5], fun _ ↦ none⟩
      ⟨started [5], Function.update (fun _ ↦ none) 0 (some (pushBack 7))⟩ :=
    .enter rfl ⟨⟨.pushBack 7, trivial, rfl⟩, rfl⟩
  have hlock : (machine fun _ _ ↦ True).Step
      ⟨started [5], Function.update (fun _ ↦ none) 0 (some (pushBack 7))⟩ ⟨contended.state, _⟩ :=
    (stepOf_of_replies (.lock .queue) () hlocks).step
  have hsecond : (machine fun _ _ ↦ True).Step ⟨contended.state, _⟩ contended :=
    .enter rfl ⟨⟨.pushBack 8, trivial, rfl⟩, rfl⟩
  have hreachable : (machine fun _ _ ↦ True).Reachable (started [5]) contended :=
    ((Relation.ReflTransGen.single hfirst).tail hlock).tail hsecond
  have hbusy : Busy contended 1 := ⟨nofun, nofun⟩
  exact ⟨hreachable, hbusy, noDeadlock hreachable (fun _ _ _ _ _ ↦ nofun) hbusy⟩

end KoboldKhat.Tsqueue
