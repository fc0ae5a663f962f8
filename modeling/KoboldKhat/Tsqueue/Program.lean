import KoboldKhat.Library.Interleaving
import Mathlib.Data.List.Basic

/-!
# The program of the queue

`common/tsqueue.hpp`, function by function, as programs over the operations on its four members:
the mutexes `muxQueue` and `muxBlocking`, the condition variable `cvBlocking`, and the deque. A
`scoped_lock` or `unique_lock` is `scopedLock`, which unlocks when its block ends. The loop of
`wait` is a procedure that calls itself. `size`, which takes no lock, is left out, as is an
allocation that fails.

Any number of threads `ι` make calls, and their operations interleave without restriction
(`machine`). A mutex has an owner, and a thread that locks it while it has one does not go on.
`cvBlocking.wait` is three steps: the thread gives `muxBlocking` up and is parked, in one step; it
is woken, by a notification or by nothing; and it takes `muxBlocking` again. `notify_one` wakes one
of the parked threads, any of them, or does nothing if there is none. An access to the deque that is
undefined, as the front of an empty deque, is never finished.

`front` and `back` return a reference. What it refers to is read, if at all, by the caller when the
lock is gone, so no item is part of what they return here: of the call there is the access under
`muxQueue`, which needs an item to be there.
-/

set_option autoImplicit false
set_option relaxedAutoImplicit false

namespace KoboldKhat.Tsqueue

open Library

variable {ι α β : Type}

/-! ### Operations -/

/-- The mutexes of the queue, `muxQueue` and `muxBlocking`. -/
inductive Mutex
  | queue
  | blocking
  deriving DecidableEq

/-- The accesses to `deqQueue`. -/
inductive Access (α : Type)
  | front
  | back
  | popFront
  | popBack
  | emplaceFront (item : α)
  | emplaceBack (item : α)
  | empty
  | clear

/-- What an access to `deqQueue` returns. -/
def Access.Reply : Access α → Type
  | front => α
  | back => α
  | empty => Bool
  | _ => Unit

/-- What an access returns and leaves of the deque; `none` where it is undefined. -/
def Access.run : (access : Access α) → List α → Option (access.Reply × List α)
  | front, items => items.head?.map fun item ↦ (item, items)
  | back, items => items.getLast?.map fun item ↦ (item, items)
  | popFront, items => if items.isEmpty then none else some ((), items.tail)
  | popBack, items => if items.isEmpty then none else some ((), items.dropLast)
  | emplaceFront item, items => some ((), item :: items)
  | emplaceBack item, items => some ((), items ++ [item])
  | empty, items => some (items.isEmpty, items)
  | clear, _ => some ((), [])

/-- The operations of the queue. -/
inductive Operation (α : Type)
  /-- The constructor of a lock. -/
  | lock (mutex : Mutex)
  /-- The destructor of a lock. -/
  | unlock (mutex : Mutex)
  /-- `cvBlocking.notify_one`. -/
  | notifyOne
  /-- `cvBlocking.wait` with a lock of `muxBlocking`. -/
  | wait
  /-- An access to `deqQueue`. -/
  | deque (access : Access α)

/-- The replies to the operations of the queue. -/
def Operation.Reply : Operation α → Type
  | deque access => access.Reply
  | _ => Unit

/-- The function of the queue that loops. -/
inductive Procedure
  | wait

/-- The signature of the queue's programs, which have no faults of their own. -/
abbrev signature (α : Type) : Signature where
  Operation := Operation α
  Reply := Operation.Reply
  Procedure := Procedure
  Fault := Empty

/-- A program of the queue. -/
abbrev QueueProgram (α : Type) := Program (signature α)

/-- Lock a mutex. -/
def lock (mutex : Mutex) : QueueProgram α Unit :=
  @Program.perform (signature α) (.lock mutex)

/-- Unlock a mutex. -/
def unlock (mutex : Mutex) : QueueProgram α Unit :=
  @Program.perform (signature α) (.unlock mutex)

/-- Notify one thread that waits on `cvBlocking`. -/
def notifyOne : QueueProgram α Unit :=
  @Program.perform (signature α) .notifyOne

/-- Wait on `cvBlocking`. -/
def waitBlocking : QueueProgram α Unit :=
  @Program.perform (signature α) .wait

/-- Access `deqQueue`. -/
def deque (access : Access α) : QueueProgram α access.Reply :=
  @Program.perform (signature α) (.deque access)

/-- Call `wait` of the queue. -/
def callWait : QueueProgram α Unit :=
  @Program.invoke (signature α) .wait

/-! ### The functions of the queue -/

/-- A block that begins with a lock of a mutex. -/
def scopedLock (mutex : Mutex) (block : QueueProgram α β) : QueueProgram α β := do
  lock mutex
  let value ← block
  unlock mutex
  pure value

/-- `tsqueue::front`, with nothing read through the reference it returns. -/
def front : QueueProgram α Unit :=
  scopedLock .queue do
    let _ ← deque .front
    pure ()

/-- `tsqueue::back`, with nothing read through the reference it returns. -/
def back : QueueProgram α Unit :=
  scopedLock .queue do
    let _ ← deque .back
    pure ()

/-- `tsqueue::pop_front`. -/
def popFront : QueueProgram α α :=
  scopedLock .queue do
    let item ← deque .front
    deque .popFront
    pure item

/-- `tsqueue::pop_back`. -/
def popBack : QueueProgram α α :=
  scopedLock .queue do
    let item ← deque .back
    deque .popBack
    pure item

/-- `tsqueue::push_back`. -/
def pushBack (item : α) : QueueProgram α Unit :=
  scopedLock .queue do
    deque (.emplaceBack item)
    scopedLock .blocking notifyOne

/-- `tsqueue::push_front`. -/
def pushFront (item : α) : QueueProgram α Unit :=
  scopedLock .queue do
    deque (.emplaceFront item)
    scopedLock .blocking notifyOne

/-- `tsqueue::empty`. -/
def empty : QueueProgram α Bool :=
  scopedLock .queue (deque .empty)

/-- `tsqueue::clear`. -/
def clear : QueueProgram α Unit :=
  scopedLock .queue (deque .clear)

/-- `tsqueue::wait`: while the queue is empty, wait on `cvBlocking`. -/
def wait : QueueProgram α Unit := do
  if ← empty then
    scopedLock .blocking waitBlocking
    callWait

/-- A call of a function of the queue. -/
inductive Call (α : Type)
  | front
  | back
  | popFront
  | popBack
  | pushBack (item : α)
  | pushFront (item : α)
  | empty
  | clear
  | wait

/-- What a thread runs that makes the call. Nothing is done with a value that is returned. -/
def Call.program : Call α → QueueProgram α Unit
  | front => Tsqueue.front
  | back => Tsqueue.back
  | popFront => Tsqueue.popFront >>= fun _ ↦ pure ()
  | popBack => Tsqueue.popBack >>= fun _ ↦ pure ()
  | pushBack item => Tsqueue.pushBack item
  | pushFront item => Tsqueue.pushFront item
  | empty => Tsqueue.empty >>= fun _ ↦ pure ()
  | clear => Tsqueue.clear
  | wait => callWait

/-! ### The shared state -/

/-- A thread at `cvBlocking.wait`: it has not begun to wait, it is parked, or it has been woken and
has not taken `muxBlocking` again. -/
inductive Sleep
  | awake
  | parked
  | woken
  deriving DecidableEq

/-- The state the threads share. -/
structure Shared (ι α : Type) where
  /-- The deque. -/
  deqQueue : List α
  /-- The threads that own the mutexes. -/
  owner : Mutex → Option ι := fun _ ↦ none
  /-- The threads that wait on `cvBlocking`. -/
  sleep : ι → Sleep := fun _ ↦ .awake

/-- The state after a mutex has been given another owner or none. -/
def Shared.own (mutex : Mutex) (owner : Option ι) (state : Shared ι α) : Shared ι α :=
  { state with owner := Function.update state.owner mutex owner }

/-- The state after a thread has been parked or woken or has come back. -/
def Shared.setSleep [DecidableEq ι] (thread : ι) (sleep : Sleep) (state : Shared ι α) :
    Shared ι α :=
  { state with sleep := Function.update state.sleep thread sleep }

/-- The state after the deque has changed. -/
def Shared.setItems (items : List α) (state : Shared ι α) : Shared ι α :=
  { state with deqQueue := items }

@[simp] theorem own_deqQueue (mutex : Mutex) (owner : Option ι) (state : Shared ι α) :
    (state.own mutex owner).deqQueue = state.deqQueue :=
  rfl

@[simp] theorem own_sleep (mutex : Mutex) (owner : Option ι) (state : Shared ι α) :
    (state.own mutex owner).sleep = state.sleep :=
  rfl

@[simp] theorem setItems_deqQueue (items : List α) (state : Shared ι α) :
    (state.setItems items).deqQueue = items :=
  rfl

@[simp] theorem setItems_owner (items : List α) (state : Shared ι α) :
    (state.setItems items).owner = state.owner :=
  rfl

@[simp] theorem setItems_sleep (items : List α) (state : Shared ι α) :
    (state.setItems items).sleep = state.sleep :=
  rfl

@[simp] theorem own_owner_self (mutex : Mutex) (owner : Option ι) (state : Shared ι α) :
    (state.own mutex owner).owner mutex = owner :=
  Function.update_self ..

/-- A mutex that is locked and unlocked has no owner again. -/
theorem own_own_none {mutex : Mutex} {state : Shared ι α} (hfree : state.owner mutex = none)
    (owner : Option ι) : (state.own mutex owner).own mutex none = state := by
  simp only [Shared.own, Function.update_idem]
  rw [← hfree, Function.update_eq_self]

variable [DecidableEq ι]

@[simp] theorem setSleep_deqQueue (thread : ι) (sleep : Sleep) (state : Shared ι α) :
    (state.setSleep thread sleep).deqQueue = state.deqQueue :=
  rfl

@[simp] theorem setSleep_owner (thread : ι) (sleep : Sleep) (state : Shared ι α) :
    (state.setSleep thread sleep).owner = state.owner :=
  rfl

/-! ### The machine -/

/-- Steps of `cvBlocking.wait` that do not finish it: the thread is parked and gives `muxBlocking`
up, or it is woken without a notification. -/
def Goes (thread : ι) : Operation α → Shared ι α → Shared ι α → Prop
  | .wait, state, after =>
    (state.sleep thread = .awake ∧ state.owner .blocking = some thread ∧
      after = (state.own .blocking none).setSleep thread .parked) ∨
    (state.sleep thread = .parked ∧ after = state.setSleep thread .woken)
  | _, _, _ => False

/-- Steps that finish an operation. -/
def Replies (thread : ι) :
    (operation : Operation α) → Shared ι α → operation.Reply → Shared ι α → Prop
  | .lock mutex, state, _, after =>
    state.owner mutex = none ∧ after = state.own mutex (some thread)
  | .unlock mutex, state, _, after =>
    state.owner mutex = some thread ∧ after = state.own mutex none
  | .notifyOne, state, _, after =>
    (∃ sleeper, state.sleep sleeper = .parked ∧ after = state.setSleep sleeper .woken) ∨
    ((∀ other, state.sleep other ≠ .parked) ∧ after = state)
  | .wait, state, _, after =>
    state.sleep thread = .woken ∧ state.owner .blocking = none ∧
      after = (state.own .blocking (some thread)).setSleep thread .awake
  | .deque access, state, value, after =>
    ∃ items, access.run state.deqQueue = some (value, items) ∧ after = state.setItems items

/-- The threads of a program that use one queue, each making such calls as it may, in any order. -/
def machine (calls : ι → Call α → Prop) : Machine (signature α) ι (Shared ι α) where
  body _ := wait
  enter thread state program after :=
    (∃ call, calls thread call ∧ program = call.program) ∧ after = state
  proceed thread := Goes thread
  reply thread := Replies thread
  note _ _ state := state

/-- A thread finishes the operation it is at, while the others stand still. -/
theorem stepOf_of_replies {calls : ι → Call α → Prop} {thread : ι} (operation : Operation α)
    (value : operation.Reply) {next : operation.Reply → QueueProgram α Unit}
    {threads : ι → Option (QueueProgram α Unit)} {state after : Shared ι α}
    (hreplies : Replies thread operation state value after) :
    (machine calls).StepOf thread
      ⟨state, Function.update threads thread (some (@Program.act (signature α) _ operation next))⟩
      ⟨after, Function.update threads thread (some (next value))⟩ :=
  (machine calls).stepOf_of_reply value hreplies

/-- A queue that no thread is using. -/
def started (items : List α) : Shared ι α :=
  { deqQueue := items }

end KoboldKhat.Tsqueue
