import KoboldKhat.Library.Linearization
import KoboldKhat.Tsqueue.Deadlock

/-!
# The queue is linearizable

However the steps of any number of threads interleave, their calls of the functions of the queue
return what they would return if they were made one at a time, in an order that goes with what can
be seen of them (`linearizable`). The object they use is then a plain list (`sequential`): a pop
takes the item at its end, a push puts one there, and `front`, `back` and `wait` return when there
is an item. The references that `front` and `back` return show nothing of it: what is read through
them is read outside the calls.

A call takes effect with the access to the deque that decides it, under `muxQueue`. A pop looks at
the item first and then removes it: what it has seen is still there, because nobody else accesses
the deque in between (`Ready.seen`). A round of `wait` that finds the queue empty has no effect.
-/

set_option autoImplicit false
set_option relaxedAutoImplicit false

namespace KoboldKhat.Tsqueue

open Library

variable {ι α : Type}

/-! ### The object and its implementation -/

/-- What a call returns. -/
def Call.Result : Call α → Type
  | popFront => α
  | popBack => α
  | empty => Bool
  | _ => Unit

/-- What a call returns and leaves of the items when it is made alone; `none` where it does not
return, or is undefined. -/
def Call.effect : (call : Call α) → List α → Option (call.Result × List α)
  | front, items => if items.isEmpty then none else some ((), items)
  | back, items => if items.isEmpty then none else some ((), items)
  | popFront, items => items.head?.map fun item ↦ (item, items.tail)
  | popBack, items => items.getLast?.map fun item ↦ (item, items.dropLast)
  | pushBack item, items => some ((), items ++ [item])
  | pushFront item, items => some ((), item :: items)
  | empty, items => some (items.isEmpty, items)
  | clear, _ => some ((), [])
  | wait, items => if items.isEmpty then none else some ((), items)

/-- The queue as it is when calls are made one at a time. -/
def sequential (α : Type) : Object (Call α) Call.Result (List α) where
  effect := Call.effect

/-- What a thread runs that makes the call and uses the value that is returned. -/
def Call.returning : (call : Call α) → QueueProgram α call.Result
  | front => Tsqueue.front
  | back => Tsqueue.back
  | popFront => Tsqueue.popFront
  | popBack => Tsqueue.popBack
  | pushBack item => Tsqueue.pushBack item
  | pushFront item => Tsqueue.pushFront item
  | empty => Tsqueue.empty
  | clear => Tsqueue.clear
  | wait => callWait

/-- A thread that does nothing with the value runs the same program. -/
theorem program_eq (call : Call α) : call.program = call.returning >>= fun _ ↦ pure () := by
  cases call with
  | _ => rfl

/-- The functions of `common/tsqueue.hpp`. -/
def tsqueue (ι α : Type) [DecidableEq ι] :
    Implementation (signature α) ι (Shared ι α) (Call α) Call.Result where
  body _ := wait
  program := Call.returning
  proceed thread := Goes thread
  reply thread := Replies thread

/-! ### When a call takes effect -/

/-- Where a thread is in its call: it makes none, the call has not touched the deque in a way that
decides it, a pop has seen the item it takes, or the call has taken effect. -/
inductive Work (α : Type)
  | idle
  | pending (call : Call α)
  | seen (call : Call α) (item : α)
  | finished (call : Call α) (result : call.Result)

/-- What can be told of the call from outside. -/
def Work.stage : Work α → Stage (Call α) Call.Result
  | idle => .idle
  | pending call => .invoked call
  | seen call _ => .invoked call
  | finished call result => .done call result

/-- The call is before its accesses to the deque or behind them. -/
def Work.IsOpen : Work α → Prop
  | pending _ => True
  | finished _ _ => True
  | _ => False

/-- The accesses to the deque that come next. -/
def Work.Accesses : Work α → Access α → Prop
  | pending .front, .front => True
  | pending .back, .back => True
  | pending .popFront, .front => True
  | seen .popFront _, .popFront => True
  | pending .popBack, .back => True
  | seen .popBack _, .popBack => True
  | pending (.pushBack item), .emplaceBack pushed => pushed = item
  | pending (.pushFront item), .emplaceFront pushed => pushed = item
  | pending .empty, .empty => True
  | pending .clear, .clear => True
  | pending .wait, .empty => True
  | _, _ => False

/-- Where a thread is in its call after an access to the deque has returned. -/
def Work.after : Work α → (access : Access α) → access.Reply → Option (Work α)
  | pending .front, .front, _ => some (finished .front ())
  | pending .back, .back, _ => some (finished .back ())
  | pending .popFront, .front, item => some (seen .popFront item)
  | seen .popFront item, .popFront, _ => some (finished .popFront item)
  | pending .popBack, .back, item => some (seen .popBack item)
  | seen .popBack item, .popBack, _ => some (finished .popBack item)
  | pending (.pushBack item), .emplaceBack _, _ => some (finished (.pushBack item) ())
  | pending (.pushFront item), .emplaceFront _, _ => some (finished (.pushFront item) ())
  | pending .empty, .empty, isEmpty => some (finished .empty isEmpty)
  | pending .clear, .clear, _ => some (finished .clear ())
  | pending .wait, .empty, true => some (pending .wait)
  | pending .wait, .empty, false => some (finished .wait ())
  | _, _, _ => none

/-- The discipline of the calls: each makes its accesses in their order, and nothing comes between
the two of a pop. -/
def works (α : Type) : Discipline (signature α) (Work α) where
  allowed work operation :=
    match operation with
    | .deque access => work.Accesses access
    | _ => work.IsOpen
  next work operation reply :=
    match operation, reply with
    | .deque access, reply => work.after access reply
    | _, _ => some work
  before _ work := work = .pending .wait
  called _ work := work
  after _ _ final := final = .finished .wait ()

section Programs

variable {β : Type} {mutex : Mutex} {block : QueueProgram α β} {work : Work α}
  {post : β → Work α → Prop}

/-- A block under a lock that leaves nothing half done. -/
theorem scopedLock_works (hwork : work.IsOpen)
    (hblock : (works α).Ok block work fun value final ↦ final.IsOpen ∧ post value final) :
    (works α).Ok (scopedLock mutex block) work post := by
  refine Discipline.ok_bind.mpr ⟨hwork, fun _ locked hlocked ↦ ?_⟩
  obtain rfl := Option.some.inj hlocked
  refine Discipline.ok_bind.mpr (hblock.mono fun value last hlast ↦ ?_)
  refine Discipline.ok_bind.mpr ⟨hlast.1, fun _ final hfinal ↦ ?_⟩
  obtain rfl := Option.some.inj hfinal
  exact hlast.2

/-- An access to the deque under a lock. -/
theorem access_works {access : Access α} {final : access.Reply → Work α → Prop}
    (hwork : work.IsOpen) (haccess : work.Accesses access)
    (hafter : ∀ reply next, work.after access reply = some next →
      next.IsOpen ∧ final reply next) :
    (works α).Ok (scopedLock .queue (deque access)) work final :=
  scopedLock_works hwork ⟨haccess, hafter⟩

/-- A call that makes one access to the deque. -/
theorem look_works {call : Call α} (access : Access α) (value : access.Reply → call.Result)
    (haccess : (Work.pending call).Accesses access)
    (hafter : ∀ reply, (Work.pending call).after access reply =
      some (.finished call (value reply))) :
    (works α).Ok (scopedLock .queue do
      let reply ← deque access
      pure (value reply)) (.pending call) fun result final ↦ final = .finished call result := by
  refine scopedLock_works trivial (Discipline.ok_bind.mpr ⟨haccess, fun reply final hfinal ↦ ?_⟩)
  obtain rfl := Option.some.inj ((hafter reply).symm.trans hfinal)
  exact ⟨trivial, rfl⟩

/-- A pop sees its item and takes it. -/
theorem take_works {call : Call α} (look remove : Access α) (value : look.Reply → call.Result)
    {item : look.Reply → α} (hlooks : (Work.pending call).Accesses look)
    (hlooked : ∀ reply, (Work.pending call).after look reply = some (.seen call (item reply)))
    (hremoves : ∀ reply, (Work.seen call (item reply)).Accesses remove)
    (hremoved : ∀ reply removed, (Work.seen call (item reply)).after remove removed =
      some (.finished call (value reply))) :
    (works α).Ok (scopedLock .queue do
      let reply ← deque look
      let _ ← deque remove
      pure (value reply)) (.pending call) fun result final ↦ final = .finished call result := by
  refine scopedLock_works trivial (Discipline.ok_bind.mpr ⟨hlooks, fun reply middle hmiddle ↦ ?_⟩)
  obtain rfl := Option.some.inj ((hlooked reply).symm.trans hmiddle)
  refine Discipline.ok_bind.mpr ⟨hremoves reply, fun removed final hfinal ↦ ?_⟩
  obtain rfl := Option.some.inj ((hremoved reply removed).symm.trans hfinal)
  exact ⟨trivial, rfl⟩

/-- A push takes effect before it notifies. -/
theorem push_works {call : Call α} (access : Access α) (result : call.Result)
    (haccess : (Work.pending call).Accesses access)
    (hafter : ∀ reply, (Work.pending call).after access reply = some (.finished call result)) :
    (works α).Ok (scopedLock .queue do
      let _ ← deque access
      scopedLock .blocking notifyOne) (.pending call) fun _ final ↦
        final = .finished call result := by
  refine scopedLock_works trivial (Discipline.ok_bind.mpr ⟨haccess, fun reply middle hmiddle ↦ ?_⟩)
  obtain rfl := Option.some.inj ((hafter reply).symm.trans hmiddle)
  refine scopedLock_works trivial ⟨trivial, fun _ final hfinal ↦ ?_⟩
  obtain rfl := Option.some.inj hfinal
  exact ⟨trivial, trivial, rfl⟩

/-- A round of `wait` finishes it or leaves it where it was. -/
theorem wait_works :
    (works α).Ok wait (.pending .wait) fun _ final ↦ final = .finished .wait () := by
  have hempty : (works α).Ok empty (.pending .wait) fun isEmpty next ↦
      next = if isEmpty then .pending .wait else .finished .wait () := by
    refine access_works trivial trivial fun reply next hnext ↦ ?_
    cases reply with
    | true => exact Option.some.inj hnext ▸ ⟨trivial, rfl⟩
    | false => exact Option.some.inj hnext ▸ ⟨trivial, rfl⟩
  rw [wait, Discipline.ok_bind]
  refine hempty.mono fun isEmpty next hnext ↦ ?_
  rw [hnext, Discipline.ok_ite]
  refine ⟨fun htrue ↦ ?_, fun hfalse ↦ ?_⟩
  · rw [if_pos htrue, Discipline.ok_bind]
    refine scopedLock_works trivial ⟨trivial, fun _ last hlast ↦ ?_⟩
    obtain rfl := Option.some.inj hlast
    exact ⟨trivial, rfl, fun final hfinal ↦ hfinal⟩
  · rw [if_neg hfalse]
    rfl

/-- Every call takes effect before it returns, with the result it returns. -/
theorem returning_works (call : Call α) :
    (works α).Ok call.returning (.pending call) fun result final ↦
      final = .finished call result := by
  cases call with
  | front => exact @look_works _ .front .front (fun _ ↦ ()) trivial fun _ ↦ rfl
  | back => exact @look_works _ .back .back (fun _ ↦ ()) trivial fun _ ↦ rfl
  | popFront =>
    exact @take_works _ .popFront .front .popFront id id trivial (fun _ ↦ rfl) (fun _ ↦ trivial)
      fun _ _ ↦ rfl
  | popBack =>
    exact @take_works _ .popBack .back .popBack id id trivial (fun _ ↦ rfl) (fun _ ↦ trivial)
      fun _ _ ↦ rfl
  | pushBack item => exact @push_works _ (.pushBack item) (.emplaceBack item) () rfl fun _ ↦ rfl
  | pushFront item => exact @push_works _ (.pushFront item) (.emplaceFront item) () rfl fun _ ↦ rfl
  | empty => exact @look_works _ .empty .empty id trivial fun _ ↦ rfl
  | clear => exact @look_works _ .clear .clear id trivial fun _ ↦ rfl
  | wait => exact ⟨rfl, fun _ hfinal ↦ hfinal⟩

/-- Every call keeps both disciplines, from no mutex to no mutex. -/
theorem returning_ok (call : Call α) :
    ((grips α).prod (works α)).Ok call.returning (.free, .pending call) fun result final ↦
      final = (.free, .finished call result) := by
  have hgrips : (grips α).Ok call.returning .free fun _ final ↦ final = .free := by
    have hprogram := program_ok call
    rw [program_eq, Discipline.ok_bind] at hprogram
    exact hprogram
  exact (hgrips.prod (returning_works call)).mono fun result final hfinal ↦
    Prod.ext hfinal.1 hfinal.2

end Programs

/-! ### The items -/

/-- The item that a pop takes if it is made now. -/
def Call.Sees (item : α) (items : List α) : Call α → Prop
  | popFront => items.head? = some item
  | popBack => items.getLast? = some item
  | _ => False

/-- The mutexes are owned as the grips say, the items are those of the deque, a thread that makes no
call has no mutex, and a pop that has seen its item has `muxQueue` and the item is still there. -/
structure Ready (state : Shared ι α) (items : List α) (contexts : ι → Grip × Work α) : Prop where
  locked : Locked state fun thread ↦ (contexts thread).1
  items : items = state.deqQueue
  idle : ∀ thread, (contexts thread).2 = .idle → (contexts thread).1 = .free
  seen : ∀ thread call item, (contexts thread).2 = .seen call item →
    (contexts thread).1 = .queue ∧ call.Sees item state.deqQueue

/-- Nobody uses a queue that has just been made. -/
theorem started_ready (items : List α) :
    Ready (started items : Shared ι α) items fun _ ↦ (.free, .idle) :=
  ⟨started_locked items, rfl, fun _ _ ↦ rfl, nofun⟩

/-- A look at an end of the deque returns the item there and leaves the items. -/
theorem of_look {α β : Type} {found : Option α} {items left : β} {item : α}
    (hrun : (found.map fun item ↦ (item, items)) = some (item, left)) :
    found = some item ∧ left = items := by
  obtain ⟨_, hfound, hpair⟩ := Option.map_eq_some_iff.mp hrun
  obtain ⟨rfl, rfl⟩ := Prod.mk.inj hpair
  exact ⟨hfound, rfl⟩

/-- What returns when there is an item returns when there is this one. -/
theorem effect_of_mem {items : List α} {item : α} (hitem : item ∈ items) :
    (if items.isEmpty then none else some ((), items)) = some ((), items) := by
  rw [if_neg]
  rw [List.isEmpty_iff]
  exact List.ne_nil_of_mem hitem

/-- An access that comes next in a call takes the call on: it leaves the items and what is told of
the call as they were, or the call takes effect. -/
theorem exists_after_of_accesses {work : Work α} {access : Access α} {items left : List α}
    {reply : access.Reply} (haccess : work.Accesses access)
    (hseen : ∀ call item, work = .seen call item → call.Sees item items)
    (hrun : access.run items = some (reply, left)) :
    ∃ next, work.after access reply = some next ∧ next ≠ .idle ∧
      (∀ call item, next = .seen call item → call.Sees item left) ∧
      (next.stage = work.stage ∧ left = items ∨
        ∃ call result, work.stage = .invoked call ∧ next.stage = .done call result ∧
          call.effect items = some (result, left)) := by
  have hremoved : ∀ {left rest : List α}, (if items.isEmpty then none else some ((), rest)) =
      some ((), left) → left = rest := by
    intro left rest hrun
    split_ifs at hrun
    exact (Prod.mk.inj (Option.some.inj hrun)).2.symm
  unfold Work.Accesses at haccess
  split at haccess
  case h_1 =>
    obtain ⟨hfirst, rfl⟩ := of_look hrun
    have hthere := effect_of_mem (List.mem_of_head? hfirst)
    exact ⟨_, rfl, nofun, nofun, .inr ⟨.front, (), rfl, rfl, hthere⟩⟩
  case h_2 =>
    obtain ⟨hlast, rfl⟩ := of_look hrun
    have hthere := effect_of_mem (List.mem_of_getLast? hlast)
    exact ⟨_, rfl, nofun, nofun, .inr ⟨.back, (), rfl, rfl, hthere⟩⟩
  case h_3 =>
    obtain ⟨hfirst, rfl⟩ := of_look hrun
    refine ⟨_, rfl, nofun, ?_, .inl ⟨rfl, rfl⟩⟩
    rintro _ _ ⟨⟩
    exact hfirst
  case h_4 item =>
    have hfirst : items.head? = some item := hseen _ _ rfl
    obtain rfl := hremoved hrun
    refine ⟨_, rfl, nofun, nofun, .inr ⟨.popFront, item, rfl, rfl, ?_⟩⟩
    rw [Call.effect, hfirst]
    rfl
  case h_5 =>
    obtain ⟨hlast, rfl⟩ := of_look hrun
    refine ⟨_, rfl, nofun, ?_, .inl ⟨rfl, rfl⟩⟩
    rintro _ _ ⟨⟩
    exact hlast
  case h_6 item =>
    have hlast : items.getLast? = some item := hseen _ _ rfl
    obtain rfl := hremoved hrun
    refine ⟨_, rfl, nofun, nofun, .inr ⟨.popBack, item, rfl, rfl, ?_⟩⟩
    rw [Call.effect, hlast]
    rfl
  case h_7 item pushed =>
    subst haccess
    exact ⟨_, rfl, nofun, nofun, .inr ⟨.pushBack pushed, (), rfl, rfl, hrun⟩⟩
  case h_8 item pushed =>
    subst haccess
    exact ⟨_, rfl, nofun, nofun, .inr ⟨.pushFront pushed, (), rfl, rfl, hrun⟩⟩
  case h_9 => exact ⟨_, rfl, nofun, nofun, .inr ⟨.empty, reply, rfl, rfl, hrun⟩⟩
  case h_10 => exact ⟨_, rfl, nofun, nofun, .inr ⟨.clear, (), rfl, rfl, hrun⟩⟩
  case h_11 =>
    obtain ⟨rfl, rfl⟩ := Prod.mk.inj (Option.some.inj hrun)
    cases items with
    | nil => exact ⟨_, rfl, nofun, nofun, .inl ⟨rfl, rfl⟩⟩
    | cons item items => exact ⟨_, rfl, nofun, nofun, .inr ⟨.wait, (), rfl, rfl, rfl⟩⟩
  case h_12 => exact haccess.elim

section Items

variable [DecidableEq ι] {state after : Shared ι α} {items : List α} {contexts : ι → Grip × Work α}
  {thread : ι} {grip : Grip} {work : Work α}

/-- The grips after the context of a thread has changed. -/
theorem grips_update (contexts : ι → Grip × Work α) (thread : ι) (context : Grip × Work α) :
    (fun other ↦ (Function.update contexts thread context other).1) =
      Function.update (fun other ↦ (contexts other).1) thread context.1 :=
  funext (Function.apply_update (fun _ ↦ Prod.fst) contexts thread context)

/-- What is ready stays so when the deque does not change and the thread has nothing seen. -/
theorem Ready.keep (hready : Ready state items contexts)
    (hlocked : Locked after (Function.update (fun other ↦ (contexts other).1) thread grip))
    (hdeque : after.deqQueue = state.deqQueue)
    (hwork : work.IsOpen ∨ grip = .free ∧ work = .idle) :
    Ready after items (Function.update contexts thread (grip, work)) where
  locked := by
    rw [grips_update]
    exact hlocked
  items := hready.items.trans hdeque.symm
  idle := by
    intro other hidle
    by_cases hother : other = thread
    · subst hother
      rw [Function.update_self] at hidle ⊢
      rcases hwork with hopen | ⟨hfree, -⟩
      · rw [show work = .idle from hidle] at hopen
        exact hopen.elim
      · exact hfree
    · rw [Function.update_of_ne hother] at hidle ⊢
      exact hready.idle other hidle
  seen := by
    intro other call item hseen
    by_cases hother : other = thread
    · subst hother
      rw [Function.update_self] at hseen
      rcases hwork with hopen | ⟨-, rfl⟩
      · rw [show work = .seen call item from hseen] at hopen
        exact hopen.elim
      · cases hseen
    · rw [Function.update_of_ne hother] at hseen ⊢
      rw [hdeque]
      exact hready.seen other call item hseen

/-- An access under `muxQueue` that comes next in a call takes the call on. Nobody else has an item
seen then. -/
theorem Ready.access (hready : Ready state items contexts) (hgrip : (contexts thread).1 = .queue)
    {access : Access α} {reply : access.Reply} {left : List α}
    (haccess : (contexts thread).2.Accesses access)
    (hrun : access.run state.deqQueue = some (reply, left)) :
    ∃ next, (contexts thread).2.after access reply = some next ∧
      Ready (state.setItems left) left (Function.update contexts thread (.queue, next)) ∧
      (next.stage = (contexts thread).2.stage ∧ left = items ∨
        ∃ call result, (contexts thread).2.stage = .invoked call ∧
          next.stage = .done call result ∧ call.effect items = some (result, left)) := by
  obtain ⟨next, hnext, hbusy, hsees, hstage⟩ := exists_after_of_accesses haccess
    (fun call item hseen ↦ (hready.seen thread call item hseen).2) hrun
  rw [← hready.items] at hstage
  refine ⟨next, hnext, ⟨?_, rfl, ?_, ?_⟩, hstage⟩
  · rw [grips_update, ← hgrip, Function.update_eq_self]
    exact ⟨hready.locked.owner, hready.locked.awake⟩
  · intro other hidle
    by_cases hother : other = thread
    · subst hother
      rw [Function.update_self] at hidle
      exact absurd hidle hbusy
    · rw [Function.update_of_ne hother] at hidle ⊢
      exact hready.idle other hidle
  · intro other call item hseen
    by_cases hother : other = thread
    · subst hother
      rw [Function.update_self] at hseen ⊢
      exact ⟨rfl, hsees call item hseen⟩
    · rw [Function.update_of_ne hother] at hseen
      have hown : state.owner .queue = some thread :=
        (hready.locked.owner .queue thread).mpr (hgrip ▸ trivial)
      have hother' : state.owner .queue = some other :=
        (hready.locked.owner .queue other).mpr ((hready.seen other call item hseen).1 ▸ trivial)
      exact absurd (Option.some.inj (hother'.symm.trans hown)) hother

/-- An operation that is no access to the deque leaves it alone. -/
theorem deqQueue_of_replies {operation : Operation α} {value : operation.Reply}
    (hreplies : Replies thread operation state value after)
    (hother : ∀ access, operation ≠ .deque access) : after.deqQueue = state.deqQueue := by
  cases operation with
  | lock mutex => rw [hreplies.2, own_deqQueue]
  | unlock mutex => rw [hreplies.2, own_deqQueue]
  | notifyOne =>
    rcases hreplies with ⟨sleeper, -, rfl⟩ | ⟨-, rfl⟩
    · rfl
    · rfl
  | wait => rw [hreplies.2.2, setSleep_deqQueue, own_deqQueue]
  | deque access => exact absurd rfl (hother access)

/-- A wait that goes on leaves the deque alone. -/
theorem deqQueue_of_goes {operation : Operation α} (hgoes : Goes thread operation state after) :
    after.deqQueue = state.deqQueue := by
  cases operation with
  | wait =>
    rcases hgoes with ⟨-, -, rfl⟩ | ⟨-, rfl⟩
    · rfl
    · rfl
  | _ => exact hgoes.elim

/-- The calls of the queue take effect with the accesses to the deque that decide them. -/
theorem linearizes : Linearizes (tsqueue ι α) (sequential α) ((grips α).prod (works α))
    (fun context ↦ context.2.stage) (fun call result final ↦ final = (.free, .finished call result))
    Ready where
  invoke {state items contexts thread} hready hidle call := by
    have hwork : (contexts thread).2 = .idle := by
      cases hwork : (contexts thread).2 with
      | idle => rfl
      | _ =>
        rw [hwork] at hidle
        cases hidle
    refine ⟨(.free, .pending call), rfl, hready.keep ?_ rfl (Or.inl trivial), returning_ok call⟩
    rw [← hready.idle thread hwork, Function.update_eq_self]
    exact hready.locked
  proceed {state items contexts thread operation after} hready hallowed hgoes := by
    have hdeque := deqQueue_of_goes (show Goes thread operation state after from hgoes)
    obtain ⟨hasleep, rfl⟩ := hready.locked.goes hallowed.1 hgoes
    refine ⟨(.asleep, (contexts thread).2), rfl,
      hready.keep hasleep hdeque (Or.inl hallowed.2), ⟨nofun, hallowed.2⟩, fun reply ↦ ?_⟩
    obtain ⟨next, hnext⟩ := Option.ne_none_iff_exists'.mp hallowed.1
    have hgrip : (contexts thread).1.after (.wait : Operation α) = some .blocking :=
      hnext.trans (congrArg some (blocking_of_after_wait hnext).2)
    show _ = ((contexts thread).1.after (.wait : Operation α)).bind _
    rw [hgrip]
    rfl
  reply {state items contexts thread operation value after} hready hallowed hreplies := by
    obtain ⟨next, hnext⟩ := Option.ne_none_iff_exists'.mp hallowed.1
    have hgrip : (contexts thread).1.after operation = some next := hnext
    have hreplied : Replies thread operation state value after := hreplies
    cases operation with
    | deque access =>
      obtain ⟨left, hrun, rfl⟩ := hreplied
      obtain ⟨hqueue, rfl⟩ := queue_of_after_deque hgrip
      obtain ⟨work, hwork, hkept, hstage⟩ := hready.access hqueue hallowed.2 hrun
      refine ⟨(.queue, work), left, ?_, hkept, hstage⟩
      show ((contexts thread).1.after (.deque access)).bind _ = _
      rw [hgrip]
      show ((contexts thread).2.after access value).map _ = _
      rw [hwork]
      rfl
    | _ =>
      have hlocked := hready.locked.reply hgrip hreplied
      have hdeque := deqQueue_of_replies hreplied nofun
      refine ⟨(next, (contexts thread).2), items, ?_,
        hready.keep hlocked hdeque (Or.inl hallowed.2), Or.inl ⟨rfl, rfl⟩⟩
      show ((contexts thread).1.after _).bind _ = _
      rw [hgrip]
      rfl
  enter {state items contexts thread procedure} hready hbefore := by
    have hcalled : ((grips α).prod (works α)).called procedure (contexts thread) =
        contexts thread := rfl
    refine ⟨rfl, ?_⟩
    rw [hcalled, Function.update_eq_self]
    exact hready
  body {procedure context} hbefore := by
    obtain ⟨hfree, hpending⟩ := hbefore
    obtain ⟨grip, work⟩ := context
    obtain rfl : grip = .free := hfree
    obtain rfl : work = .pending .wait := hpending
    exact wait_ok.prod wait_works
  respond {state items contexts thread call result} hready hreturns := by
    refine ⟨by rw [hreturns]; rfl, (.free, .idle), rfl, hready.keep ?_ rfl (Or.inr ⟨rfl, rfl⟩)⟩
    rw [show Grip.free = (contexts thread).1 from (congrArg Prod.fst hreturns).symm,
      Function.update_eq_self]
    exact hready.locked

/-- Every history of the queue has a linearization that leaves the items of the deque. -/
theorem exists_linearization {history : List (Visible ι (Call α) Call.Result)}
    {config : Implementation.Config (signature α) ι (Shared ι α) (Call α) Call.Result}
    (hshows : (tsqueue ι α).Shows (started items) history config) :
    ∃ order, Linearization (sequential α) items history order config.state.deqQueue := by
  obtain ⟨order, next, ⟨contexts, hready, -, -⟩, hlinearization⟩ :=
    linearizes.shows (fun _ ↦ rfl) (started_ready items) hshows
  rw [hready.items] at hlinearization
  exact ⟨order, hlinearization⟩

/-- Whatever calls of the functions of the queue any number of threads make, however their steps
interleave: there is an order of the calls, with those that have returned and perhaps some that have
not, in which they return the same results when they are made one at a time on a list with the same
items, and leave there the items that the deque holds. A call that returned before another was made
stands before it: some beginning of the order covers any beginning of the history. -/
theorem linearizable {history : List (Visible ι (Call α) Call.Result)}
    {config : Implementation.Config (signature α) ι (Shared ι α) (Call α) Call.Result}
    (hshows : (tsqueue ι α).Shows (started items) history config) :
    ∃ order, (sequential α).Legal items order config.state.deqQueue ∧ Covers order history ∧
      ∀ earlier, earlier <+: history → ∃ first, first <+: order ∧ Covers first earlier := by
  obtain ⟨order, hlinearization⟩ := exists_linearization hshows
  exact ⟨order, hlinearization.legal, hlinearization.covers, hlinearization.ordered⟩

end Items

/-- What is seen when a thread asks whether the queue is empty while another is about to clear
it. -/
def glance : List (Visible ℕ (Call ℕ) Call.Result) :=
  [.invoke 1 .clear, .invoke 0 .empty, .respond 0 .empty false]

/-- The thread is told of the item, so the other one comes after it. -/
theorem linearizable_of_glance :
    ∃ config : Implementation.Config (signature ℕ) ℕ (Shared ℕ ℕ) (Call ℕ) Call.Result,
      (tsqueue ℕ ℕ).Shows (started [5]) glance config ∧
      ∃ order, (sequential ℕ).Legal [5] order config.state.deqQueue ∧ Covers order glance ∧
        ∀ earlier, earlier <+: glance → ∃ first, first <+: order ∧ Covers first earlier := by
  have hstart : (tsqueue ℕ ℕ).Shows (started [5]) [] ⟨started [5], fun _ ↦ none⟩ := .nil
  have hasked := (hstart.invoke 1 .clear rfl).invoke 0 .empty rfl
  have hlocked := hasked.reply () ⟨rfl, rfl⟩
  have hlooked := hlocked.reply false ⟨[5], rfl, rfl⟩
  have hunlocked := hlooked.reply () ⟨rfl, rfl⟩
  have hshows := hunlocked.respond
  exact ⟨_, hshows, linearizable hshows⟩

end KoboldKhat.Tsqueue
