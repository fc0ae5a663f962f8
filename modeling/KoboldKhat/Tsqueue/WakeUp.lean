import KoboldKhat.Tsqueue.Deadlock

/-!
# Wake-ups of the queue

One thread waits for the queue to fill, and any number of others push. `wait` asks whether the queue
is empty under `muxQueue`, and parks under `muxBlocking`. A push that notifies between the two finds
nobody parked, and the waiter is then parked beside a queue with an item (`stranded_of_late`).

What the waiter has seen and what a push still owes it is a `Stage`, kept next to the grips of
`Tsqueue.Deadlock`. As long as no push notifies while the waiter is about to lock `muxBlocking`
(`Late`), a waiter that has seen an empty queue and has not been woken is beside an empty queue, or
some push has yet to notify (`Watched`).
-/

set_option autoImplicit false
set_option relaxedAutoImplicit false

namespace KoboldKhat.Tsqueue

open Library

variable {ι α : Type}

/-! ### One waiter -/

/-- The waiter calls `wait` only, and every other thread calls `push_back` and `push_front` only. -/
def oneWaiter (waiter thread : ι) : Call α → Prop
  | .wait => thread = waiter
  | .pushBack _ => thread ≠ waiter
  | .pushFront _ => thread ≠ waiter
  | _ => False

/-- The waiter is parked and has not been notified, the queue is not empty, and no other thread is
in a call. -/
def Stranded (waiter : ι) (config : Config (signature α) ι (Shared ι α)) : Prop :=
  config.state.sleep waiter = .parked ∧ config.state.deqQueue ≠ [] ∧
    ∀ other, other ≠ waiter → config.threads other = none

/-- The thread notifies next, and the waiter, which has found the queue empty, locks `muxBlocking`
next. -/
def Late (waiter : ι) (config : Config (signature α) ι (Shared ι α)) (thread : ι) : Prop :=
  (∃ next, config.threads thread = some (@Program.act (signature α) _ .notifyOne next)) ∧
    ∃ next, config.threads waiter = some (@Program.act (signature α) _ (.lock .blocking) next)

/-! ### Stages -/

/-- How far a thread is in its call: it waits and has not found the queue empty, it has found the
queue empty and has not come back from a wait on `cvBlocking` since, it pushes and owes no
notification, or it has put an item into the queue and has not notified yet. -/
inductive Stage
  | waits
  | sawEmpty
  | pushes
  | owes
  deriving DecidableEq

/-- The stages of the waiter. -/
def Stage.OfWaiter : Stage → Prop
  | waits => True
  | sawEmpty => True
  | _ => False

/-- The stage after a reply, or `none` where the operation must not come. -/
def Stage.after : Stage → (operation : Operation α) → operation.Reply → Option Stage
  | waits, .lock .queue, _ => some waits
  | waits, .deque .empty, isEmpty => some (cond isEmpty sawEmpty waits)
  | sawEmpty, .lock .blocking, _ => some sawEmpty
  | sawEmpty, .wait, _ => some waits
  | pushes, .lock .queue, _ => some pushes
  | pushes, .deque (.emplaceBack _), _ => some owes
  | pushes, .deque (.emplaceFront _), _ => some owes
  | owes, .lock .blocking, _ => some owes
  | owes, .notifyOne, _ => some pushes
  | stage, .unlock _, _ => some stage
  | _, _, _ => none

/-- The waiter stays the waiter. -/
theorem ofWaiter_of_after {stage next : Stage} {operation : Operation α} {value : operation.Reply}
    (hnext : stage.after operation value = some next) : next.OfWaiter ↔ stage.OfWaiter := by
  unfold Stage.after at hnext
  split at hnext
  case h_2 isEmpty =>
    cases isEmpty <;> cases hnext <;> rfl
  all_goals cases hnext <;> rfl

/-- A lock or an unlock keeps the stage. -/
theorem stage_of_lock {stage next : Stage} {mutex : Mutex} {value : Unit}
    (hnext : stage.after (.lock mutex : Operation α) value = some next ∨
      stage.after (.unlock mutex : Operation α) value = some next) : next = stage := by
  rcases hnext with hnext | hnext
  · cases stage <;> cases mutex <;> cases hnext <;> rfl
  · cases stage <;> cases hnext <;> rfl

/-- A notification pays what a push owes. -/
theorem owes_of_after_notifyOne {stage next : Stage} {value : Unit}
    (hnext : stage.after (.notifyOne : Operation α) value = some next) : stage = .owes := by
  cases stage <;> cases hnext
  rfl

/-- A thread that waits on `cvBlocking` comes back to ask again whether the queue is empty. -/
theorem waits_of_after_wait {stage next : Stage} {value : Unit}
    (hnext : stage.after (.wait : Operation α) value = some next) :
    stage = .sawEmpty ∧ next = .waits := by
  cases stage <;> cases hnext
  exact ⟨rfl, rfl⟩

/-- After an access a push owes a notification, and a waiter has found empty only an empty queue. -/
theorem owes_or_empty_of_after_deque {stage next : Stage} {access : Access α}
    {value : access.Reply} (hnext : stage.after (.deque access) value = some next)
    {items left : List α} (hrun : access.run items = some (value, left)) :
    next = .owes ∨ stage = .waits ∧ (next = .sawEmpty → left = []) := by
  cases access with
  | empty =>
    cases hrun
    cases stage <;> cases hnext
    refine .inr ⟨rfl, fun hempty ↦ ?_⟩
    cases items with
    | nil => rfl
    | cons first rest => cases hempty
  | emplaceFront item =>
    cases stage <;> cases hnext
    exact .inl rfl
  | emplaceBack item =>
    cases stage <;> cases hnext
    exact .inl rfl
  | _ => cases stage <;> cases hnext

/-- The operations that the stages admit. -/
def stages (α : Type) : Discipline (signature α) Stage where
  allowed stage operation := ∀ value, stage.after operation value ≠ none
  next stage operation value := stage.after operation value
  before _ stage := stage = .waits
  called _ stage := stage
  after _ _ final := final = .waits

/-- An operation with the same next stage for every reply. -/
theorem perform_stages_ok {operation : Operation α} {stage next : Stage}
    (hnext : ∀ value, stage.after operation value = some next) :
    (stages α).Ok (@Program.perform (signature α) operation) stage fun _ final ↦ final = next := by
  refine ⟨fun value hnone ↦ ?_, fun value final hfinal ↦ ?_⟩
  · rw [hnext value] at hnone
    cases hnone
  · exact Option.some.inj (hfinal.symm.trans (hnext value))

/-- A block under a lock that keeps the stage leaves the stage that the block leaves. -/
theorem scopedLock_stages_ok {β : Type} {mutex : Mutex} {block : QueueProgram α β} {stage : Stage}
    {post : β → Stage → Prop} (hlock : stage.after (.lock mutex : Operation α) () = some stage)
    (hblock : (stages α).Ok block stage post) :
    (stages α).Ok (scopedLock mutex block) stage post := by
  refine Discipline.ok_bind.mpr ((perform_stages_ok fun _ ↦ hlock).mono fun _ locked hlocked ↦ ?_)
  rw [hlocked]
  refine Discipline.ok_bind.mpr (hblock.mono fun value last hlast ↦ ?_)
  have hunlock : ∀ reply, last.after (.unlock mutex : Operation α) reply = some last := by
    intro reply
    cases last <;> rfl
  refine Discipline.ok_bind.mpr ((perform_stages_ok hunlock).mono fun _ final hfinal ↦ ?_)
  rw [hfinal]
  exact hlast

/-- What `empty` returns is what the thread has seen. -/
theorem empty_stages_ok :
    (stages α).Ok empty .waits fun isEmpty final ↦ final = cond isEmpty .sawEmpty .waits :=
  scopedLock_stages_ok rfl ⟨fun _ ↦ nofun, fun _ _ hnext ↦ (Option.some.inj hnext).symm⟩

/-- A round of the loop of `wait` parks after it has found the queue empty. -/
theorem wait_stages_ok : (stages α).Ok wait .waits fun _ final ↦ final = .waits := by
  refine Discipline.ok_bind.mpr (empty_stages_ok.mono fun isEmpty final hfinal ↦ ?_)
  rw [hfinal, Discipline.ok_ite]
  constructor
  · intro hempty
    rw [hempty]
    refine Discipline.ok_bind.mpr ?_
    refine (scopedLock_stages_ok rfl (perform_stages_ok fun _ ↦ rfl)).mono fun _ last hlast ↦ ?_
    exact ⟨hlast, fun _ hafter ↦ hafter⟩
  · intro hnonempty
    have hfalse : isEmpty = false := Bool.eq_false_iff.mpr hnonempty
    rw [hfalse]
    rfl

/-- A push puts its item into the queue and notifies once after it. -/
theorem push_stages_ok {access : Access α}
    (haccess : ∀ value, Stage.pushes.after (.deque access) value = some .owes) :
    (stages α).Ok (scopedLock .queue do
      let _ ← deque access
      scopedLock .blocking notifyOne) .pushes fun _ final ↦ final = .pushes := by
  refine scopedLock_stages_ok rfl (Discipline.ok_bind.mpr ?_)
  refine (perform_stages_ok haccess).mono fun _ middle hmiddle ↦ ?_
  rw [hmiddle]
  exact scopedLock_stages_ok rfl (perform_stages_ok fun _ ↦ rfl)

/-! ### The queue is watched -/

/-- The grips and the stages at once. -/
abbrev watch (α : Type) : Discipline (signature α) (Grip × Stage) :=
  (grips α).prod (stages α)

/-- A thread between two calls holds no mutex, has not found the queue empty and owes nothing. -/
def AtRest (context : Grip × Stage) : Prop :=
  context.1 = .free ∧ (context.2 = .waits ∨ context.2 = .pushes)

/-- The grips are right, the waiter is the one thread in its stages, and if it has found the queue
empty and has not been woken, the queue is empty or a push owes a notification. -/
structure Watched (waiter : ι) (state : Shared ι α) (contexts : ι → Grip × Stage) : Prop where
  locked : Locked state fun thread ↦ (contexts thread).1
  role : ∀ thread, (contexts thread).2.OfWaiter ↔ thread = waiter
  watched : (contexts waiter).2 = .sawEmpty → state.sleep waiter ≠ .woken →
    state.deqQueue = [] ∨ ∃ thread, (contexts thread).2 = .owes

/-- Before the first call nobody has looked at the queue. -/
theorem started_watched [DecidableEq ι] (waiter : ι) (items : List α) :
    Watched waiter (started items) fun thread ↦
      (.free, if thread = waiter then .waits else .pushes) where
  locked := started_locked items
  role thread := by
    by_cases hthread : thread = waiter <;> simp [hthread, Stage.OfWaiter]
  watched := by simp

/-- A thread that is not at rest is at an operation that both disciplines admit. -/
theorem exists_act_of_not_atRest {program : Option (QueueProgram α Unit)}
    {context : Grip × Stage} (hok : (watch α).ThreadOk AtRest program context)
    (hrest : ¬AtRest context) :
    ∃ operation next, program = some (@Program.act (signature α) _ operation next) ∧
      context.1.after operation ≠ none ∧ ∀ value, context.2.after operation value ≠ none := by
  rcases program with _ | (_ | reason | ⟨operation, next⟩ | ⟨procedure, next⟩)
  · exact absurd hok hrest
  · exact absurd hok hrest
  · exact nomatch reason
  · exact ⟨operation, next, rfl, hok.1⟩
  · exact absurd ⟨hok.1.1, .inl hok.1.2⟩ hrest

/-- A thread asleep has found the queue empty. -/
theorem sawEmpty_of_asleep {program : Option (QueueProgram α Unit)} {context : Grip × Stage}
    (hok : (watch α).ThreadOk AtRest program context) (hasleep : context.1 = .asleep) :
    context.2 = .sawEmpty := by
  obtain ⟨operation, next, -, hgrip, hstage⟩ :=
    exists_act_of_not_atRest hok fun hrest ↦ nomatch hasleep.symm.trans hrest.1
  obtain ⟨held, hheld⟩ := Option.ne_none_iff_exists'.mp hgrip
  cases (ne_asleep_of_after hheld).2 hasleep
  obtain ⟨grip, stage⟩ := context
  cases stage with
  | sawEmpty => rfl
  | _ => exact absurd rfl (hstage ())

/-- A waiter that has found the queue empty and holds no mutex locks `muxBlocking` next. -/
theorem lock_of_sawEmpty {program : Option (QueueProgram α Unit)} {context : Grip × Stage}
    (hok : (watch α).ThreadOk AtRest program context) (hfree : context.1 = .free)
    (hempty : context.2 = .sawEmpty) :
    ∃ next, program = some (@Program.act (signature α) _ (.lock .blocking) next) := by
  have hrest : ¬AtRest context := by
    rintro ⟨-, hstage | hstage⟩ <;> cases hempty.symm.trans hstage
  obtain ⟨operation, next, hprogram, hgrip, hstage⟩ := exists_act_of_not_atRest hok hrest
  rw [hfree] at hgrip
  rw [hempty] at hstage
  cases operation with
  | lock mutex =>
    cases mutex with
    | queue => exact absurd rfl (hstage ())
    | blocking => exact ⟨next, hprogram⟩
  | _ => exact absurd rfl hgrip

/-- While one thread holds both mutexes, every other thread holds none. -/
theorem Locked.free_or_asleep {state : Shared ι α} {held : ι → Grip} {thread : ι}
    (hlocked : Locked state held) (hboth : held thread = .both) {other : ι}
    (hother : other ≠ thread) :
    held other = .free ∨ held other = .asleep := by
  have howner : ∀ mutex, state.owner mutex = some thread := by
    intro mutex
    exact (hlocked.owner mutex thread).mpr (by simp [hboth, Grip.Holds])
  have hnot : ∀ mutex, ¬(held other).Holds mutex := by
    intro mutex hholds
    have hsame := (howner mutex).symm.trans ((hlocked.owner mutex other).mpr hholds)
    exact hother (Option.some.inj hsame).symm
  cases hgrip : held other with
  | free => exact .inl rfl
  | asleep => exact .inr rfl
  | queue => exact absurd (hgrip ▸ trivial) (hnot .queue)
  | both => exact absurd (hgrip ▸ trivial) (hnot .queue)
  | blocking => exact absurd (hgrip ▸ trivial) (hnot .blocking)

/-! ### Steps that are not late -/

variable [DecidableEq ι] {waiter thread : ι} {state after : Shared ι α}
  {contexts : ι → Grip × Stage}

/-- The grips after one of them has changed. -/
theorem fst_update (context : Grip × Stage) :
    (fun other ↦ (Function.update contexts thread context other).1) =
      Function.update (fun other ↦ (contexts other).1) thread context.1 :=
  Function.comp_update Prod.fst contexts thread context

/-- The stages after one of them has changed. -/
theorem snd_update (context : Grip × Stage) (other : ι) :
    (Function.update contexts thread context other).2 =
      Function.update (fun other ↦ (contexts other).2) thread context.2 other :=
  congrFun (Function.comp_update Prod.snd contexts thread context) other

/-- A step that keeps the stage of its thread and the queue, and wakes nobody who was not woken,
keeps the queue watched. -/
theorem Watched.of_stage (hwatched : Watched waiter state contexts) {grip : Grip}
    (hlocked : Locked after (Function.update (fun other ↦ (contexts other).1) thread grip))
    (hqueue : after.deqQueue = state.deqQueue)
    (hsleep : state.sleep waiter = .woken → after.sleep waiter = .woken) :
    Watched waiter after (Function.update contexts thread (grip, (contexts thread).2)) := by
  have hstages : ∀ other,
      (Function.update contexts thread (grip, (contexts thread).2) other).2 =
        (contexts other).2 := by
    intro other
    rw [snd_update, Function.update_eq_self]
  refine ⟨by rwa [fst_update], fun other ↦ ?_, fun hempty hwoken ↦ ?_⟩
  · rw [hstages]
    exact hwatched.role other
  · rw [hstages] at hempty
    simp only [hstages, hqueue]
    exact hwatched.watched hempty fun hwas ↦ hwoken (hsleep hwas)

/-- A notification that is not late wakes the waiter that has found the queue empty. -/
theorem Watched.woken_of_notify {threads : ι → Option (QueueProgram α Unit)}
    (hwatched : Watched waiter state contexts)
    (hthreads : ∀ other, (watch α).ThreadOk AtRest (threads other) (contexts other))
    (hboth : (contexts thread).1 = .both) (hother : waiter ≠ thread)
    (hempty : (contexts waiter).2 = .sawEmpty)
    (htimely : ¬∃ next, threads waiter = some (@Program.act (signature α) _ (.lock .blocking) next))
    (hreply : Replies thread (.notifyOne : Operation α) state () after) :
    after.sleep waiter = .woken := by
  have hasleep : (contexts waiter).1 = .asleep := by
    refine (hwatched.locked.free_or_asleep hboth hother).resolve_left fun hfree ↦ ?_
    exact htimely (lock_of_sawEmpty (hthreads waiter) hfree hempty)
  have hnotAwake : state.sleep waiter ≠ .awake := fun hawake ↦
    (hwatched.locked.awake waiter).mp hawake hasleep
  rcases hreply with ⟨sleeper, hparked, rfl⟩ | ⟨hnone, rfl⟩
  · have hsleeper : (contexts sleeper).1 = .asleep := by
      by_contra hne
      cases hparked.symm.trans ((hwatched.locked.awake sleeper).mpr hne)
    have hsaw : (contexts sleeper).2 = .sawEmpty := sawEmpty_of_asleep (hthreads sleeper) hsleeper
    have hsame : sleeper = waiter := (hwatched.role sleeper).mp (by simp [hsaw, Stage.OfWaiter])
    simp [hsame, Shared.setSleep]
  · have hnotParked := hnone waiter
    cases hsleep : after.sleep waiter <;> simp_all

/-- A reply in a step that is not late keeps the queue watched. -/
theorem Watched.reply {threads : ι → Option (QueueProgram α Unit)}
    (hwatched : Watched waiter state contexts)
    (hthreads : ∀ other, (watch α).ThreadOk AtRest (threads other) (contexts other))
    {operation : Operation α} {next : operation.Reply → QueueProgram α Unit}
    (hat : threads thread = some (@Program.act (signature α) _ operation next))
    (hlate : ¬Late waiter ⟨state, threads⟩ thread) {value : operation.Reply}
    (hreply : Replies thread operation state value after) {grip : Grip} {stage : Stage}
    (hgrip : (contexts thread).1.after operation = some grip)
    (hstage : (contexts thread).2.after operation value = some stage) :
    Watched waiter after (Function.update contexts thread (grip, stage)) := by
  have hlocked := hwatched.locked.reply hgrip hreply
  have hrole : ∀ other,
      (Function.update contexts thread (grip, stage) other).2.OfWaiter ↔ other = waiter := by
    intro other
    rw [← hwatched.role other]
    by_cases hother : other = thread
    · rw [hother, Function.update_self]
      exact ofWaiter_of_after hstage
    · rw [Function.update_of_ne hother]
  refine ⟨by rwa [fst_update], hrole, fun hempty hwoken ↦ ?_⟩
  cases operation with
  | lock mutex =>
    obtain ⟨-, rfl⟩ := hreply
    cases stage_of_lock (.inl hstage)
    exact (hwatched.of_stage hlocked rfl id).watched hempty hwoken
  | unlock mutex =>
    obtain ⟨-, rfl⟩ := hreply
    cases stage_of_lock (.inr hstage)
    exact (hwatched.of_stage hlocked rfl id).watched hempty hwoken
  | notifyOne =>
    have howes := owes_of_after_notifyOne hstage
    have hother : waiter ≠ thread := by
      rintro rfl
      exact absurd ((hwatched.role waiter).mpr rfl) (by simp [howes, Stage.OfWaiter])
    rw [Function.update_of_ne hother] at hempty
    refine absurd (hwatched.woken_of_notify hthreads ?_ hother hempty ?_ hreply) hwoken
    · exact (both_of_after_notifyOne hgrip).1
    · exact fun hlock ↦ hlate ⟨⟨next, hat⟩, hlock⟩
  | wait =>
    obtain ⟨hsaw, rfl⟩ := waits_of_after_wait hstage
    have hwaiter : thread = waiter := (hwatched.role thread).mp (by simp [hsaw, Stage.OfWaiter])
    rw [hwaiter, Function.update_self] at hempty
    cases hempty
  | deque access =>
    obtain ⟨items, hrun, rfl⟩ := hreply
    rcases owes_or_empty_of_after_deque hstage hrun with rfl | ⟨hwaits, hleft⟩
    · exact .inr ⟨thread, by rw [Function.update_self]⟩
    · have hwaiter : thread = waiter :=
        (hwatched.role thread).mp (by simp [hwaits, Stage.OfWaiter])
      rw [hwaiter, Function.update_self] at hempty
      exact .inl (hleft hempty)

/-- A thread at rest is in the stage of its calls. -/
theorem Watched.eq_of_atRest (hwatched : Watched waiter state contexts)
    (hrest : AtRest (contexts thread)) :
    contexts thread = (.free, if thread = waiter then .waits else .pushes) := by
  refine Prod.ext hrest.1 ?_
  have hrole := hwatched.role thread
  by_cases hthread : thread = waiter
  · refine hrest.2.elim (fun hwaits ↦ by simp [hthread, ← hwaits]) fun hpushes ↦ ?_
    exact absurd (hrole.mpr hthread) (by simp [hpushes, Stage.OfWaiter])
  · refine hrest.2.elim (fun hwaits ↦ ?_) fun hpushes ↦ by simp [hthread, hpushes]
    exact absurd (hrole.mp (by simp [hwaits, Stage.OfWaiter])) hthread

/-- Every call that a thread may make keeps both disciplines from rest to rest. -/
theorem program_watch_ok {call : Call α} (hcall : oneWaiter waiter thread call) :
    (watch α).Ok call.program (.free, if thread = waiter then .waits else .pushes)
      fun _ final ↦ AtRest final := by
  have hpush : thread ≠ waiter → ∀ access : Access α,
      (∀ value, Stage.pushes.after (.deque access) value = some .owes) →
      (watch α).Ok (scopedLock .queue do
        let _ ← deque access
        scopedLock .blocking notifyOne) (.free, if thread = waiter then .waits else .pushes)
        fun _ final ↦ AtRest final := by
    intro hthread access haccess
    rw [if_neg hthread]
    exact ((push_ok access).prod (push_stages_ok haccess)).mono fun _ _ hfinal ↦
      ⟨hfinal.1, .inr hfinal.2⟩
  cases call with
  | wait =>
    rw [if_pos (show thread = waiter from hcall)]
    have hstages : (stages α).Ok callWait .waits fun _ final ↦ final = .waits :=
      ⟨rfl, fun _ hfinal ↦ hfinal⟩
    exact ((program_ok .wait).prod hstages).mono fun _ _ hfinal ↦ ⟨hfinal.1, .inl hfinal.2⟩
  | pushBack item => exact hpush hcall (.emplaceBack item) fun _ ↦ rfl
  | pushFront item => exact hpush hcall (.emplaceFront item) fun _ ↦ rfl
  | _ => exact hcall.elim

/-- In steps that are not late the queue stays watched. -/
theorem watch_sound (waiter : ι) :
    Discipline.SoundUnder (machine (α := α) (oneWaiter waiter)) (watch α) AtRest
      (fun config thread ↦ ¬Late waiter config thread) (Watched waiter) where
  enter {state contexts thread program after} hwatched hrest henter := by
    obtain ⟨⟨call, hcall, rfl⟩, rfl⟩ := henter
    refine ⟨contexts thread, by rwa [Function.update_eq_self], ?_⟩
    rw [hwatched.eq_of_atRest hrest]
    exact program_watch_ok hcall
  proceed {state contexts thread operation after} hwatched hallowed hgoes := by
    obtain ⟨hasleep, rfl⟩ := hwatched.locked.goes hallowed.1 hgoes
    obtain ⟨held, hheld⟩ := Option.ne_none_iff_exists'.mp hallowed.1
    obtain ⟨-, rfl⟩ := blocking_of_after_wait hheld
    refine ⟨(.asleep, (contexts thread).2), hwatched.of_stage hasleep ?_ ?_, ⟨nofun, hallowed.2⟩,
      ?_⟩
    · rcases hgoes with ⟨-, -, rfl⟩ | ⟨-, rfl⟩ <;> rfl
    · intro hwoken
      by_cases hthread : waiter = thread
      · rcases hgoes with ⟨hawake, -, -⟩ | ⟨hparked, -⟩
        · cases (hthread ▸ hwoken).symm.trans hawake
        · cases (hthread ▸ hwoken).symm.trans hparked
      · rcases hgoes with ⟨-, -, rfl⟩ | ⟨-, rfl⟩ <;> simpa [Shared.setSleep, hthread] using hwoken
    · intro value
      simp only [watch, Discipline.prod, grips, hheld]
      rfl
  reply {config contexts thread operation next value after} hwatched hthreads hat hlate hreply := by
    have hok := hthreads thread
    rw [hat] at hok
    obtain ⟨grip, hgrip⟩ := Option.ne_none_iff_exists'.mp hok.1.1
    obtain ⟨stage, hstage⟩ := Option.ne_none_iff_exists'.mp (hok.1.2 value)
    refine ⟨(grip, stage), ?_, hwatched.reply hthreads hat hlate hreply hgrip hstage⟩
    simp only [watch, Discipline.prod, grips, stages, hgrip, hstage, Option.bind_some,
      Option.map_some]
  call {state contexts thread procedure} hwatched _ := by
    exact (Function.update_eq_self thread contexts).symm ▸ hwatched
  body {procedure context} hbefore := by
    obtain ⟨grip, stage⟩ := context
    obtain ⟨rfl, rfl⟩ := hbefore
    exact wait_ok.prod wait_stages_ok

/-- Whatever one waiter and any number of pushing threads do: as long as no push notifies while the
waiter has found the queue empty and has not locked `muxBlocking`, the waiter is never left parked
beside a queue with an item and no push in progress. -/
theorem not_stranded_of_timely {items : List α}
    {config : Config (signature α) ι (Shared ι α)}
    (hrun : (machine (oneWaiter waiter)).StepsUnder (fun config thread ↦ ¬Late waiter config thread)
      ⟨started items, fun _ ↦ none⟩ config) : ¬Stranded waiter config := by
  rintro ⟨hparked, hitems, hidle⟩
  have hstart : Discipline.Holds (watch α) AtRest (Watched waiter)
      ⟨started items, fun _ ↦ none⟩ := by
    refine ⟨_, started_watched waiter items, fun thread ↦ ⟨rfl, ?_⟩⟩
    by_cases hthread : thread = waiter <;> simp [hthread]
  obtain ⟨contexts, hwatched, hthreads⟩ := (watch_sound waiter).run hrun hstart
  have hasleep : (contexts waiter).1 = .asleep := by
    by_contra hne
    cases hparked.symm.trans ((hwatched.locked.awake waiter).mpr hne)
  have hsaw := sawEmpty_of_asleep (hthreads waiter) hasleep
  rcases hwatched.watched hsaw (by simp [hparked]) with hempty | ⟨thread, howes⟩
  · exact hitems hempty
  · have hother : thread ≠ waiter := by
      intro hsame
      exact absurd ((hwatched.role thread).mpr hsame) (by simp [howes, Stage.OfWaiter])
    have hrest := hthreads thread
    rw [hidle thread hother] at hrest
    rcases hrest.2 with hstage | hstage <;> cases howes.symm.trans hstage

/-! ### A late notification -/

section Runs

variable {calls : ι → Call α → Prop} {threads : ι → Option (QueueProgram α Unit)}

/-- A step of a thread that does not notify next is in time. -/
theorem timely_of_stepOf (waiter : ι) {config final : Config (signature α) ι (Shared ι α)}
    (hstep : (machine calls).StepOf thread config final)
    (hquiet : ∀ next, config.threads thread ≠ some (@Program.act (signature α) _ .notifyOne next)) :
    (machine calls).StepsUnder (fun config thread ↦ ¬Late waiter config thread) config final :=
  .single ⟨thread, fun ⟨⟨next, hnotifies⟩, _⟩ ↦ hquiet next hnotifies, hstep⟩

/-- An operation that is not a notification is finished in time. -/
theorem timely_of_replies (waiter : ι) (operation : Operation α) (value : operation.Reply)
    (hoperation : operation ≠ .notifyOne) {next : operation.Reply → QueueProgram α Unit}
    (hreplies : Replies thread operation state value after) :
    (machine calls).StepsUnder (fun config thread ↦ ¬Late waiter config thread)
      ⟨state, Function.update threads thread (some (@Program.act (signature α) _ operation next))⟩
      ⟨after, Function.update threads thread (some (next value))⟩ := by
  refine timely_of_stepOf waiter (stepOf_of_replies operation value hreplies) fun rest hrest ↦ ?_
  have hat : Function.update threads thread (some (@Program.act (signature α) _ operation next))
      thread = some (@Program.act (signature α) _ operation next) := Function.update_self ..
  cases hat.symm.trans hrest
  exact hoperation rfl

/-- A thread that is not disturbed learns from `empty` whether the queue is empty. -/
theorem empty_steps (waiter : ι) (hfree : state.owner .queue = none)
    {next : Bool → QueueProgram α Unit} :
    (machine calls).StepsUnder (fun config thread ↦ ¬Late waiter config thread)
      ⟨state, Function.update threads thread (some (empty >>= next))⟩
      ⟨state, Function.update threads thread (some (next state.deqQueue.isEmpty))⟩ := by
  have hlocked : Replies thread (.lock .queue) state () (state.own .queue (some thread)) :=
    ⟨hfree, rfl⟩
  have hseen : Replies thread (.deque .empty) (state.own .queue (some thread))
      state.deqQueue.isEmpty (state.own .queue (some thread)) := ⟨state.deqQueue, rfl, rfl⟩
  have hunlocked : Replies thread (.unlock .queue) (state.own .queue (some thread)) () state :=
    ⟨own_owner_self .., (own_own_none hfree _).symm⟩
  have hlock := @timely_of_replies ι α _ thread _ _ calls threads waiter (.lock .queue) () nofun
    (fun _ ↦ deque .empty >>= fun isEmpty ↦ unlock .queue >>= fun _ ↦ next isEmpty) hlocked
  have hsee := @timely_of_replies ι α _ thread _ _ calls threads waiter (.deque .empty) _ nofun
    (fun isEmpty ↦ unlock .queue >>= fun _ ↦ next isEmpty) hseen
  have hunlock := @timely_of_replies ι α _ thread _ _ calls threads waiter (.unlock .queue) () nofun
    (fun _ ↦ next state.deqQueue.isEmpty) hunlocked
  exact (hlock.trans hsee).trans hunlock

/-- A thread that is not disturbed begins to wait and finds the queue empty. -/
theorem findEmpty_steps (waiter : ι) (hcall : calls thread .wait)
    (hfree : state.owner .queue = none) (hempty : state.deqQueue = [])
    (hidle : threads thread = none) :
    (machine calls).StepsUnder (fun config thread ↦ ¬Late waiter config thread) ⟨state, threads⟩
      ⟨state, Function.update threads thread (some do
        scopedLock .blocking waitBlocking
        callWait)⟩ := by
  have henter : (machine calls).StepOf thread ⟨state, threads⟩
      ⟨state, Function.update threads thread (some callWait)⟩ := by
    simp only [Machine.StepOf, hidle]
    exact ⟨callWait, ⟨⟨.wait, hcall, rfl⟩, rfl⟩, rfl⟩
  have hat : Function.update threads thread (some callWait) thread =
      some (@Program.call (signature α) _ .wait (pure ())) := Function.update_self ..
  have hbody : (machine calls).StepOf thread
      ⟨state, Function.update threads thread (some callWait)⟩
      ⟨state, Function.update threads thread (some (wait >>= fun _ ↦ pure ()))⟩ := by
    simp only [Machine.StepOf, hat, Function.update_idem]
    exact ⟨rfl, rfl⟩
  have hentered := timely_of_stepOf waiter henter fun _ hnotifies ↦ by
    cases hidle.symm.trans hnotifies
  have hcalled := timely_of_stepOf waiter hbody fun _ hnotifies ↦ by
    cases hat.symm.trans hnotifies
  have hsees := @empty_steps ι α _ thread state calls threads waiter hfree
    (fun isEmpty ↦ (if isEmpty then (scopedLock .blocking waitBlocking >>= fun _ ↦ callWait)
      else pure ()) >>= fun _ ↦ pure ())
  rw [hempty] at hsees
  exact (hentered.trans hcalled).trans hsees

/-- A thread that is not disturbed parks. -/
theorem park_steps (waiter : ι) (hfree : state.owner .blocking = none)
    (hawake : state.sleep thread = .awake) :
    (machine calls).StepsUnder (fun config thread ↦ ¬Late waiter config thread)
      ⟨state, Function.update threads thread (some do
        scopedLock .blocking waitBlocking
        callWait)⟩
      ⟨state.setSleep thread .parked, Function.update threads thread (some do
        waitBlocking
        unlock .blocking
        callWait)⟩ := by
  have hlocked : Replies thread (.lock .blocking) state () (state.own .blocking (some thread)) :=
    ⟨hfree, rfl⟩
  have hlock := @timely_of_replies ι α _ thread _ _ calls threads waiter (.lock .blocking) () nofun
    (fun _ ↦ waitBlocking >>= fun _ ↦ unlock .blocking >>= fun _ ↦ callWait) hlocked
  have hat : Function.update threads thread (some do
      waitBlocking
      unlock .blocking
      callWait) thread = some (@Program.act (signature α) _ .wait fun _ ↦ do
        unlock .blocking
        callWait) := Function.update_self ..
  have hparks : (machine calls).StepOf thread
      ⟨state.own .blocking (some thread), Function.update threads thread (some do
        waitBlocking
        unlock .blocking
        callWait)⟩
      ⟨state.setSleep thread .parked, Function.update threads thread (some do
        waitBlocking
        unlock .blocking
        callWait)⟩ := by
    simp only [Machine.StepOf, hat]
    exact .inl ⟨.inl ⟨hawake, own_owner_self .., by rw [own_own_none hfree]⟩, trivial⟩
  exact hlock.trans (timely_of_stepOf waiter hparks fun _ hnotifies ↦ by
    cases hat.symm.trans hnotifies)

/-- What a push has still to do when its item is in the queue and it holds both mutexes. -/
def notifying : QueueProgram α Unit := do
  notifyOne
  unlock .blocking
  unlock .queue

/-- A push that is not disturbed puts its item into the queue and comes to its notification. -/
theorem emplace_steps (waiter : ι) {item : α} (hcall : calls thread (.pushBack item))
    (hfree : ∀ mutex, state.owner mutex = none) (hidle : threads thread = none) :
    (machine calls).StepsUnder (fun config thread ↦ ¬Late waiter config thread) ⟨state, threads⟩
      ⟨((state.setItems (state.deqQueue ++ [item])).own .queue (some thread)).own .blocking
          (some thread),
        Function.update threads thread (some notifying)⟩ := by
  let held := (state.setItems (state.deqQueue ++ [item])).own .queue (some thread)
  have henter : (machine calls).StepOf thread ⟨state, threads⟩
      ⟨state, Function.update threads thread (some (pushBack item))⟩ := by
    simp only [Machine.StepOf, hidle]
    exact ⟨pushBack item, ⟨⟨.pushBack item, hcall, rfl⟩, rfl⟩, rfl⟩
  have hlocked : Replies thread (.lock .queue) state () (state.own .queue (some thread)) :=
    ⟨hfree .queue, rfl⟩
  have hemplaced : Replies thread (.deque (.emplaceBack item)) (state.own .queue (some thread)) ()
      held := ⟨_, rfl, rfl⟩
  have hblocked : Replies thread (.lock .blocking : Operation α) held ()
      (held.own .blocking (some thread)) := ⟨hfree .blocking, rfl⟩
  have hentered := timely_of_stepOf waiter henter fun _ hnotifies ↦ by
    cases hidle.symm.trans hnotifies
  have hlock := @timely_of_replies ι α _ thread _ _ calls threads waiter (.lock .queue) ()
    (by simp) (fun _ ↦ do
      deque (.emplaceBack item)
      lock .blocking
      notifying) hlocked
  have hemplace := @timely_of_replies ι α _ thread _ _ calls threads waiter
    (.deque (.emplaceBack item)) () (by simp) (fun _ ↦ do
      lock .blocking
      notifying) hemplaced
  have hblock := @timely_of_replies ι α _ thread _ _ calls threads waiter (.lock .blocking) ()
    (by simp) (fun _ ↦ notifying) hblocked
  exact ((hentered.trans hlock).trans hemplace).trans hblock

/-- A push notifies, and has its locks left to give up. -/
theorem notify_stepOf (hnotified : Replies thread (.notifyOne : Operation α) state () after) :
    (machine calls).StepOf thread ⟨state, Function.update threads thread (some notifying)⟩
      ⟨after, Function.update threads thread (some do
        unlock .blocking
        unlock .queue)⟩ :=
  stepOf_of_replies .notifyOne () hnotified

/-- A push that has notified and is not disturbed gives both mutexes up and returns. -/
theorem release_steps (waiter : ι) (hfree : ∀ mutex, state.owner mutex = none)
    (hidle : threads thread = none) :
    (machine calls).StepsUnder (fun config thread ↦ ¬Late waiter config thread)
      ⟨(state.own .queue (some thread)).own .blocking (some thread),
        Function.update threads thread (some do
          unlock .blocking
          unlock .queue)⟩
      ⟨state, threads⟩ := by
  let held := state.own .queue (some thread)
  have hunblocked : Replies thread (.unlock .blocking : Operation α)
      (held.own .blocking (some thread)) () held :=
    ⟨own_owner_self .., (@own_own_none ι α .blocking held (hfree .blocking) _).symm⟩
  have hunlocked : Replies thread (.unlock .queue : Operation α) held () state :=
    ⟨own_owner_self .., (own_own_none (hfree .queue) _).symm⟩
  have hunblock := @timely_of_replies ι α _ thread _ _ calls threads waiter (.unlock .blocking) ()
    (by simp) (fun _ ↦ unlock .queue) hunblocked
  have hunlock := @timely_of_replies ι α _ thread _ _ calls threads waiter (.unlock .queue) ()
    (by simp) (fun _ ↦ pure ()) hunlocked
  have hat : Function.update threads thread (some (pure ())) thread =
      some (Program.done ()) := Function.update_self ..
  have hleave : (machine calls).StepOf thread
      ⟨state, Function.update threads thread (some (pure ()))⟩ ⟨state, threads⟩ := by
    simp only [Machine.StepOf, hat, Function.update_idem]
    rw [← hidle, Function.update_eq_self]
    exact ⟨trivial, rfl⟩
  have hleft := timely_of_stepOf waiter hleave fun _ hnotifies ↦ by
    cases hat.symm.trans hnotifies
  exact (hunblock.trans hunlock).trans hleft

/-- A push that is not disturbed puts its item into the queue and, with nobody parked, wakes
nobody. -/
theorem push_steps {item : α} (hcall : calls thread (.pushBack item))
    (hfree : ∀ mutex, state.owner mutex = none) (hnone : ∀ other, state.sleep other ≠ .parked)
    (hidle : threads thread = none) :
    (machine calls).Steps ⟨state, threads⟩
      ⟨state.setItems (state.deqQueue ++ [item]), threads⟩ := by
  let held := ((state.setItems (state.deqQueue ++ [item])).own .queue (some thread)).own .blocking
    (some thread)
  have hnotified : Replies thread (.notifyOne : Operation α) held () held := .inr ⟨hnone, rfl⟩
  have hemplace := emplace_steps thread hcall hfree hidle
  have hrelease := @release_steps ι α _ thread (state.setItems (state.deqQueue ++ [item])) calls
    threads thread hfree hidle
  exact (hemplace.steps.tail (notify_stepOf hnotified).step).trans hrelease.steps

/-- A push that is not disturbed while the waiter is parked wakes it, in time. -/
theorem wake_steps {waiter : ι} {item : α} (hcall : calls thread (.pushBack item))
    (hfree : ∀ mutex, state.owner mutex = none) (hidle : threads thread = none)
    (hparked : state.sleep waiter = .parked) {next : Unit → QueueProgram α Unit}
    (hwaits : threads waiter = some (@Program.act (signature α) _ .wait next)) :
    (machine calls).StepsUnder (fun config thread ↦ ¬Late waiter config thread) ⟨state, threads⟩
      ⟨(state.setItems (state.deqQueue ++ [item])).setSleep waiter .woken, threads⟩ := by
  have hother : waiter ≠ thread := by
    rintro rfl
    cases hidle.symm.trans hwaits
  let held := ((state.setItems (state.deqQueue ++ [item])).own .queue (some thread)).own .blocking
    (some thread)
  have hnotified : Replies thread (.notifyOne : Operation α) held ()
      (held.setSleep waiter .woken) := .inl ⟨waiter, hparked, rfl⟩
  have hemplace := emplace_steps waiter hcall hfree hidle
  have hrelease := @release_steps ι α _ thread
    ((state.setItems (state.deqQueue ++ [item])).setSleep waiter .woken) calls threads waiter hfree
    hidle
  refine (hemplace.tail ⟨thread, fun ⟨_, _, hlocks⟩ ↦ ?_, notify_stepOf hnotified⟩).trans hrelease
  cases (hwaits.symm.trans (Function.update_of_ne hother _ _).symm).trans hlocks

end Runs

/-- The waiter is parked. -/
def parkedWaiter (items : List ℕ) : Config (signature ℕ) ℕ (Shared ℕ ℕ) where
  state := (started items).setSleep 0 .parked
  threads := Function.update (fun _ ↦ none) 0 (some do
    waitBlocking
    unlock .blocking
    callWait)

/-- The waiter has been parked and woken, and the queue has an item. -/
def wokenWaiter : Config (signature ℕ) ℕ (Shared ℕ ℕ) where
  state := (parkedWaiter [7]).state.setSleep 0 .woken
  threads := (parkedWaiter [7]).threads

/-- A push that notifies when the waiter is parked wakes it, and the waiter is not stranded beside
the item. -/
theorem not_stranded_of_timely_push :
    (machine (oneWaiter 0)).StepsUnder (fun config thread ↦ ¬Late 0 config thread)
        ⟨started [], fun _ ↦ none⟩ (parkedWaiter []) ∧
      (machine (oneWaiter 0)).StepsUnder (fun config thread ↦ ¬Late 0 config thread)
        (parkedWaiter []) wokenWaiter ∧
      wokenWaiter.state.deqQueue = [7] ∧ ¬Stranded 0 wokenWaiter := by
  have hwait : oneWaiter 0 0 (.wait : Call ℕ) := rfl
  have hpush : oneWaiter 0 1 (.pushBack 7) := Nat.one_ne_zero
  have hfinds := @findEmpty_steps ℕ ℕ _ 0 (started []) (oneWaiter 0) (fun _ ↦ none) 0 hwait rfl rfl
    rfl
  have hparks := hfinds.trans (park_steps 0 rfl rfl)
  have hwakes := @wake_steps ℕ ℕ _ 1 (parkedWaiter []).state (oneWaiter 0)
    (parkedWaiter []).threads 0 7 hpush (fun _ ↦ rfl) rfl rfl _ rfl
  exact ⟨hparks, hwakes, rfl, not_stranded_of_timely (hparks.trans hwakes)⟩

/-- A push that falls between the waiter's look at the queue and its park wakes nobody, and the
waiter is parked beside the item. -/
theorem stranded_of_late :
    (machine (oneWaiter 0)).Reachable (started []) (parkedWaiter [7]) ∧
      Stranded 0 (parkedWaiter [7]) := by
  have hwait : oneWaiter 0 0 (.wait : Call ℕ) := rfl
  have hpush : oneWaiter 0 1 (.pushBack 7) := Nat.one_ne_zero
  constructor
  · have hfinds := @findEmpty_steps ℕ ℕ _ 0 (started []) (oneWaiter 0) (fun _ ↦ none) 0 hwait rfl
      rfl rfl
    refine (hfinds.steps.trans ?_).trans (park_steps 0 rfl rfl).steps
    exact push_steps hpush (fun _ ↦ rfl) (fun _ ↦ nofun) rfl
  · refine ⟨rfl, nofun, fun other hother ↦ ?_⟩
    simp [parkedWaiter, hother]

end KoboldKhat.Tsqueue
