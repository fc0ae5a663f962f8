import KoboldKhat.Tsqueue.Linearization

/-!
# Items through the queue

What the queue is for: items go in by pushes and come out by pops. Whatever the threads do, except
to clear the queue, once all calls have returned the items pushed are those popped and those still
in the deque, each as often as it was (`conserved`). If the queue is used as the client uses it, by
one thread that pushes at the back and one that pops at the front, the items come out in the order
in which they went in, at every moment and without a gap (`firstInFirstOut`).

Both are read off an order in which the calls could have been made one at a time. A pop or a look at
an end that comes to an empty deque is undefined, and no history has it returned.
-/

set_option autoImplicit false
set_option relaxedAutoImplicit false

namespace KoboldKhat.Tsqueue

open Library

variable {ι α : Type}

/-! ### Items of calls -/

/-- The item that a call puts into the queue. -/
def Call.pushed : Call α → List α
  | pushBack item => [item]
  | pushFront item => [item]
  | _ => []

/-- The item that a call took out of the queue. -/
def popped : (call : Call α) × call.Result → List α
  | ⟨.popFront, item⟩ => [item]
  | ⟨.popBack, item⟩ => [item]
  | _ => []

/-- The items pushed in a history, by calls that may not have returned yet. -/
def itemsPushed (history : List (Visible ι (Call α) Call.Result)) : List α :=
  (invocations history).flatMap fun made ↦ made.2.pushed

/-- The items that pops have returned in a history. -/
def itemsPopped (history : List (Visible ι (Call α) Call.Result)) : List α :=
  (completions history).flatMap fun performed ↦ popped performed.2

/-- The call adds items at the back only and takes them from the front only. -/
def Call.IsFifo : Call α → Prop
  | pushFront _ => False
  | popBack => False
  | clear => False
  | _ => True

/-- What returns only when there is an item leaves the items. -/
theorem unchanged_of_effect {items left : List α} {result : Unit}
    (heffect : (if items.isEmpty then none else some ((), items)) = some (result, left)) :
    items ++ [] = left := by
  split_ifs at heffect
  obtain ⟨-, rfl⟩ := Prod.mk.inj (Option.some.inj heffect)
  exact List.append_nil items

/-- A call that uses the ends as a queue does adds at the back and takes from the front. -/
theorem effect_fifo {call : Call α} {items left : List α} {result : call.Result}
    (hfifo : call.IsFifo) (heffect : call.effect items = some (result, left)) :
    items ++ call.pushed = popped ⟨call, result⟩ ++ left := by
  cases call with
  | popFront =>
    obtain ⟨item, hfirst, hpair⟩ := Option.map_eq_some_iff.mp heffect
    obtain ⟨rfl, rfl⟩ := Prod.mk.inj hpair
    obtain ⟨rest, rfl⟩ := List.head?_eq_some_iff.mp hfirst
    exact List.append_nil (item :: rest)
  | pushBack item =>
    obtain ⟨rfl, rfl⟩ := Prod.mk.inj (Option.some.inj heffect)
    rfl
  | empty =>
    obtain ⟨rfl, rfl⟩ := Prod.mk.inj (Option.some.inj heffect)
    exact List.append_nil items
  | front => exact unchanged_of_effect heffect
  | back => exact unchanged_of_effect heffect
  | wait => exact unchanged_of_effect heffect
  | _ => exact hfifo.elim

/-- The last item and the others are all items. -/
theorem perm_of_last {items : List α} {item : α} (hlast : items.getLast? = some item) :
    items.Perm (item :: items.dropLast) := by
  obtain ⟨rest, rfl⟩ := List.getLast?_eq_some_iff.mp hlast
  rw [List.dropLast_concat]
  exact List.perm_append_comm

/-- A call other than `clear` leaves the items that were there and the one it pushes, without the
one it pops. -/
theorem effect_perm {call : Call α} {items left : List α} {result : call.Result}
    (hclear : call ≠ .clear) (heffect : call.effect items = some (result, left)) :
    (items ++ call.pushed).Perm (popped ⟨call, result⟩ ++ left) := by
  cases call with
  | clear => exact absurd rfl hclear
  | pushFront item =>
    obtain ⟨rfl, rfl⟩ := Prod.mk.inj (Option.some.inj heffect)
    exact List.perm_append_comm
  | popBack =>
    obtain ⟨item, hlast, hpair⟩ := Option.map_eq_some_iff.mp heffect
    obtain ⟨rfl, rfl⟩ := Prod.mk.inj hpair
    show (items ++ []).Perm (item :: items.dropLast)
    rw [List.append_nil]
    exact perm_of_last hlast
  | _ => exact .of_eq (effect_fifo trivial heffect)

/-! ### Items of orders -/

section Orders

variable {items last : List α} {order : List (Performed ι (Call α) Call.Result)}

/-- Calls that are made one at a time, none of them `clear`, keep every item. -/
theorem perm_of_legal (hlegal : (sequential α).Legal items order last)
    (hclear : ∀ performed ∈ order, performed.2.1 ≠ .clear) :
    (items ++ order.flatMap fun performed ↦ performed.2.1.pushed).Perm
      ((order.flatMap fun performed ↦ popped performed.2) ++ last) := by
  induction hlegal with
  | nil => exact .of_eq (List.append_nil items)
  | @snoc order middle last thread call result earlier effect ih =>
    obtain ⟨hearlier, hcall⟩ := List.forall_mem_append.mp hclear
    rw [List.flatMap_append, List.flatMap_append, List.flatMap_singleton, List.flatMap_singleton,
      ← List.append_assoc, List.append_assoc _ _ last]
    have hmiddle := (ih hearlier).append_right call.pushed
    rw [List.append_assoc _ middle] at hmiddle
    exact hmiddle.trans
      ((effect_perm (hcall _ List.mem_cons_self) effect).append_left _)

/-- Calls that are made one at a time and use the ends as a queue does keep the order of the
items. -/
theorem fifo_of_legal (hlegal : (sequential α).Legal items order last)
    (hfifo : ∀ performed ∈ order, performed.2.1.IsFifo) :
    (items ++ order.flatMap fun performed ↦ performed.2.1.pushed) =
      (order.flatMap fun performed ↦ popped performed.2) ++ last := by
  induction hlegal with
  | nil => exact List.append_nil items
  | @snoc order middle last thread call result earlier effect ih =>
    obtain ⟨hearlier, hcall⟩ := List.forall_mem_append.mp hfifo
    rw [List.flatMap_append, List.flatMap_append, List.flatMap_singleton, List.flatMap_singleton,
      ← List.append_assoc, ih hearlier, List.append_assoc, List.append_assoc,
      effect_fifo (hcall _ List.mem_cons_self) effect]

end Orders

/-! ### Items of histories -/

section Histories

variable [DecidableEq ι] {items : List α} {history : List (Visible ι (Call α) Call.Result)}
  {config : Implementation.Config (signature α) ι (Shared ι α) (Call α) Call.Result}
  {producer consumer : ι}

/-- When no thread is in a call, all calls have returned. -/
theorem returned_of_idle (hshows : (tsqueue ι α).Shows (started items) history config)
    (hidle : ∀ thread, config.threads thread = none) (thread : ι) :
    part thread (invocations history) = (part thread (completions history)).map Sigma.fst := by
  rw [hshows.invoked thread, hidle thread]
  exact List.append_nil _

/-- The calls that returned and the calls made are the same when all have returned. -/
theorem invocations_perm (hreturned : ∀ thread, part thread (invocations history) =
    (part thread (completions history)).map Sigma.fst) :
    (invocations history).Perm
      ((completions history).map fun performed ↦ (performed.1, performed.2.1)) :=
  perm_of_part fun thread ↦ (hreturned thread).trans (part_map Sigma.fst _).symm

/-- Whatever pushes and pops any number of threads make, however their steps interleave, if none
clears the queue: when no thread is in a call, the items that were there and those pushed are the
items popped and those in the deque, each as often. The front, the back and a pop of an empty deque
are undefined and excluded: a thread that comes to one of them stays there. -/
theorem conserved (hshows : (tsqueue ι α).Shows (started items) history config)
    (hclear : ∀ thread, (thread, .clear) ∉ invocations history)
    (hidle : ∀ thread, config.threads thread = none) :
    (items ++ itemsPushed history).Perm (itemsPopped history ++ config.state.deqQueue) := by
  obtain ⟨order, hlinearization⟩ := exists_linearization hshows
  have hreturned := returned_of_idle hshows hidle
  have hlegal := perm_of_legal hlinearization.legal fun performed hperformed hcall ↦
    hclear performed.1 (hcall ▸ hlinearization.covers.mem hperformed)
  have horder := hlinearization.covers.perm hreturned
  have hpushed : (itemsPushed history).Perm
      (order.flatMap fun performed ↦ performed.2.1.pushed) := by
    refine ((invocations_perm hreturned).flatMap_right _).trans ?_
    rw [List.flatMap_map]
    exact horder.symm.flatMap_right _
  exact (hpushed.append_left items).trans
    (hlegal.trans ((horder.flatMap_right _).append_right _))

/-- A history in which the queue leads from one thread to another: only the one pushes, at the back,
only the other pops, from the front, and nobody clears. -/
structure Channel (producer consumer : ι) (history : List (Visible ι (Call α) Call.Result)) :
    Prop where
  fifo : ∀ thread call, (thread, call) ∈ invocations history → call.IsFifo
  pushes : ∀ thread item, (thread, .pushBack item) ∈ invocations history → thread = producer
  pops : ∀ thread, (thread, .popFront) ∈ invocations history → thread = consumer

omit [DecidableEq ι] in
/-- Nobody but the producer pushes. -/
theorem Channel.pushed_eq_nil (hchannel : Channel producer consumer history) {made : ι × Call α}
    (hmade : made ∈ invocations history) (hother : made.1 ≠ producer) : made.2.pushed = [] := by
  obtain ⟨thread, call⟩ := made
  cases call with
  | pushBack item => exact absurd (hchannel.pushes thread item hmade) hother
  | pushFront item => exact (hchannel.fifo thread _ hmade).elim
  | _ => rfl

omit [DecidableEq ι] in
/-- Nobody but the consumer pops. -/
theorem Channel.popped_eq_nil (hchannel : Channel producer consumer history)
    {performed : Performed ι (Call α) Call.Result}
    (hmade : (performed.1, performed.2.1) ∈ invocations history) (hother : performed.1 ≠ consumer) :
    popped performed.2 = [] := by
  obtain ⟨thread, call, result⟩ := performed
  cases call with
  | popFront => exact absurd (hchannel.pops thread hmade) hother
  | popBack => exact (hchannel.fifo thread _ hmade).elim
  | _ => rfl

/-- The pushes of the producer and the pops of the consumer, in an order of the calls, keep the
order of the items. -/
theorem Channel.eq_of_linearization (hchannel : Channel producer consumer history)
    {order : List (Performed ι (Call α) Call.Result)} {last : List α}
    (hlinearization : Linearization (sequential α) items history order last) :
    items ++ ((part producer order).map Sigma.fst).flatMap Call.pushed =
      (part consumer order).flatMap popped ++ last := by
  have hmade : ∀ performed ∈ order, (performed.1, performed.2.1) ∈ invocations history :=
    fun performed hperformed ↦ hlinearization.covers.mem hperformed
  have hpushed : (order.flatMap fun performed ↦ performed.2.1.pushed) =
      (part producer order).flatMap fun performed ↦ performed.1.pushed :=
    flatMap_eq_part (fun performed ↦ performed.1.pushed) fun performed hperformed hother ↦
      hchannel.pushed_eq_nil (hmade performed hperformed) hother
  have hpopped : (order.flatMap fun performed ↦ popped performed.2) =
      (part consumer order).flatMap popped :=
    flatMap_eq_part popped fun performed hperformed hother ↦
      hchannel.popped_eq_nil (hmade performed hperformed) hother
  rw [List.flatMap_map, ← hpushed, ← hpopped]
  exact fifo_of_legal hlinearization.legal fun performed hperformed ↦
    hchannel.fifo _ _ (hmade performed hperformed)

/-- If the queue leads from one thread to another, at every moment the items popped are the first
of those that were there and those pushed, in this order. When no thread is in a call, the deque
holds the rest. The front, the back and a pop of an empty deque are undefined and excluded: a thread
that comes to one of them stays there. -/
theorem firstInFirstOut (hshows : (tsqueue ι α).Shows (started items) history config)
    (hchannel : Channel producer consumer history) :
    itemsPopped history <+: items ++ itemsPushed history ∧
      ((∀ thread, config.threads thread = none) →
        items ++ itemsPushed history = itemsPopped history ++ config.state.deqQueue) := by
  obtain ⟨order, hlinearization⟩ := exists_linearization hshows
  have hcovers := hlinearization.covers
  have hitems := hchannel.eq_of_linearization hlinearization
  have hpopped : itemsPopped history = (part consumer (completions history)).flatMap popped :=
    flatMap_eq_part popped fun performed hperformed hother ↦
      hchannel.popped_eq_nil (hcovers.mem (hcovers.completed_mem hperformed)) hother
  have hpushed : itemsPushed history = (part producer (invocations history)).flatMap Call.pushed :=
    flatMap_eq_part Call.pushed fun made hmade hother ↦ hchannel.pushed_eq_nil hmade hother
  rw [hpopped, hpushed]
  refine ⟨?_, fun hidle ↦ ?_⟩
  · obtain ⟨later, hlater⟩ := (hcovers consumer).1
    obtain ⟨more, hmore⟩ := (hcovers producer).2
    rw [← hlater, List.flatMap_append] at hitems
    rw [← hmore, List.flatMap_append, ← List.append_assoc, hitems]
    exact ⟨_, by rw [List.append_assoc, List.append_assoc]⟩
  · have hreturned := returned_of_idle hshows hidle
    rw [hcovers.part_eq (hreturned consumer), hcovers.part_eq (hreturned producer)] at hitems
    rw [hreturned producer]
    exact hitems

end Histories

/-- What is seen when a thread is about to pop while another pushes an item. -/
def handover : List (Visible ℕ (Call ℕ) Call.Result) :=
  [.invoke 1 .popFront, .invoke 0 (.pushBack 7), .respond 0 (.pushBack 7) (),
    .respond 1 .popFront (7 : ℕ)]

/-- It gets the item. -/
theorem shows_handover :
    ∃ config : Implementation.Config (signature ℕ) ℕ (Shared ℕ ℕ) (Call ℕ) Call.Result,
      (tsqueue ℕ ℕ).Shows (started []) handover config ∧
        ∀ thread, config.threads thread = none := by
  have hstart : (tsqueue ℕ ℕ).Shows (started []) [] ⟨started [], fun _ ↦ none⟩ := .nil
  have hmade := (hstart.invoke 1 .popFront rfl).invoke 0 (.pushBack 7) rfl
  have hpushed := (hmade.reply () ⟨rfl, rfl⟩).reply () ⟨[7], rfl, rfl⟩
  have hnotified := (hpushed.reply () ⟨rfl, rfl⟩).reply () (.inr ⟨nofun, rfl⟩)
  have hreturned := ((hnotified.reply () ⟨rfl, rfl⟩).reply () ⟨rfl, rfl⟩).respond
  rw [Function.update_comm (by decide)] at hreturned
  have hlooked := (hreturned.reply () ⟨rfl, rfl⟩).reply (7 : ℕ) ⟨[7], rfl, rfl⟩
  have hpopped := ((hlooked.reply () ⟨[], rfl, rfl⟩).reply () ⟨rfl, rfl⟩).respond
  exact ⟨_, hpopped, fun thread ↦ by simp [Function.update_apply]⟩

/-- Nothing is lost on the way. -/
theorem conserved_handover :
    ∃ config : Implementation.Config (signature ℕ) ℕ (Shared ℕ ℕ) (Call ℕ) Call.Result,
      (tsqueue ℕ ℕ).Shows (started []) handover config ∧
        (∀ thread, config.threads thread = none) ∧
        ([] ++ itemsPushed handover).Perm (itemsPopped handover ++ config.state.deqQueue) := by
  obtain ⟨config, hshows, hidle⟩ := shows_handover
  have hclear : ∀ thread, (thread, .clear) ∉ invocations handover := by
    simp [handover, invocations, Visible.invocation]
  exact ⟨config, hshows, hidle, conserved hshows hclear hidle⟩

/-- The first thread is the producer, and the other one the consumer. -/
theorem firstInFirstOut_handover :
    ∃ config : Implementation.Config (signature ℕ) ℕ (Shared ℕ ℕ) (Call ℕ) Call.Result,
      (tsqueue ℕ ℕ).Shows (started []) handover config ∧ Channel 0 1 handover ∧
        (∀ thread, config.threads thread = none) ∧
        itemsPopped handover <+: [] ++ itemsPushed handover ∧
        ((∀ thread, config.threads thread = none) →
          [] ++ itemsPushed handover = itemsPopped handover ++ config.state.deqQueue) := by
  obtain ⟨config, hshows, hidle⟩ := shows_handover
  have hchannel : Channel 0 1 handover := by
    constructor
    · intro thread call hmade
      obtain ⟨-, rfl⟩ | ⟨-, rfl⟩ :
          thread = 1 ∧ call = .popFront ∨ thread = 0 ∧ call = .pushBack 7 := by
        simpa [handover, invocations, Visible.invocation] using hmade
      · trivial
      · trivial
    · simp [handover, invocations, Visible.invocation]
    · simp [handover, invocations, Visible.invocation]
  exact ⟨config, hshows, hchannel, hidle, firstInFirstOut hshows hchannel⟩

end KoboldKhat.Tsqueue
