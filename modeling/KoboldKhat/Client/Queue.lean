import KoboldKhat.Client.Receiving

/-!
# The queue between the two threads

The reader looks at the size of the queue and then pushes; the window asks whether the queue is
empty and then pops. Each of these is two steps, and the other thread may make any number of its own
between them. As the reader is the only one to push and the window the only one to pop, what a
thread has seen stays true in the direction it needs: the queue does not grow under the reader and
does not shrink under the window (`State.Orderly`, kept by every step, `step_orderly`).

`Checked` is a run with its steps and the record of the looks at the size: what was in the reader's
hands, and how long the queue was. Every run has one (`run_iff_checked`).
-/

set_option autoImplicit false
set_option relaxedAutoImplicit false

namespace KoboldKhat.Client

/-- The look at the size of the queue that a step is: what the reader has in its hands, and the
length of the queue. -/
def Event.look (state : State) : Event → List (Bytes × ℕ)
  | checkSize =>
    match state.reader with
    | .checking message => [(message, state.queue.length)]
    | _ => []
  | _ => []

/-- The chunk that a step delivers to the reader. -/
def Event.delivers : Event → List Bytes
  | readSome (.data message) => [message]
  | _ => []

/-- The chunks that have been delivered to the reader, in their order. -/
def delivered (events : List Event) : List Bytes :=
  events.flatMap Event.delivers

/-- The states a client goes through, with its steps and the looks at the size of the queue on the
way. -/
inductive Checked (dump : Json → Option Bytes) :
    State → List Event → List (Bytes × ℕ) → State → Prop
  | nil (state : State) : Checked dump state [] [] state
  | snoc {first middle last : State} {events : List Event} {looks : List (Bytes × ℕ)}
      (event : Event) (run : Checked dump first events looks middle)
      (steps : step dump middle event = some last) :
      Checked dump first (events ++ [event]) (looks ++ event.look middle) last

/-- A client when its reader thread starts: no chunk has been read. -/
def started (username : Bytes) (connected : Bool) (outgoing : Bytes) : State :=
  { username, connected, outgoing }

/-- The message the reader has read and not yet looked at the size of the queue for. -/
def State.unchecked (state : State) : List Bytes :=
  match state.reader with
  | .checking message => [message]
  | _ => []

/-- The message the reader is about to push. -/
def State.unpushed (state : State) : List Bytes :=
  match state.reader with
  | .pushing message => [message]
  | _ => []

/-- The messages for which the queue was within its limit. -/
def admitted (looks : List (Bytes × ℕ)) : List Bytes :=
  (looks.filter fun look ↦ look.2 ≤ queueLimit).map Prod.fst

/-- A look at a queue within its limit admits the message. -/
theorem admitted_append_of_room (looks : List (Bytes × ℕ)) (message : Bytes) {size : ℕ}
    (hroom : size ≤ queueLimit) :
    admitted (looks ++ [(message, size)]) = admitted looks ++ [message] := by
  simp [admitted, hroom]

/-- A look at a queue over its limit admits nothing. -/
theorem admitted_append_of_full (looks : List (Bytes × ℕ)) (message : Bytes) {size : ℕ}
    (hfull : queueLimit < size) : admitted (looks ++ [(message, size)]) = admitted looks := by
  simp [admitted, hfull]

/-- What holds between the queue, the two threads and the looks at the size so far. -/
structure State.Orderly (looks : List (Bytes × ℕ)) (state : State) : Prop where
  nonempty : state.window = .popping → state.queue ≠ []
  room : ∀ message, state.reader = .pushing message → state.queue.length ≤ queueLimit
  bounded : state.queue.length ≤ queueLimit + 1
  looked : looks.map Prod.fst ++ state.unchecked = state.received
  kept : state.pushed ++ state.unpushed = admitted looks
  drained : state.messages ++ state.queue = state.pushed

section Steps

variable {dump : Json → Option Bytes} {state after first last : State} {event : Event}
  {events : List Event} {looks : List (Bytes × ℕ)}

/-- The same holds after a step that changes nothing of it but the window, and that takes the window
to a pop only when the queue is not empty. -/
theorem State.Orderly.of_eq (horderly : state.Orderly looks) (hreader : after.reader = state.reader)
    (hqueue : after.queue = state.queue) (hmessages : after.messages = state.messages)
    (hreceived : after.received = state.received) (hpushed : after.pushed = state.pushed)
    (hwindow : after.window = .popping → state.queue ≠ []) : after.Orderly looks := by
  constructor
  · rw [hqueue]
    exact hwindow
  · rw [hreader, hqueue]
    exact horderly.room
  · rw [hqueue]
    exact horderly.bounded
  · unfold State.unchecked
    rw [hreader, hreceived]
    exact horderly.looked
  · unfold State.unpushed
    rw [hreader, hpushed]
    exact horderly.kept
  · rw [hmessages, hqueue, hpushed]
    exact horderly.drained

/-- A reader with nothing in its hands calls `read_some`. -/
theorem State.Orderly.await (horderly : state.Orderly looks) (hlooping : state.reader = .looping) :
    { state with reader := .reading }.Orderly looks := by
  have hlooked := horderly.looked
  have hkept := horderly.kept
  simp only [State.unchecked, State.unpushed, hlooping] at hlooked hkept
  exact ⟨horderly.nonempty, nofun, horderly.bounded, hlooked, hkept, horderly.drained⟩

/-- A reader with nothing in its hands ends. -/
theorem State.Orderly.finish (horderly : state.Orderly looks)
    (hfree : state.reader = .looping ∨ state.reader = .reading) (connected : Bool) :
    { state with reader := .finished, connected }.Orderly looks := by
  have hlooked := horderly.looked
  have hkept := horderly.kept
  rcases hfree with hreader | hreader <;>
    simp only [State.unchecked, State.unpushed, hreader] at hlooked hkept <;>
    exact ⟨horderly.nonempty, nofun, horderly.bounded, hlooked, hkept, horderly.drained⟩

/-- Sending leaves both threads and the queue alone. -/
theorem sendMessage_orderly (horderly : state.Orderly looks) (answer : WriteAnswer)
    (message : Bytes) : (sendMessage dump answer message state).Orderly looks := by
  unfold sendMessage
  split_ifs
  · cases dump (envelope state.username message) with
    | none => exact horderly.of_eq rfl rfl rfl rfl rfl horderly.nonempty
    | some document => exact horderly.of_eq rfl rfl rfl rfl rfl horderly.nonempty
  · exact horderly

/-- The reader takes a chunk from the socket into its hands. -/
theorem State.Orderly.read (horderly : state.Orderly looks) (hreading : state.reader = .reading)
    (message : Bytes) :
    { state with
      reader := .checking message
      received := state.received ++ [message] }.Orderly looks := by
  have hlooked := horderly.looked
  have hkept := horderly.kept
  simp only [State.unchecked, State.unpushed, hreading, List.append_nil] at hlooked hkept
  refine ⟨horderly.nonempty, nofun, horderly.bounded, ?_, ?_, horderly.drained⟩
  · simp only [State.unchecked, hlooked]
  · simp only [State.unpushed, List.append_nil, hkept]

/-- The reader drops its message when the queue is over its limit. -/
theorem State.Orderly.refuse (horderly : state.Orderly looks) {message : Bytes}
    (hchecking : state.reader = .checking message) (hfull : queueLimit < state.queue.length) :
    { state with reader := .looping }.Orderly (looks ++ [(message, state.queue.length)]) := by
  have hlooked := horderly.looked
  have hkept := horderly.kept
  simp only [State.unchecked, State.unpushed, hchecking, List.append_nil] at hlooked hkept
  refine ⟨horderly.nonempty, nofun, horderly.bounded, ?_, ?_, horderly.drained⟩
  · simp only [State.unchecked, List.map_append, List.map_singleton, List.append_nil, hlooked]
  · rw [admitted_append_of_full looks message hfull, ← hkept]
    exact List.append_nil state.pushed

/-- The reader goes on to the push when the queue is within its limit. -/
theorem State.Orderly.pass (horderly : state.Orderly looks) {message : Bytes}
    (hchecking : state.reader = .checking message) (hroom : state.queue.length ≤ queueLimit) :
    { state with reader := .pushing message }.Orderly
      (looks ++ [(message, state.queue.length)]) := by
  have hlooked := horderly.looked
  have hkept := horderly.kept
  simp only [State.unchecked, State.unpushed, hchecking, List.append_nil] at hlooked hkept
  refine ⟨horderly.nonempty, fun _ _ ↦ hroom, horderly.bounded, ?_, ?_, horderly.drained⟩
  · simp only [State.unchecked, List.map_append, List.map_singleton, List.append_nil, hlooked]
  · rw [admitted_append_of_room looks message hroom, ← hkept]
    rfl

/-- The reader pushes its message. The window may have made the queue shorter since the look. -/
theorem State.Orderly.pushBack (horderly : state.Orderly looks) {message : Bytes}
    (hpushing : state.reader = .pushing message) :
    { state with
      reader := .looping
      queue := state.queue ++ [message]
      pushed := state.pushed ++ [message] }.Orderly looks := by
  have hlooked := horderly.looked
  have hkept := horderly.kept
  have hroom := horderly.room message hpushing
  simp only [State.unchecked, State.unpushed, hpushing, List.append_nil] at hlooked hkept
  refine ⟨fun _ ↦ by simp, nofun, ?_, ?_, ?_, ?_⟩
  · simpa using hroom
  · simpa [State.unchecked] using hlooked
  · simpa [State.unpushed] using hkept
  · rw [← List.append_assoc, horderly.drained]

/-- The window takes the first message out. The reader may have made the queue longer since the
question. -/
theorem State.Orderly.popFront (horderly : state.Orderly looks) {message : Bytes}
    {queue : List Bytes} (hfirst : state.queue = message :: queue) :
    { state with
      window := .testing
      queue
      messages := state.messages ++ [message] }.Orderly looks := by
  have hbounded := horderly.bounded
  have hdrained := horderly.drained
  have hroom := horderly.room
  rw [hfirst, List.length_cons] at hbounded
  rw [hfirst] at hdrained hroom
  refine ⟨nofun, ?_, Nat.le_of_succ_le hbounded, horderly.looked, horderly.kept, ?_⟩
  · exact fun pushed hpushing ↦ Nat.le_of_succ_le (hroom pushed hpushing)
  · rw [List.append_assoc]
    exact hdrained

/-- Every step keeps the order of the queue. -/
theorem step_orderly (horderly : state.Orderly looks) (hstep : step dump state event = some after) :
    after.Orderly (looks ++ event.look state) := by
  have hsilent : event.look state = [] → after.Orderly looks →
      after.Orderly (looks ++ event.look state) := by
    intro hlook hafter
    rwa [hlook, List.append_nil]
  cases stepped_of_step hstep with
  | await looping connected => exact hsilent rfl (horderly.await looping)
  | leave looping => exact hsilent rfl (horderly.finish (.inl looping) state.connected)
  | readError reading => exact hsilent rfl (horderly.finish (.inr reading) false)
  | readData message reading fits => exact hsilent rfl (horderly.read reading message)
  | refuse message checking full =>
    simp only [Event.look, checking]
    exact horderly.refuse checking full
  | pass message checking room =>
    simp only [Event.look, checking]
    exact horderly.pass checking room
  | pushBack message pushing => exact hsilent rfl (horderly.pushBack pushing)
  | seeEmpty empty => exact hsilent rfl (horderly.of_eq rfl rfl rfl rfl rfl nofun)
  | seeMessage nonempty =>
    exact hsilent rfl (horderly.of_eq rfl rfl rfl rfl rfl fun _ ↦ nonempty)
  | popFront message queue popping first => exact hsilent rfl (horderly.popFront first)
  | send message answer => exact hsilent rfl (sendMessage_orderly horderly answer message)

/-- Nothing has been read or pushed when the reader thread starts. -/
theorem started_orderly (username : Bytes) (connected : Bool) (outgoing : Bytes) :
    (started username connected outgoing).Orderly [] :=
  ⟨nofun, nofun, Nat.zero_le _, rfl, rfl, rfl⟩

/-- Every run keeps the order of the queue. -/
theorem Checked.orderly (hrun : Checked dump first events looks last)
    (hfirst : first.Orderly []) : last.Orderly looks := by
  induction hrun with
  | nil => exact hfirst
  | snoc event run steps ih => exact step_orderly ih steps

/-- What has been read grows by the chunk that a step delivers. -/
theorem step_delivers (hstep : step dump state event = some after) :
    after.received = state.received ++ event.delivers := by
  cases stepped_of_step hstep with
  | readData message reading fits => rfl
  | send message answer =>
    rw [(sendMessage_frame dump answer message state).1]
    exact (List.append_nil _).symm
  | _ => exact (List.append_nil _).symm

/-- What has been read are the chunks delivered. -/
theorem Checked.received (hrun : Checked dump first events looks last) :
    last.received = first.received ++ delivered events := by
  induction hrun with
  | nil => exact (List.append_nil _).symm
  | snoc event run steps ih =>
    rw [step_delivers steps, ih, delivered, delivered, List.flatMap_append, List.flatMap_singleton,
      List.append_assoc]

/-- Every run without its steps and its looks at the size of the queue, and with them. -/
theorem run_iff_checked :
    Run dump (fun _ ↦ True) first last ↔ ∃ events looks, Checked dump first events looks last := by
  constructor
  · intro hrun
    induction hrun with
    | nil start => exact ⟨[], [], .nil _⟩
    | snoc event run steps stays ih =>
      obtain ⟨events, looks, hlooks⟩ := ih
      exact ⟨_, _, hlooks.snoc event steps⟩
  · rintro ⟨events, looks, hlooks⟩
    induction hlooks with
    | nil => exact .nil trivial
    | snoc event run steps ih => exact ih.snoc event steps trivial

/-- In every interleaving of the two threads the window never pops an empty queue, and the queue
holds at most 251 messages. Each chunk that was delivered to the reader has been read and is looked
at the size of the queue for, and is pushed exactly if the queue held at most 250 messages then.
What the window has taken out, followed by the queue, is what was pushed, in its order. -/
theorem receivePath {username : Bytes} {connected : Bool} {outgoing : Bytes}
    (hrun : Checked dump (started username connected outgoing) events looks last) :
    (last.window = .popping → last.queue ≠ []) ∧ last.queue.length ≤ 251 ∧
      last.received = delivered events ∧ looks.map Prod.fst ++ last.unchecked = delivered events ∧
      last.pushed ++ last.unpushed = (looks.filter fun look ↦ look.2 ≤ 250).map Prod.fst ∧
      last.messages ++ last.queue = last.pushed := by
  have horderly := hrun.orderly (started_orderly username connected outgoing)
  have hreceived : last.received = delivered events := hrun.received
  exact ⟨horderly.nonempty, horderly.bounded, hreceived, horderly.looked.trans hreceived,
    horderly.kept, horderly.drained⟩

end Steps

/-- A chunk that is read, pushed and shown. -/
def shownGreeting : State :=
  { username := [], messages := [[104, 105]], received := [[104, 105]], pushed := [[104, 105]] }

/-- The steps in which it is. -/
def showGreeting : List Event :=
  [.testConnected, .readSome (.data [104, 105]), .checkSize, .pushBack, .testEmpty, .popFront]

/-- The chunk is looked at an empty queue for, and comes out of it again. -/
theorem receivePath_shownGreeting :
    Checked (fun _ ↦ none) (started [] true []) showGreeting [([104, 105], 0)] shownGreeting ∧
      (shownGreeting.window = .popping → shownGreeting.queue ≠ []) ∧
      shownGreeting.queue.length ≤ 251 ∧
      shownGreeting.received = delivered showGreeting ∧
      [([104, 105], 0)].map Prod.fst ++ shownGreeting.unchecked = delivered showGreeting ∧
      shownGreeting.pushed ++ shownGreeting.unpushed =
        ([([104, 105], 0)].filter fun look ↦ look.2 ≤ 250).map Prod.fst ∧
      shownGreeting.messages ++ shownGreeting.queue = shownGreeting.pushed := by
  have hread := (Checked.snoc .testConnected
    (@Checked.nil (fun _ ↦ none) (started [] true [])) rfl).snoc (.readSome (.data [104, 105])) rfl
  have hpushed := (hread.snoc .checkSize rfl).snoc .pushBack rfl
  have hrun := (hpushed.snoc .testEmpty rfl).snoc .popFront rfl
  exact ⟨hrun, receivePath hrun⟩

end KoboldKhat.Client
