import KoboldKhat.Messages

/-!
# The client

`common/client.h` and `common/client.cpp` with the part of the window that empties the queue. The
thread of the window sends messages and drains `m_messageQueue` into the texts it shows; the reader
thread is `Client::readFromServer`. The reader tests `m_connected` at the head of its loop and then
waits in `read_some`; a message that cannot be sent meanwhile does not call it back, so it may read
one more chunk. Each call on the queue takes its lock for its whole length, so it is one step, and
so is the reader's look at the size, which takes no lock. The texts written to the console are left
out.

`Client::sendMessage` serializes with the parameter `dump`, which is `nlohmann::json::dump`: it
gives the text of a value, or nothing when it throws.
-/

set_option autoImplicit false
set_option relaxedAutoImplicit false

namespace KoboldKhat.Client

/-- Where the reader thread is. -/
inductive Reader
  /-- At the head of its loop, before it tests `m_connected`. -/
  | looping
  /-- In `read_some`. -/
  | reading
  /-- With a message it has read, before it looks at the size of the queue. -/
  | checking (message : Bytes)
  /-- With a message it is about to push. -/
  | pushing (message : Bytes)
  /-- Out of its loop. -/
  | finished
  deriving DecidableEq

/-- Where the thread of the window is in the loop that drains the queue. -/
inductive Window
  /-- Before a call of `isMessageQueueEmpty`. -/
  | testing
  /-- Before a call of `popMessageFromQueue`. -/
  | popping
  deriving DecidableEq

/-- The state of a client. -/
structure State where
  /-- `m_username`. -/
  username : Bytes
  /-- `m_connected`. -/
  connected : Bool := true
  /-- The bytes written to the socket so far. -/
  outgoing : Bytes := []
  /-- `m_messageQueue`. -/
  queue : List Bytes := []
  /-- The texts the window shows that came out of the queue. -/
  messages : List Bytes := []
  /-- The reader thread. -/
  reader : Reader := .looping
  /-- The thread of the window. -/
  window : Window := .testing
  /-- The chunks read so far. -/
  received : List Bytes := []
  /-- The chunks pushed so far. -/
  pushed : List Bytes := []
  deriving DecidableEq

/-! ### Sending -/

/-- `Client::sendMessage`, with the answer of the network to its write. -/
def sendMessage (dump : Json → Option Bytes) (answer : WriteAnswer) (message : Bytes)
    (state : State) : State :=
  if state.connected then
    match dump (envelope state.username message) with
    | some serializedMessage =>
      { state with
        outgoing := state.outgoing ++ answer.sent serializedMessage
        connected := answer.returns }
    | none => { state with connected := false }
  else state

/-- A client before `Client::connect`. Its reader thread does not run. -/
def created (username : Bytes) : State :=
  { username, connected := false, reader := .finished }

/-- `Client::connect`, with whether the connection was established and the answer of the network to
the write of the first message. -/
def connect (dump : Json → Option Bytes) (established : Bool) (answer : WriteAnswer)
    (state : State) : State :=
  if established then
    { sendMessage dump answer state.username { state with connected := true } with
      reader := .looping }
  else { state with connected := false }

/-- Messages sent one after the other, by writes that all return. -/
def sendAll (dump : Json → Option Bytes) (messages : List Bytes) (state : State) : State :=
  messages.foldl (fun state message ↦ sendMessage dump .whole message state) state

/-- A connected client writes the text of a message it can serialize. -/
theorem sendMessage_of_dump {dump : Json → Option Bytes} {message document : Bytes} {state : State}
    (hconnected : state.connected = true)
    (hdump : dump (envelope state.username message) = some document) :
    sendMessage dump .whole message state =
      { state with outgoing := state.outgoing ++ document } := by
  unfold sendMessage
  rw [if_pos hconnected, hdump]
  show { state with outgoing := state.outgoing ++ document, connected := true } = _
  rw [← hconnected]

/-- A client that is connected after its first message has written a text of it: the message is the
user name. -/
theorem connect_of_connected {dump : Json → Option Bytes} {username : Bytes}
    (hconnected : (connect dump true .whole (created username)).connected = true) :
    dump (envelope username username) =
      some (connect dump true .whole (created username)).outgoing := by
  cases hdump : dump (envelope username username) with
  | none =>
    have hlost : (connect dump true .whole (created username)).connected = false := by
      simp [connect, sendMessage, created, hdump]
    rw [hlost] at hconnected
    cases hconnected
  | some document =>
    have hsent := @sendMessage_of_dump dump username document { username, reader := .finished } rfl
      hdump
    exact (congrArg (fun state ↦ some state.outgoing) hsent).symm

/-- A connected client writes the texts of the messages it can serialize one after the other. -/
theorem sendAll_outgoing {dump : Json → Option Bytes} {messages documents : List Bytes}
    {state : State} (hconnected : state.connected = true)
    (hdump : List.Forall₂ (fun message document ↦
      dump (envelope state.username message) = some document) messages documents) :
    (sendAll dump messages state).outgoing = state.outgoing ++ documents.flatten := by
  unfold sendAll
  induction messages generalizing documents state with
  | nil =>
    cases hdump
    simp
  | cons message messages ih =>
    cases hdump with
    | @cons _ document _ documents hfirst hrest =>
      have hnext : { state with outgoing := state.outgoing ++ document }.connected = true :=
        hconnected
      rw [List.foldl_cons, sendMessage_of_dump hconnected hfirst, ih hnext hrest,
        List.flatten_cons, List.append_assoc]

/-! ### Receiving -/

/-- What a `read_some` of the reader gives: an error, or the bytes read. -/
inductive ReadResult
  | error
  | data (message : Bytes)
  deriving DecidableEq

/-- A step of the client. -/
inductive Event
  /-- The reader tests `m_connected`, and calls `read_some` or leaves its loop. -/
  | testConnected
  /-- The `read_some` of the reader ends. -/
  | readSome (result : ReadResult)
  /-- The reader looks at the size of the queue. -/
  | checkSize
  /-- The reader pushes its message. -/
  | pushBack
  /-- The window asks whether the queue is empty. -/
  | testEmpty
  /-- The window takes the first message out of the queue. -/
  | popFront
  /-- The window sends a message. -/
  | send (message : Bytes) (answer : WriteAnswer)
  deriving DecidableEq

/-- The number of messages in the queue above which the reader drops what it has read. -/
def queueLimit : ℕ :=
  250

/-- One step of the client, if it can be made. A read gives at least one byte, and at most as many
as the buffer holds. Taking a message out of an empty queue is undefined. -/
def step (dump : Json → Option Bytes) (state : State) : Event → Option State
  | .testConnected =>
    if state.reader = .looping then
      some { state with reader := if state.connected then .reading else .finished }
    else none
  | .readSome .error =>
    if state.reader = .reading then some { state with reader := .finished, connected := false }
    else none
  | .readSome (.data message) =>
    if state.reader = .reading ∧ 1 ≤ message.length ∧ message.length ≤ 1024 then
      some { state with reader := .checking message, received := state.received ++ [message] }
    else none
  | .checkSize =>
    match state.reader with
    | .checking message =>
      if queueLimit < state.queue.length then some { state with reader := .looping }
      else some { state with reader := .pushing message }
    | _ => none
  | .pushBack =>
    match state.reader with
    | .pushing message =>
      some { state with
        reader := .looping
        queue := state.queue ++ [message]
        pushed := state.pushed ++ [message] }
    | _ => none
  | .testEmpty =>
    if state.window = .testing then
      some { state with window := if state.queue = [] then .testing else .popping }
    else none
  | .popFront =>
    match state.window, state.queue with
    | .popping, message :: queue =>
      some { state with window := .testing, queue, messages := state.messages ++ [message] }
    | _, _ => none
  | .send message answer =>
    if state.window = .testing then some (sendMessage dump answer message state) else none

/-- What each step that can be made does. -/
inductive Stepped (dump : Json → Option Bytes) (state : State) : Event → State → Prop
  /-- The reader is connected, and waits for a chunk. -/
  | await (looping : state.reader = .looping) (connected : state.connected = true) :
      Stepped dump state .testConnected { state with reader := .reading }
  /-- The reader is not connected any more. -/
  | leave (looping : state.reader = .looping) :
      Stepped dump state .testConnected { state with reader := .finished }
  | readError (reading : state.reader = .reading) :
      Stepped dump state (.readSome .error) { state with reader := .finished, connected := false }
  | readData (message : Bytes) (reading : state.reader = .reading)
      (fits : 1 ≤ message.length ∧ message.length ≤ 1024) :
      Stepped dump state (.readSome (.data message))
        { state with reader := .checking message, received := state.received ++ [message] }
  /-- The queue is over its limit, and the message is dropped. -/
  | refuse (message : Bytes) (checking : state.reader = .checking message)
      (full : queueLimit < state.queue.length) :
      Stepped dump state .checkSize { state with reader := .looping }
  /-- The queue is within its limit. -/
  | pass (message : Bytes) (checking : state.reader = .checking message)
      (room : state.queue.length ≤ queueLimit) :
      Stepped dump state .checkSize { state with reader := .pushing message }
  | pushBack (message : Bytes) (pushing : state.reader = .pushing message) :
      Stepped dump state .pushBack
        { state with
          reader := .looping
          queue := state.queue ++ [message]
          pushed := state.pushed ++ [message] }
  | seeEmpty (empty : state.queue = []) :
      Stepped dump state .testEmpty { state with window := .testing }
  | seeMessage (nonempty : state.queue ≠ []) :
      Stepped dump state .testEmpty { state with window := .popping }
  | popFront (message : Bytes) (queue : List Bytes) (popping : state.window = .popping)
      (first : state.queue = message :: queue) :
      Stepped dump state .popFront
        { state with window := .testing, queue, messages := state.messages ++ [message] }
  | send (message : Bytes) (answer : WriteAnswer) :
      Stepped dump state (.send message answer) (sendMessage dump answer message state)

/-- A step that is made is one of these. -/
theorem stepped_of_step {dump : Json → Option Bytes} {state after : State} {event : Event}
    (hstep : step dump state event = some after) : Stepped dump state event after := by
  cases event with
  | testConnected =>
    simp only [step] at hstep
    split_ifs at hstep with hlooping hconnected
    · cases hstep
      exact .await hlooping hconnected
    · cases hstep
      exact .leave hlooping
  | readSome result =>
    cases result with
    | error =>
      simp only [step] at hstep
      split_ifs at hstep with hreading
      cases hstep
      exact .readError hreading
    | data message =>
      simp only [step] at hstep
      split_ifs at hstep with henabled
      cases hstep
      exact .readData message henabled.1 henabled.2
  | checkSize =>
    cases hreader : state.reader with
    | checking message =>
      simp only [step, hreader] at hstep
      split_ifs at hstep with hfull
      · cases hstep
        exact .refuse message hreader hfull
      · cases hstep
        exact .pass message hreader (Nat.not_lt.mp hfull)
    | _ => simp [step, hreader] at hstep
  | pushBack =>
    cases hreader : state.reader with
    | pushing message =>
      simp only [step, hreader] at hstep
      cases hstep
      exact .pushBack message hreader
    | _ => simp [step, hreader] at hstep
  | testEmpty =>
    simp only [step] at hstep
    split_ifs at hstep with htesting hempty
    · cases hstep
      exact .seeEmpty hempty
    · cases hstep
      exact .seeMessage hempty
  | popFront =>
    cases hwindow : state.window with
    | testing => simp [step, hwindow] at hstep
    | popping =>
      cases hqueue : state.queue with
      | nil => simp [step, hwindow, hqueue] at hstep
      | cons message queue =>
        simp only [step, hwindow, hqueue] at hstep
        cases hstep
        exact .popFront message queue hwindow hqueue
  | send message answer =>
    simp only [step] at hstep
    split_ifs at hstep
    cases hstep
    exact .send message answer

/-- The states a client goes through. -/
inductive Run (dump : Json → Option Bytes) (allowed : State → Prop) : State → State → Prop
  | nil {state : State} (start : allowed state) : Run dump allowed state state
  | snoc {first middle last : State} (event : Event) (run : Run dump allowed first middle)
      (steps : step dump middle event = some last) (stays : allowed last) :
      Run dump allowed first last

/-- The message the reader has read but not yet pushed. -/
def State.pending (state : State) : List Bytes :=
  match state.reader with
  | .checking message => [message]
  | .pushing message => [message]
  | _ => []

end KoboldKhat.Client
