import KoboldKhat.Client.State
import KoboldKhat.Library.Users
import KoboldKhat.Library.Utf8
import KoboldKhat.Tsqueue.Linearization

/-!
# The client application

`ClientApp` of `client/main.cpp` with its client, whose queue is the program of
`common/tsqueue.hpp`: the thread of the window and the reader thread call the functions of the queue
like any threads, so the steps of these calls interleave with everything else. The reader's look at
the size takes no lock. In the language it is a race with the calls of the window; here it is one
exact look at the deque. What is drawn is left out, and so are `ip` and `port`: whether the
connection is established is up to the network.

The texts in the buffers are what `ImGui::InputText` leaves there (`Typed`). Before the user
connects there is no client: the fields that describe it have not been set, and its reader thread
does not run.
-/

set_option autoImplicit false
set_option relaxedAutoImplicit false

namespace KoboldKhat.Client

open Library Tsqueue

/-- The threads of the application. -/
inductive Thread
  | window
  | reader
  deriving DecidableEq

/-- Where the thread of the window is. -/
inductive Screen
  /-- In a frame of `AppState::CONNECT`. -/
  | connecting
  /-- At the head of the loop that drains the queue, in front of `isMessageQueueEmpty` or in it. -/
  | draining
  /-- In the loop, in front of `popMessageFromQueue` or in it. -/
  | taking
  /-- Behind the loop, at the message and its button. -/
  | typing
  deriving DecidableEq

/-- An entry of `m_messages`, by where it is from. -/
inductive Entry
  | received (text : Bytes)
  | own (text : Bytes)
  deriving DecidableEq

/-- The entries that came out of the queue. -/
def receivedTexts (messages : List Entry) : List Bytes :=
  messages.filterMap fun entry ↦
    match entry with
    | .received text => some text
    | .own _ => none

/-- The entries that the user has sent. -/
def ownTexts (messages : List Entry) : List Bytes :=
  messages.filterMap fun entry ↦
    match entry with
    | .received _ => none
    | .own text => some text

/-- What `ImGui::InputText` can leave in front of the zero byte in a buffer: whole characters, none
of them a control character. -/
structure Typed (size : ℕ) (text : Bytes) : Prop where
  fits : text.length < size
  valid : IsUtf8 text
  printable : ∀ byte ∈ text, 0x20 ≤ byte

/-- The application without the queue of its client. -/
structure App where
  /-- The thread of the window. -/
  screen : Screen := .connecting
  /-- `m_messages`. -/
  messages : List Entry := []
  /-- `m_username` of the client. -/
  username : Bytes := []
  /-- `m_connected` of the client. -/
  connected : Bool := false
  /-- The bytes written to the socket so far. -/
  outgoing : Bytes := []
  /-- The reader thread. In front of its call of `push_back` and in it, it is pushing. -/
  reader : Reader := .finished
  /-- The chunks read so far. -/
  received : List Bytes := []
  /-- The looks at the size of the queue so far, with the chunks in the reader's hands. -/
  looks : List (Bytes × ℕ) := []
  /-- The messages `Client::sendMessage` has been called with so far, the name first. -/
  given : List Bytes := []
  /-- Whether the connection was not established, a write failed or a read gave an error. -/
  networkFailed : Bool := false
  deriving DecidableEq

namespace App

/-- The client with what is in its queue. -/
def client (app : App) (queue : List Bytes) : State where
  username := app.username
  connected := app.connected
  outgoing := app.outgoing
  queue := queue
  reader := app.reader
  received := app.received

/-- The application after a call that changes the name, the connection or the stream of its client,
or its reader thread. -/
def withClient (app : App) (client : State) : App :=
  { app with
    username := client.username
    connected := client.connected
    outgoing := client.outgoing
    reader := client.reader }

/-- The application hands a document to a write that fails. -/
def failsToWrite (dump : Json → Option Bytes) (answer : WriteAnswer) (message : Bytes) (app : App) :
    Bool :=
  app.connected && (dump (envelope app.username message)).isSome && !answer.returns

/-- The application calls `Client::sendMessage`. -/
def send (dump : Json → Option Bytes) (answer : WriteAnswer) (message : Bytes) (app : App) : App :=
  { app.withClient (sendMessage dump answer message (app.client [])) with
    given := app.given ++ [message]
    networkFailed := app.networkFailed || app.failsToWrite dump answer message }

/-- The button of `AppState::CONNECT`: the application makes a client and calls `Client::connect`,
which sends the name if the connection is established. -/
def connect (dump : Json → Option Bytes) (established : Bool) (answer : WriteAnswer)
    (username : Bytes) (app : App) : App :=
  { app.withClient (Client.connect dump established answer (created username)) with
    screen := .draining
    given := if established then [username] else []
    networkFailed := !established ||
      { app with username, connected := true }.failsToWrite dump answer username }

end App

/-- A step that the application takes outside the queue. -/
inductive Deed
  /-- The user connects under the name in the buffer. -/
  | connect (username : Bytes) (answer : WriteAnswer)
  /-- The user sends the message in the buffer. -/
  | send (message : Bytes) (answer : WriteAnswer)
  /-- The frame ends without that. -/
  | nextFrame
  /-- The reader tests `m_connected`, and calls `read_some` or leaves its loop. -/
  | testConnected
  /-- The `read_some` of the reader ends. -/
  | readSome (result : ReadResult)
  /-- The reader looks at the size of the queue. -/
  | checkSize
  deriving DecidableEq

/-- The texts are what the user can type: `username` has 128 bytes and `messageBuffer` 256. -/
def Deed.IsTyped : Deed → Prop
  | connect username _ => Typed 128 username
  | send message _ => Typed 256 message
  | _ => True

namespace App

/-- The application after a step outside the queue, which has the given size, if the step can be
taken. -/
def act (dump : Json → Option Bytes) (established : Bool) (app : App) (size : ℕ) :
    Deed → Option App
  | .connect username answer =>
    if app.screen = .connecting then some (app.connect dump established answer username) else none
  | .send message answer =>
    if app.screen = .typing then
      some { app.send dump answer message with
        screen := .draining
        messages := app.messages ++ [.own message] }
    else none
  | .nextFrame => if app.screen = .typing then some { app with screen := .draining } else none
  | .testConnected =>
    if app.reader = .looping then
      some { app with reader := if app.connected then .reading else .finished }
    else none
  | .readSome .error =>
    if app.reader = .reading then
      some { app with reader := .finished, connected := false, networkFailed := true }
    else none
  | .readSome (.data message) =>
    if app.reader = .reading ∧ 1 ≤ message.length ∧ message.length ≤ 1024 then
      some { app with reader := .checking message, received := app.received ++ [message] }
    else none
  | .checkSize =>
    match app.reader with
    | .checking message =>
      some { app with
        reader := if queueLimit < size then .looping else .pushing message
        looks := app.looks ++ [(message, size)] }
    | _ => none

/-- The loop that drains the queue, after the answer of `isMessageQueueEmpty`. -/
def answered (isEmpty : Bool) (app : App) : App :=
  { app with screen := if isEmpty then .typing else .taking }

/-- The application after one of its threads calls a function of the queue or the call returns, if
that is what comes next in the thread. -/
def observe (app : App) : Visible Thread (Call Bytes) Call.Result → Option App
  | .invoke .window .empty => if app.screen = .draining then some app else none
  | .respond .window .empty isEmpty =>
    if app.screen = .draining then some (app.answered isEmpty) else none
  | .invoke .window .popFront => if app.screen = .taking then some app else none
  | .respond .window .popFront message =>
    if app.screen = .taking then
      some { app with screen := .draining, messages := app.messages ++ [.received message] }
    else none
  | .invoke .reader (.pushBack message) =>
    if app.reader = .pushing message then some app else none
  | .respond .reader (.pushBack message) _ =>
    if app.reader = .pushing message then some { app with reader := .looping } else none
  | _ => none

end App

/-- The threads of the application as users of the queue, of which the reader looks up the size. -/
def users (dump : Json → Option Bytes) (established : Bool) :
    Users Thread (Call Bytes) Call.Result ℕ App where
  act app size after :=
    ∃ deed : Deed, deed.IsTyped ∧ app.act dump established size deed = some after
  observe app action after := app.observe action = some after

/-- The queue of the client, as the program that it is. A look at the size, which takes no lock and
may come between any two steps of the calls, is taken to give the length of the deque then. -/
def program : Service Thread (Call Bytes) Call.Result ℕ
    (Implementation.Config (signature Bytes) Thread (Shared Thread Bytes) (Call Bytes)
      Call.Result) :=
  (tsqueue Thread Bytes).service fun state ↦ state.deqQueue.length

/-- The queue of the client, if its calls took effect at one moment each. -/
def atOnce : Service Thread (Call Bytes) Call.Result ℕ
    (InUse (List Bytes) Thread (Call Bytes) Call.Result) :=
  (sequential Bytes).service List.length

end KoboldKhat.Client
