import KoboldKhat.Client.App
import KoboldKhat.Client.Queue
import KoboldKhat.Client.Stream

/-!
# The application does what the client does

Seen from its client, the application with its threads in the middle of calls is in a state of the
client whose calls on the queue are one step each (`App.view`). A call that has taken effect counts
as made, although its thread may still be in it: the window may have taken a message out that it has
not put among its texts.
-/

set_option autoImplicit false
set_option relaxedAutoImplicit false

namespace KoboldKhat.Client

open Library Tsqueue

/-- Where the call of a thread of the application is. -/
abbrev CallStage :=
  Stage (Call Bytes) Call.Result

/-- The queue of the application, if its calls took effect at one moment each. -/
abbrev Queue :=
  InUse (List Bytes) Thread (Call Bytes) Call.Result

/-! ### The client of the application -/

/-- Where the reader is for the client, if its call is at the stage. -/
def Reader.at (reader : Reader) : CallStage → Reader
  | .done _ _ => .looping
  | _ => reader

/-- Where the window is for the client, if its call is at the stage. -/
def Screen.at (screen : Screen) : CallStage → Window
  | .done .empty false => .popping
  | .done _ _ => .testing
  | _ => if screen = .taking then .popping else .testing

/-- The message that a call at the stage has taken out of the queue. -/
def handed : CallStage → List Bytes
  | .done .popFront message => [message]
  | _ => []

/-- The messages that have been taken out of the queue. -/
def App.taken (app : App) (queue : Queue) : List Bytes :=
  receivedTexts app.messages ++ handed (queue.stages .window)

/-- The state of the client. -/
def App.view (app : App) (queue : Queue) : State :=
  { app.client queue.items with
    messages := app.taken queue
    reader := app.reader.at (queue.stages .reader)
    window := app.screen.at (queue.stages .window)
    pushed := app.taken queue ++ queue.items }

/-- The call of the reader goes with where the reader is. -/
inductive Reader.Fits : Reader → CallStage → Prop
  | idle (reader : Reader) : Fits reader .idle
  | pushing (message : Bytes) : Fits (.pushing message) (.invoked (.pushBack message))
  | pushed (message : Bytes) : Fits (.pushing message) (.done (.pushBack message) ())

/-- The call of the window goes with where the window is. -/
inductive Screen.Fits : Screen → CallStage → Prop
  | idle (screen : Screen) : Fits screen .idle
  | asking : Fits .draining (.invoked .empty)
  | asked (isEmpty : Bool) : Fits .draining (.done .empty isEmpty)
  | taking : Fits .taking (.invoked .popFront)
  | taken (message : Bytes) : Fits .taking (.done .popFront message)

/-- The calls of both threads go with where they are, and before the user connects there is
nothing. -/
structure App.Fits (app : App) (queue : Queue) : Prop where
  reader : app.reader.Fits (queue.stages .reader)
  window : app.screen.Fits (queue.stages .window)
  unconnected : app.screen = .connecting → app = {} ∧ queue.items = []

/-! ### One step -/

/-- What a step of the application is for its client. -/
inductive Mirrored (dump : Json → Option Bytes) (established : Bool) (app : App) (queue : Queue)
    (after : App) (next : Queue) : Prop
  /-- The client is made and connects. -/
  | connected (username : Bytes) (answer : WriteAnswer) (typed : Typed 128 username)
      (connecting : app.screen = .connecting)
      (client : after.view next = connect dump established answer (created username))
      (looks : after.looks = []) (given : after.given = if established then [username] else [])
  /-- Nothing. -/
  | unseen (chatting : app.screen ≠ .connecting) (client : after.view next = app.view queue)
      (looks : after.looks = app.looks) (given : after.given = app.given)
  /-- A step of the client. -/
  | stepped (chatting : app.screen ≠ .connecting) (event : Event)
      (steps : step dump (app.view queue) event = some (after.view next))
      (looks : after.looks = app.looks ++ event.look (app.view queue))
      (given : after.given = app.given ++ event.said)

section Steps

variable {dump : Json → Option Bytes} {established : Bool} {app after : App} {queue next : Queue}

/-- What is shown after another entry. -/
@[simp] theorem receivedTexts_concat_received (messages : List Entry) (text : Bytes) :
    receivedTexts (messages ++ [.received text]) = receivedTexts messages ++ [text] := by
  simp [receivedTexts]

@[simp] theorem receivedTexts_concat_own (messages : List Entry) (text : Bytes) :
    receivedTexts (messages ++ [.own text]) = receivedTexts messages := by
  simp [receivedTexts]

/-- A reader that does not push makes no call. -/
theorem Reader.Fits.idle_of_ne {reader : Reader} {stage : CallStage} (hfits : reader.Fits stage)
    (hother : ∀ message, reader ≠ .pushing message) : stage = .idle := by
  cases hfits with
  | idle => rfl
  | pushing message => exact absurd rfl (hother message)
  | pushed message => exact absurd rfl (hother message)

/-- A window that neither asks nor takes makes no call. -/
theorem Screen.Fits.idle_of_ne {screen : Screen} {stage : CallStage} (hfits : screen.Fits stage)
    (hdraining : screen ≠ .draining) (htaking : screen ≠ .taking) : stage = .idle := by
  cases hfits with
  | idle => rfl
  | asking => exact absurd rfl hdraining
  | asked isEmpty => exact absurd rfl hdraining
  | taking => exact absurd rfl htaking
  | taken message => exact absurd rfl htaking

/-- The client of an application that sends a message sends it. -/
theorem view_send (answer : WriteAnswer) (message : Bytes) (hscreen : app.screen = .typing)
    (hwindow : queue.stages .window = .idle) :
    step dump (app.view queue) (.send message answer) =
      some ({ app.send dump answer message with
        screen := .draining
        messages := app.messages ++ [Entry.own message] }.view queue) := by
  have htesting : (app.view queue).window = .testing := by
    simp [App.view, Screen.at, hwindow, hscreen]
  simp only [step]
  rw [if_pos htesting]
  unfold sendMessage
  cases hconnected : app.connected <;>
    cases hdump : dump (envelope app.username message) <;>
      simp [App.view, App.send, App.withClient, App.client, App.taken, sendMessage, hconnected,
        hdump, hwindow, hscreen, Screen.at]

/-- An application whose reader runs has a client. -/
theorem App.Fits.chatting (hfits : app.Fits queue) (hreader : app.reader ≠ .finished) :
    app.screen ≠ .connecting := by
  intro hconnecting
  rw [(hfits.unconnected hconnecting).1] at hreader
  exact hreader rfl

/-- The client of an application whose reader is not in a call is where the reader is. -/
theorem view_reader (hidle : queue.stages .reader = .idle) :
    (app.view queue).reader = app.reader := by
  simp only [App.view, hidle]
  rfl

/-- A step of the reader outside the queue. -/
theorem App.Fits.reads (hfits : app.Fits queue) (hchatting : app.screen ≠ .connecting)
    (hidle : queue.stages .reader = .idle) (hscreen : after.screen = app.screen) :
    after.Fits queue where
  reader := by
    rw [hidle]
    exact .idle after.reader
  window := by
    rw [hscreen]
    exact hfits.window
  unconnected := fun hconnecting ↦ absurd (hscreen ▸ hconnecting) hchatting

/-- The client of an application that connects is a client that has connected. -/
theorem view_connect (answer : WriteAnswer) (username : Bytes) (hitems : queue.items = [])
    (hreader : queue.stages .reader = .idle) (hwindow : queue.stages .window = .idle) :
    (({} : App).connect dump established answer username).view queue =
      connect dump established answer (created username) := by
  cases established <;> cases hdump : dump (envelope username username) <;>
    simp [App.view, App.connect, App.withClient, App.client, App.taken, connect, created,
      sendMessage, receivedTexts, handed, Reader.at, Screen.at, hitems, hreader, hwindow, hdump]

/-- The user connects. -/
theorem mirrored_connect (hfits : app.Fits queue) {username : Bytes} (htyped : Typed 128 username)
    (answer : WriteAnswer) (hconnecting : app.screen = .connecting) :
    (app.connect dump established answer username).Fits queue ∧
      (app.connect dump established answer username).screen ≠ .connecting ∧
      Mirrored dump established app queue (app.connect dump established answer username) queue := by
  obtain ⟨rfl, hitems⟩ := hfits.unconnected hconnecting
  have hreader : queue.stages .reader = .idle := hfits.reader.idle_of_ne nofun
  have hwindow : queue.stages .window = .idle := hfits.window.idle_of_ne nofun nofun
  refine ⟨⟨?_, ?_, nofun⟩, nofun, .connected username answer htyped rfl
    (view_connect answer username hitems hreader hwindow) rfl rfl⟩
  · rw [hreader]
    exact .idle _
  · rw [hwindow]
    exact .idle _

/-- The thread of the window goes on to the next frame. -/
theorem App.Fits.nextFrame (hfits : app.Fits queue) (hwindow : queue.stages .window = .idle)
    (hscreen : after.screen = .draining) (hreader : after.reader = app.reader) :
    after.Fits queue where
  reader := by
    rw [hreader]
    exact hfits.reader
  window := by
    rw [hwindow]
    exact .idle _
  unconnected := fun hconnecting ↦ by
    rw [hscreen] at hconnecting
    cases hconnecting

/-- A step of the application outside the queue is one of its client, or nothing to it. -/
theorem mirrored_of_act (hfits : app.Fits queue) {deed : Deed} (htyped : deed.IsTyped)
    (hact : app.act dump established queue.items.length deed = some after) :
    after.Fits queue ∧ after.screen ≠ .connecting ∧
      Mirrored dump established app queue after queue := by
  cases deed with
  | connect username answer =>
    simp only [App.act] at hact
    split_ifs at hact with hconnecting
    obtain rfl := Option.some.inj hact
    exact mirrored_connect hfits htyped answer hconnecting
  | send message answer =>
    simp only [App.act] at hact
    split_ifs at hact with hscreen
    obtain rfl := Option.some.inj hact
    have hwindow : queue.stages .window = .idle := by
      refine hfits.window.idle_of_ne ?_ ?_ <;> rw [hscreen] <;> decide
    refine ⟨hfits.nextFrame hwindow rfl (sendMessage_frame dump answer message _).2.2,
      by simp, .stepped (by rw [hscreen]; decide) (.send message answer)
        (view_send answer message hscreen hwindow) ?_ rfl⟩
    exact (List.append_nil app.looks).symm
  | nextFrame =>
    simp only [App.act] at hact
    split_ifs at hact with hscreen
    obtain rfl := Option.some.inj hact
    have hwindow : queue.stages .window = .idle := by
      refine hfits.window.idle_of_ne ?_ ?_ <;> rw [hscreen] <;> decide
    refine ⟨hfits.nextFrame hwindow rfl rfl, by simp,
      .unseen (by rw [hscreen]; decide) ?_ rfl rfl⟩
    simp [App.view, App.client, App.taken, Screen.at, hwindow, hscreen]
  | testConnected =>
    simp only [App.act] at hact
    split at hact
    case isFalse => cases hact
    case isTrue hlooping =>
      obtain rfl := Option.some.inj hact
      have hchatting := hfits.chatting (by rw [hlooping]; decide)
      have hidle := hfits.reader.idle_of_ne (by simp [hlooping])
      refine ⟨hfits.reads hchatting hidle rfl, hchatting,
        .stepped hchatting .testConnected ?_ (List.append_nil _).symm (List.append_nil _).symm⟩
      simp [step, App.view, App.client, App.taken, Reader.at, hidle, hlooping]
  | readSome result =>
    cases result with
    | error =>
      simp only [App.act] at hact
      split_ifs at hact with hready
      obtain rfl := Option.some.inj hact
      have hchatting := hfits.chatting (by rw [hready]; decide)
      have hidle := hfits.reader.idle_of_ne (by simp [hready])
      refine ⟨hfits.reads hchatting hidle rfl, hchatting,
        .stepped hchatting (.readSome .error) ?_ (List.append_nil _).symm (List.append_nil _).symm⟩
      simp [step, App.view, App.client, App.taken, Reader.at, hidle, hready]
    | data message =>
      simp only [App.act] at hact
      split_ifs at hact with hready
      obtain rfl := Option.some.inj hact
      have hchatting := hfits.chatting (by rw [hready.1]; decide)
      have hidle := hfits.reader.idle_of_ne (by simp [hready.1])
      refine ⟨hfits.reads hchatting hidle rfl, hchatting,
        .stepped hchatting (.readSome (.data message)) ?_ (List.append_nil _).symm
          (List.append_nil _).symm⟩
      simp [step, App.view, App.client, App.taken, Reader.at, hidle, hready]
  | checkSize =>
    simp only [App.act] at hact
    split at hact
    case h_2 => cases hact
    case h_1 message hreader =>
      obtain rfl := Option.some.inj hact
      have hchatting := hfits.chatting (by simp [hreader])
      have hidle := hfits.reader.idle_of_ne (by simp [hreader])
      refine ⟨hfits.reads hchatting hidle rfl, hchatting,
        .stepped hchatting .checkSize ?_ ?_ (List.append_nil _).symm⟩
      · by_cases hfull : queueLimit < queue.items.length <;>
          simp [step, App.view, App.client, App.taken, Reader.at, hidle, hreader, hfull]
      · simp [Event.look, App.view, Reader.at, hidle, hreader]
        rfl

/-- The call that a window has made. -/
theorem Screen.Fits.of_invoked {screen : Screen} {call : Call Bytes}
    (hfits : screen.Fits (.invoked call)) :
    screen = .draining ∧ call = .empty ∨ screen = .taking ∧ call = .popFront := by
  cases hfits with
  | asking => exact Or.inl ⟨rfl, rfl⟩
  | taking => exact Or.inr ⟨rfl, rfl⟩

/-- The call that a reader has made. -/
theorem Reader.Fits.of_invoked {reader : Reader} {call : Call Bytes}
    (hfits : reader.Fits (.invoked call)) :
    ∃ message, reader = .pushing message ∧ call = .pushBack message := by
  cases hfits with
  | pushing message => exact ⟨message, rfl, rfl⟩

/-- The call of a window that has taken effect. -/
theorem Screen.Fits.of_done {screen : Screen} {call : Call Bytes} {result : call.Result}
    (hfits : screen.Fits (.done call result)) :
    (screen = .draining ∧ ∃ isEmpty : Bool,
      (⟨call, result⟩ : (call : Call Bytes) × call.Result) = ⟨.empty, isEmpty⟩) ∨
    screen = .taking ∧ ∃ message : Bytes,
      (⟨call, result⟩ : (call : Call Bytes) × call.Result) = ⟨.popFront, message⟩ := by
  cases hfits with
  | asked isEmpty => exact Or.inl ⟨rfl, isEmpty, rfl⟩
  | taken message => exact Or.inr ⟨rfl, message, rfl⟩

/-- The call of a reader that has taken effect. -/
theorem Reader.Fits.of_done {reader : Reader} {call : Call Bytes} {result : call.Result}
    (hfits : reader.Fits (.done call result)) :
    ∃ message, reader = .pushing message ∧ call = .pushBack message := by
  cases hfits with
  | pushed message => exact ⟨message, rfl, rfl⟩

/-- The stages after a step of the window. -/
theorem App.Fits.windowCalls {items left : List Bytes} {stages : Thread → CallStage}
    {stage : CallStage} (hfits : app.Fits ⟨items, stages⟩) (hreader : after.reader = app.reader)
    (hchatting : after.screen ≠ .connecting) (hwindow : after.screen.Fits stage) :
    after.Fits ⟨left, Function.update stages .window stage⟩ where
  reader := by
    rw [hreader]
    exact hfits.reader
  window := by
    simp only [Function.update_self]
    exact hwindow
  unconnected := fun hconnecting ↦ absurd hconnecting hchatting

/-- The stages after a step of the reader. -/
theorem App.Fits.readerCalls {items left : List Bytes} {stages : Thread → CallStage}
    {stage : CallStage} (hfits : app.Fits ⟨items, stages⟩) (hscreen : after.screen = app.screen)
    (hchatting : after.screen ≠ .connecting) (hreader : after.reader.Fits stage) :
    after.Fits ⟨left, Function.update stages .reader stage⟩ where
  reader := by
    simp only [Function.update_self]
    exact hreader
  window := by
    rw [hscreen]
    exact hfits.window
  unconnected := fun hconnecting ↦ absurd hconnecting hchatting

/-- A message that is taken out of the queue was its first one. -/
theorem cons_of_popFront {items left : List Bytes} {message : Bytes}
    (heffect : (Call.popFront : Call Bytes).effect items = some (message, left)) :
    items = message :: left := by
  obtain ⟨_, hfirst, hpair⟩ := Option.map_eq_some_iff.mp heffect
  obtain ⟨rfl, rfl⟩ := Prod.mk.inj hpair
  obtain ⟨rest, rfl⟩ := List.head?_eq_some_iff.mp hfirst
  rfl

/-- A call that takes effect is a step of the client. -/
theorem mirrored_of_perform (hfits : app.Fits queue)
    (hstep : (sequential Bytes).Step queue [] next) :
    app.Fits next ∧ app.screen ≠ .connecting ∧
      Mirrored dump established app queue app next := by
  cases hstep with
  | @perform items left stages thread call result invoked effect =>
    have heffect : call.effect items = some (result, left) := effect
    cases thread with
    | window =>
      have hwindow := hfits.window
      simp only [invoked] at hwindow
      rcases hwindow.of_invoked with ⟨hscreen, rfl⟩ | ⟨hscreen, rfl⟩
      · have hchatting : app.screen ≠ .connecting := by rw [hscreen]; decide
        obtain ⟨rfl, rfl⟩ := Prod.mk.inj (Option.some.inj heffect)
        refine ⟨hfits.windowCalls rfl hchatting (hscreen ▸ .asked _), hchatting,
          .stepped hchatting .testEmpty ?_ (List.append_nil _).symm (List.append_nil _).symm⟩
        cases items <;>
          simp [step, App.view, App.client, App.taken, Screen.at, handed, invoked, hscreen]
      · have hchatting : app.screen ≠ .connecting := by rw [hscreen]; decide
        obtain ⟨message, rfl⟩ : ∃ message : Bytes, message = result := ⟨result, rfl⟩
        obtain rfl := cons_of_popFront heffect
        refine ⟨hfits.windowCalls rfl hchatting (hscreen ▸ .taken message), hchatting,
          .stepped hchatting .popFront ?_ (List.append_nil _).symm (List.append_nil _).symm⟩
        simp [step, App.view, App.client, App.taken, Screen.at, handed, invoked, hscreen]
    | reader =>
      have hreader := hfits.reader
      simp only [invoked] at hreader
      obtain ⟨message, hpushing, rfl⟩ := hreader.of_invoked
      have hchatting := hfits.chatting (by simp [hpushing])
      obtain ⟨rfl, rfl⟩ := Prod.mk.inj (Option.some.inj heffect)
      refine ⟨hfits.readerCalls rfl hchatting (hpushing ▸ .pushed message), hchatting,
        .stepped hchatting .pushBack ?_ (List.append_nil _).symm (List.append_nil _).symm⟩
      simp [step, App.view, App.client, App.taken, Reader.at, invoked, hpushing]

/-- The calls that the threads make. -/
theorem observe_invoke {thread : Thread} {call : Call Bytes}
    (hobserve : app.observe (.invoke thread call) = some after) :
    after = app ∧ (thread = .window ∧ app.screen.Fits (.invoked call) ∨
      thread = .reader ∧ app.reader.Fits (.invoked call)) := by
  cases thread with
  | window =>
    cases call with
    | empty =>
      simp only [App.observe] at hobserve
      split_ifs at hobserve with hscreen
      rw [hscreen]
      exact ⟨(Option.some.inj hobserve).symm, Or.inl ⟨rfl, .asking⟩⟩
    | popFront =>
      simp only [App.observe] at hobserve
      split_ifs at hobserve with hscreen
      rw [hscreen]
      exact ⟨(Option.some.inj hobserve).symm, Or.inl ⟨rfl, .taking⟩⟩
    | _ => cases hobserve
  | reader =>
    cases call with
    | pushBack message =>
      simp only [App.observe] at hobserve
      split_ifs at hobserve with hreader
      rw [hreader]
      exact ⟨(Option.some.inj hobserve).symm, Or.inr ⟨rfl, .pushing message⟩⟩
    | _ => cases hobserve

/-- A call that is made or returns is nothing to the client. -/
theorem mirrored_of_observe (hfits : app.Fits queue)
    {action : Visible Thread (Call Bytes) Call.Result}
    (hstep : (sequential Bytes).Step queue [action] next)
    (hobserve : app.observe action = some after) :
    after.Fits next ∧ after.screen ≠ .connecting ∧
      Mirrored dump established app queue after next := by
  cases hstep with
  | @invoke items stages thread call idle =>
    obtain ⟨rfl, ⟨rfl, hwindow⟩ | ⟨rfl, hreader⟩⟩ := observe_invoke hobserve
    · have hchatting : after.screen ≠ .connecting := by
        rcases hwindow.of_invoked with ⟨hscreen, -⟩ | ⟨hscreen, -⟩ <;> rw [hscreen] <;> decide
      refine ⟨hfits.windowCalls rfl hchatting hwindow, hchatting, .unseen hchatting ?_ rfl rfl⟩
      simp [App.view, App.client, App.taken, Screen.at, handed, idle]
    · obtain ⟨message, hpushing, rfl⟩ := hreader.of_invoked
      have hchatting := hfits.chatting (by simp [hpushing])
      refine ⟨hfits.readerCalls rfl hchatting hreader, hchatting, .unseen hchatting ?_ rfl rfl⟩
      simp [App.view, App.client, App.taken, Reader.at, idle]
  | @respond items stages thread call result done =>
    cases thread with
    | window =>
      have hwindow := hfits.window
      simp only [done] at hwindow
      rcases hwindow.of_done with ⟨hscreen, isEmpty, ⟨⟩⟩ | ⟨hscreen, message, ⟨⟩⟩
      · simp only [App.observe, if_pos hscreen, Option.some.injEq] at hobserve
        subst hobserve
        have hchatting : app.screen ≠ .connecting := by rw [hscreen]; decide
        have hchats : (app.answered isEmpty).screen ≠ .connecting := by
          cases isEmpty <;> nofun
        refine ⟨hfits.windowCalls rfl hchats (.idle _), hchats, .unseen hchatting ?_ rfl rfl⟩
        cases isEmpty <;>
          simp [App.view, App.client, App.taken, App.answered, Screen.at, handed, done]
      · simp only [App.observe, if_pos hscreen, Option.some.injEq] at hobserve
        subst hobserve
        have hchatting : app.screen ≠ .connecting := by rw [hscreen]; decide
        refine ⟨hfits.windowCalls rfl nofun (.idle _), nofun, .unseen hchatting ?_ rfl rfl⟩
        simp [App.view, App.client, App.taken, Screen.at, handed, done]
    | reader =>
      have hreader := hfits.reader
      simp only [done] at hreader
      obtain ⟨message, hpushing, rfl⟩ := hreader.of_done
      simp only [App.observe, if_pos hpushing, Option.some.injEq] at hobserve
      subst hobserve
      have hchatting := hfits.chatting (by simp [hpushing])
      refine ⟨hfits.readerCalls rfl hchatting (.idle _), hchatting, .unseen hchatting ?_ rfl rfl⟩
      simp [App.view, App.client, App.taken, Reader.at, done]

/-- A step of the application is one of its client, or the connection, or nothing to it. -/
theorem mirrored_of_step (hfits : app.Fits queue)
    (hstep : (users dump established).Step atOnce (app, queue) (after, next)) :
    after.Fits next ∧ after.screen ≠ .connecting ∧
      Mirrored dump established app queue after next := by
  cases hstep with
  | act acts =>
    obtain ⟨deed, htyped, hact⟩ := acts
    exact mirrored_of_act hfits htyped hact
  | serve steps => exact mirrored_of_perform hfits steps
  | observe steps observes => exact mirrored_of_observe hfits steps observes

end Steps

/-! ### Runs -/

/-- The steps that the calls of the application take. -/
abbrev Calls :=
  Implementation.Config (signature Bytes) Thread (Shared Thread Bytes) (Call Bytes) Call.Result

/-- The application can come from one state and the calls of its threads to others, in some
interleaving of all steps. -/
def Leads (dump : Json → Option Bytes) (established : Bool) (first : App × Calls) (app : App)
    (calls : Calls) : Prop :=
  Relation.ReflTransGen ((users dump established).Step program) first (app, calls)

/-- The application can come to the state and the calls of its threads from its start. -/
abbrev Reaches (dump : Json → Option Bytes) (established : Bool) (app : App) (calls : Calls) :
    Prop :=
  Leads dump established ({}, ⟨Tsqueue.started [], fun _ ↦ none⟩) app calls

section Steps

variable {dump : Json → Option Bytes} {established : Bool} {first : App × Calls}
  {app after : App} {calls : Calls}

/-- The application takes a step outside the queue. -/
theorem Leads.act (hleads : Leads dump established first app calls) (deed : Deed)
    (htyped : deed.IsTyped)
    (hact : app.act dump established calls.state.deqQueue.length deed = some after) :
    Leads dump established first after calls :=
  hleads.tail (.act ⟨deed, htyped, hact⟩)

/-- A thread of the application calls a function of the queue. -/
theorem Leads.invoke (hleads : Leads dump established first app calls) (thread : Thread)
    (call : Call Bytes) (hidle : calls.threads thread = none)
    (hobserve : app.observe (.invoke thread call) = some after) :
    Leads dump established first after ⟨calls.state,
      Function.update calls.threads thread (some ⟨call, call.returning⟩)⟩ :=
  hleads.tail (.observe (.invoke call hidle) hobserve)

/-- A thread in a call finishes the operation it is at. -/
theorem Leads.reply
    {threads : Thread → Option ((call : Call Bytes) × QueueProgram Bytes call.Result)}
    {state left : Shared Thread Bytes} {thread : Thread} {call : Call Bytes}
    {operation : Operation Bytes} {next : operation.Reply → QueueProgram Bytes call.Result}
    (hleads : Leads dump established first app
      ⟨state, Function.update threads thread (some ⟨call, .act operation next⟩)⟩)
    (value : operation.Reply) (hreplies : Replies thread operation state value left) :
    Leads dump established first app
      ⟨left, Function.update threads thread (some ⟨call, next value⟩)⟩ := by
  have hreplied := hleads.tail (.serve (.reply (Function.update_self ..) hreplies))
  rwa [Function.update_idem] at hreplied

/-- A call of a thread returns. -/
theorem Leads.respond
    {threads : Thread → Option ((call : Call Bytes) × QueueProgram Bytes call.Result)}
    {state : Shared Thread Bytes} {thread : Thread} {call : Call Bytes} {result : call.Result}
    (hleads : Leads dump established first app
      ⟨state, Function.update threads thread (some ⟨call, .done result⟩)⟩)
    (hobserve : app.observe (.respond thread call result) = some after) :
    Leads dump established first after ⟨state, Function.update threads thread none⟩ := by
  have hreturned := hleads.tail (.observe (.respond (Function.update_self ..)) hobserve)
  rwa [Function.update_idem] at hreturned

/-- A step outside the queue leaves what has been read. -/
theorem received_of_act {size : ℕ} {deed : Deed}
    (hact : app.act dump established size deed = some after) : app.received <+: after.received := by
  unfold App.act at hact
  split at hact
  case h_6 message =>
    split_ifs at hact
    obtain rfl := Option.some.inj hact
    exact List.prefix_append app.received [message]
  case h_7 =>
    split at hact
    · obtain rfl := Option.some.inj hact
      exact List.prefix_rfl
    · cases hact
  all_goals
    split_ifs at hact <;> obtain rfl := Option.some.inj hact <;> exact List.prefix_rfl

/-- A call of the queue leaves what has been read. -/
theorem received_of_observe {action : Visible Thread (Call Bytes) Call.Result}
    (hobserve : app.observe action = some after) : after.received = app.received := by
  unfold App.observe at hobserve
  split at hobserve
  case h_7 => cases hobserve
  all_goals
    split_ifs at hobserve
    obtain rfl := Option.some.inj hobserve
    rfl

/-- What has been read stays. -/
theorem received_of_step {S : Type} {service : Service Thread (Call Bytes) Call.Result ℕ S}
    {served next : S}
    (hstep : (users dump established).Step service (app, served) (after, next)) :
    app.received <+: after.received := by
  cases hstep with
  | act acts =>
    obtain ⟨deed, -, hact⟩ := acts
    exact received_of_act hact
  | serve steps => exact List.prefix_rfl
  | observe steps observes => exact received_of_observe observes ▸ List.prefix_rfl

end Steps

/-- The queue goes with the calls of the threads where they are. -/
def Tracks (calls : Calls) (queue : Queue) : Prop :=
  Linearizes.Related ((grips Bytes).prod (works Bytes)) (fun context ↦ context.2.stage)
    (fun call result final ↦ final = (.free, .finished call result)) Ready calls queue

section Runs

variable {dump : Json → Option Bytes} {established : Bool} {app : App} {queue : Queue}
  {calls : Calls}

/-- The queue as it is does what it would do if its calls took effect at one moment each. -/
theorem program_matches : program.Matches atOnce Tracks :=
  linearizes.matches fun hready ↦ congrArg List.length hready.items.symm

/-- Nobody uses the queue at the start. -/
theorem tracks_started : Tracks ⟨Tsqueue.started [], fun _ ↦ none⟩ ⟨[], fun _ ↦ .idle⟩ :=
  Linearizes.related_start (fun _ ↦ rfl) (started_ready [])

/-- A client that has connected is one whose reader starts, or has nothing to read. -/
theorem exists_checked_connect (answer : WriteAnswer) (username : Bytes) :
    ∃ connected outgoing events, Checked dump (started username connected outgoing) events []
      (connect dump established answer (created username)) := by
  cases established with
  | true =>
    have hstarted : connect dump true answer (created username) =
        started username (connect dump true answer (created username)).connected
          (connect dump true answer (created username)).outgoing := by
      cases hdump : dump (envelope username username) <;>
        simp [connect, sendMessage, created, started, hdump]
    rw [hstarted]
    exact ⟨_, _, [], .nil _⟩
  | false => exact ⟨false, [], _, .snoc .testConnected (.nil (started username false [])) rfl⟩

/-- What the application comes to with calls that take effect at one moment each, its client comes
to. -/
theorem exists_checked
    (hsteps : Relation.ReflTransGen ((users dump established).Step atOnce)
      ({}, ⟨[], fun _ ↦ .idle⟩) (app, queue)) :
    app.Fits queue ∧ (app.screen ≠ .connecting → ∃ username connected outgoing events,
      Checked dump (started username connected outgoing) events app.looks (app.view queue)) := by
  generalize hlast : (app, queue) = last at hsteps
  induction hsteps generalizing app queue with
  | refl =>
    obtain ⟨rfl, rfl⟩ := Prod.mk.inj hlast
    exact ⟨⟨.idle _, .idle _, fun _ ↦ ⟨rfl, rfl⟩⟩, fun hchatting ↦ absurd rfl hchatting⟩
  | @tail middle last earlier hstep ih =>
    obtain ⟨before, between⟩ := middle
    subst hlast
    obtain ⟨hfits, hrun⟩ := ih rfl
    obtain ⟨hafter, -, hmirrored⟩ := mirrored_of_step hfits hstep
    refine ⟨hafter, fun _ ↦ ?_⟩
    cases hmirrored with
    | connected username answer typed connecting client looks given =>
      obtain ⟨connected, outgoing, events, hchecked⟩ := exists_checked_connect answer username
      rw [client, looks]
      exact ⟨username, connected, outgoing, events, hchecked⟩
    | unseen chatting client looks given =>
      rw [client, looks]
      exact hrun chatting
    | stepped chatting event steps looks given =>
      obtain ⟨username, connected, outgoing, events, hchecked⟩ := hrun chatting
      rw [looks]
      exact ⟨username, connected, outgoing, _, hchecked.snoc event steps⟩

/-- Before the user connects there is nothing out of order, as there is nothing. -/
theorem orderly_unconnected (hfits : app.Fits queue) (hconnecting : app.screen = .connecting) :
    (app.view queue).Orderly app.looks := by
  have hreader : queue.stages .reader = .idle :=
    hfits.reader.idle_of_ne (by rw [(hfits.unconnected hconnecting).1]; nofun)
  have hwindow : queue.stages .window = .idle :=
    hfits.window.idle_of_ne (by simp [hconnecting]) (by simp [hconnecting])
  obtain ⟨rfl, hitems⟩ := hfits.unconnected hconnecting
  constructor <;>
    simp [App.view, App.client, App.taken, Reader.at, Screen.at, handed, receivedTexts,
      State.unchecked, State.unpushed, admitted, hitems, hreader, hwindow]

/-- The queue of the application, its threads and the looks at the size so far are in order. -/
theorem Reaches.exists_orderly (hreaches : Reaches dump established app calls) :
    ∃ queue, Tracks calls queue ∧ app.Fits queue ∧ (app.view queue).Orderly app.looks := by
  obtain ⟨queue, htracks, hsteps⟩ := Users.reaches program_matches hreaches tracks_started
  obtain ⟨hfits, hchecked⟩ := exists_checked hsteps
  refine ⟨queue, htracks, hfits, ?_⟩
  by_cases hconnecting : app.screen = .connecting
  · exact orderly_unconnected hfits hconnecting
  · obtain ⟨username, connected, outgoing, events, hrun⟩ := hchecked hconnecting
    exact hrun.orderly (started_orderly username connected outgoing)

/-- The items of the deque. -/
theorem Tracks.items (htracks : Tracks calls queue) : queue.items = calls.state.deqQueue := by
  obtain ⟨contexts, hready, -, -⟩ := htracks
  exact hready.items

/-- A thread that is in no call makes none. -/
theorem Tracks.idle (htracks : Tracks calls queue) {thread : Thread}
    (hthread : calls.threads thread = none) : queue.stages thread = .idle := by
  obtain ⟨contexts, -, hthreads, hstages⟩ := htracks
  have hok := hthreads thread
  rw [hthread] at hok
  rw [hstages]
  exact hok

/-- A call that comes to an access that needs an item takes it out or looks at it. -/
theorem exists_invoked_of_needsItem {work : Work Bytes} {access : Access Bytes}
    (haccess : work.Accesses access) (hneeds : access.NeedsItem) :
    ∃ call, work.stage = .invoked call ∧ call ≠ .empty ∧ ∀ message, call ≠ .pushBack message := by
  unfold Work.Accesses at haccess
  split at haccess
  case h_12 => exact haccess.elim
  case h_7 => exact (haccess ▸ hneeds).elim
  case h_8 => exact (haccess ▸ hneeds).elim
  case h_9 => exact hneeds.elim
  case h_10 => exact hneeds.elim
  case h_11 => exact hneeds.elim
  all_goals exact ⟨_, rfl, nofun, nofun⟩

/-- A thread at an access that needs an item is the window, which takes a message. -/
theorem taking_of_needsItem (htracks : Tracks calls queue) (hfits : app.Fits queue)
    {thread : Thread} {call : Call Bytes} {access : Access Bytes}
    {rest : access.Reply → QueueProgram Bytes call.Result}
    (hthread : calls.threads thread = some ⟨call, .act (.deque access) rest⟩)
    (hneeds : access.NeedsItem) :
    app.screen = .taking ∧ ∃ made, queue.stages .window = .invoked made := by
  obtain ⟨contexts, -, hthreads, hstages⟩ := htracks
  have hok := hthreads thread
  rw [hthread] at hok
  obtain ⟨made, hmade, hempty, hpush⟩ := exists_invoked_of_needsItem hok.1.2 hneeds
  have hstage : queue.stages thread = .invoked made := by
    rw [hstages]
    exact hmade
  cases thread with
  | window =>
    have hwindow := hfits.window
    rw [hstage] at hwindow
    rcases hwindow.of_invoked with ⟨-, hasks⟩ | ⟨hscreen, -⟩
    · exact absurd hasks hempty
    · exact ⟨hscreen, made, hstage⟩
  | reader =>
    have hreader := hfits.reader
    rw [hstage] at hreader
    obtain ⟨message, -, hpushes⟩ := hreader.of_invoked
    exact absurd hpushes (hpush message)

/-- The client is about to look at the size of the queue exactly if the application is. -/
theorem unchecked_view (hfits : app.Fits queue) :
    (app.client queue.items).unchecked = (app.view queue).unchecked := by
  have hreader := hfits.reader
  simp only [State.unchecked, App.view, App.client]
  generalize queue.stages .reader = stage at hreader ⊢
  generalize app.reader = reader at hreader ⊢
  cases hreader with
  | _ => rfl

/-- A call takes at most one message out of the queue. -/
theorem length_handed_le (stage : CallStage) : (handed stage).length ≤ 1 := by
  unfold handed
  split
  · exact Nat.le_refl 1
  · exact Nat.zero_le 1

/-- The reader is about to push at most one message. -/
theorem length_unpushed_le (state : State) : state.unpushed.length ≤ 1 := by
  unfold State.unpushed
  split <;> simp

/-- In every interleaving of the two threads of the application with each step of the calls they
make: the front of the deque is accessed only when there is one, and the deque holds at most 251
messages. Each chunk read is looked at the size of the deque for. The texts the window shows that
came out of the queue, with the one it may have in its hands, the deque, and the one the reader may
be pushing, are the chunks for which the deque held at most 250 messages then, in their order. -/
theorem appReceives (hreaches : Reaches dump established app calls) :
    (∀ thread call access rest, calls.threads thread = some ⟨call, .act (.deque access) rest⟩ →
      access.NeedsItem → calls.state.deqQueue ≠ []) ∧
    calls.state.deqQueue.length ≤ 251 ∧
    app.looks.map Prod.fst ++ (app.client calls.state.deqQueue).unchecked = app.received ∧
    ∃ inHand waiting,
      receivedTexts app.messages ++ inHand ++ calls.state.deqQueue ++ waiting =
        (app.looks.filter fun look ↦ look.2 ≤ 250).map Prod.fst ∧
      inHand.length ≤ 1 ∧ waiting.length ≤ 1 ∧ (calls.threads .window = none → inHand = []) ∧
      (calls.threads .reader = none →
        waiting = (app.client calls.state.deqQueue).unpushed) := by
  obtain ⟨queue, htracks, hfits, horderly⟩ := hreaches.exists_orderly
  rw [← htracks.items]
  refine ⟨fun thread call access rest hthread hneeds ↦ ?_, horderly.bounded, ?_,
    handed (queue.stages .window), (app.view queue).unpushed, ?_, ?_, ?_, ?_, ?_⟩
  · obtain ⟨htaking, made, hinvoked⟩ := taking_of_needsItem htracks hfits hthread hneeds
    refine horderly.nonempty ?_
    simp [App.view, Screen.at, hinvoked, htaking]
  · rw [unchecked_view hfits]
    exact horderly.looked
  · exact horderly.kept
  · exact length_handed_le _
  · exact length_unpushed_le _
  · intro hwindow
    rw [htracks.idle hwindow]
    rfl
  · intro hreader
    simp only [App.view, App.client, htracks.idle hreader]
    rfl

end Runs

/-- The application when its reader has put its first chunk into the deque and is still in the
call. -/
def pushingApp : App :=
  { ({} : App).connect (Serializer.dump fun _ ↦ []) true .whole (ascii "k") with
    reader := .pushing [104, 105]
    received := [[104, 105]]
    looks := [([104, 105], 0)] }

/-- The chunk is in the deque. -/
theorem reaches_pushingApp :
    ∃ calls, Reaches (Serializer.dump fun _ ↦ []) true pushingApp calls ∧
      calls.state.deqQueue = [[104, 105]] := by
  have hstart : Reaches (Serializer.dump fun _ ↦ []) true {}
      ⟨Tsqueue.started [], fun _ ↦ none⟩ := .refl
  have htyped : Typed 128 (ascii "k") := ⟨by decide, ⟨['k'], by decide⟩, by simp [ascii]⟩
  have hconnected := hstart.act (.connect (ascii "k") .whole) htyped rfl
  have hread := (hconnected.act .testConnected trivial rfl).act (.readSome (.data [104, 105]))
    trivial rfl
  have hchecked : Reaches (Serializer.dump fun _ ↦ []) true pushingApp _ :=
    hread.act .checkSize trivial rfl
  have hcalls : pushingApp.observe (.invoke .reader (.pushBack [104, 105])) = some pushingApp := by
    simp [App.observe, pushingApp]
  have hcalled := hchecked.invoke .reader (.pushBack [104, 105]) rfl hcalls
  have hlocked := hcalled.reply () ⟨rfl, rfl⟩
  exact ⟨_, hlocked.reply () ⟨[[104, 105]], rfl, rfl⟩, rfl⟩

/-- It is not pushed twice. -/
theorem appReceives_pushingApp :
    ∃ calls : Calls, Reaches (Serializer.dump fun _ ↦ []) true pushingApp calls ∧
      calls.state.deqQueue = [[104, 105]] ∧
      (∀ thread call access rest, calls.threads thread = some ⟨call, .act (.deque access) rest⟩ →
        access.NeedsItem → calls.state.deqQueue ≠ []) ∧
      calls.state.deqQueue.length ≤ 251 ∧
      pushingApp.looks.map Prod.fst ++ (pushingApp.client calls.state.deqQueue).unchecked =
        pushingApp.received ∧
      ∃ inHand waiting,
        receivedTexts pushingApp.messages ++ inHand ++ calls.state.deqQueue ++ waiting =
          (pushingApp.looks.filter fun look ↦ look.2 ≤ 250).map Prod.fst ∧
        inHand.length ≤ 1 ∧ waiting.length ≤ 1 ∧ (calls.threads .window = none → inHand = []) ∧
        (calls.threads .reader = none →
          waiting = (pushingApp.client calls.state.deqQueue).unpushed) := by
  obtain ⟨calls, hreaches, hdeque⟩ := reaches_pushingApp
  exact ⟨calls, hreaches, hdeque, appReceives hreaches⟩

end KoboldKhat.Client
