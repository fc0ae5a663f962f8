import KoboldKhat.Client.AppRefinement

/-!
# What the user types

The window calls `Client::sendMessage` with what `ImGui::InputText` leaves in its buffers, and with
nothing else. Such a text is valid, so the serializer never throws on it: only the network can
disconnect the application, and until it does everything typed is on the stream (`appSends`). And a
name of at most 127 bytes and a message of at most 255 give a document that fits the 1024 bytes of
one read of the server, since no control character has to be escaped.
-/

set_option autoImplicit false
set_option relaxedAutoImplicit false

namespace KoboldKhat.Client

open Library Tsqueue Serializer KoboldKhat.Parser

/-! ### Lengths -/

/-- A byte that is no control character is written as one byte or two. -/
theorem length_escapeByte_le {byte : UInt8} (hprintable : 0x20 ≤ byte) :
    (escapeByte byte).length ≤ 2 := by
  have hlarge : 0x20 ≤ byte.toNat := UInt8.le_iff_toNat_le.mp hprintable
  unfold escapeByte escapeAccepted
  split
  all_goals try omega
  · exact Nat.le_refl 2
  · exact Nat.le_refl 2
  · rw [if_neg (by omega)]
    exact Nat.le_succ 1

/-- A text without control characters becomes at most twice as long. -/
theorem length_flatMap_escapeByte_le {text : Bytes} (hprintable : ∀ byte ∈ text, 0x20 ≤ byte) :
    (text.flatMap escapeByte).length ≤ 2 * text.length := by
  induction text with
  | nil => exact Nat.le_refl 0
  | cons byte text ih =>
    obtain ⟨hbyte, htext⟩ := List.forall_mem_cons.mp hprintable
    have hfirst := length_escapeByte_le hbyte
    have hrest := ih htext
    rw [List.flatMap_cons, List.length_append, List.length_cons]
    omega

/-- What fits a buffer fits a larger one. -/
theorem Typed.mono {size larger : ℕ} {text : Bytes} (htyped : Typed size text)
    (hle : size ≤ larger) : Typed larger text :=
  ⟨htyped.fits.trans_le hle, htyped.valid, htyped.printable⟩

/-- The document of a message that is typed, under a name that is typed, fits one read. -/
theorem length_document_le {username message : Bytes} (husername : Typed 128 username)
    (hmessage : Typed 256 message) : (document username message).length ≤ 1024 := by
  have hname := length_flatMap_escapeByte_le husername.printable
  have htext := length_flatMap_escapeByte_le hmessage.printable
  have hnamefits := husername.fits
  have htextfits := hmessage.fits
  have hkeys : (ascii "\x7b\"message\":\"").length = 12 ∧
      (ascii "\",\"username\":\"").length = 14 ∧ (ascii "\"\x7d").length = 2 := by decide
  simp only [document, List.length_append, hkeys]
  omega

/-! ### What is sent -/

/-- What holds between what the user has typed, what the client was given to send and what is on the
stream. -/
structure App.Sends (established : Bool) (app : App) : Prop where
  unconnected : app.screen = .connecting → app = {}
  given : app.screen ≠ .connecting →
    app.given = (if established then [app.username] else []) ++ ownTexts app.messages
  name : Typed 128 app.username
  typed : ∀ message ∈ app.given, Typed 256 message
  wrote : ∃ written, (app.client []).Wrote app.given written
  failed : app.screen ≠ .connecting → app.connected = false → app.networkFailed = true

section Sending

variable {toChars : Double → Bytes} {established : Bool} {app after : App} {size : ℕ}

@[simp] theorem ownTexts_concat_received (messages : List Entry) (text : Bytes) :
    ownTexts (messages ++ [.received text]) = ownTexts messages := by
  simp [ownTexts]

@[simp] theorem ownTexts_concat_own (messages : List Entry) (text : Bytes) :
    ownTexts (messages ++ [.own text]) = ownTexts messages ++ [text] := by
  simp [ownTexts]

/-- There is nothing before the user connects. -/
theorem sends_start (established : Bool) : ({} : App).Sends established where
  unconnected := fun _ ↦ rfl
  given := fun hchatting ↦ absurd rfl hchatting
  name := ⟨by decide, ⟨[], rfl⟩, nofun⟩
  typed := nofun
  wrote := ⟨[], List.prefix_rfl, nofun, List.prefix_rfl, fun _ ↦ ⟨rfl, rfl⟩⟩
  failed := fun hchatting ↦ absurd rfl hchatting

/-- A step that sends nothing keeps what was sent, and disconnects only when the network fails. -/
theorem App.Sends.of_eq (hsends : app.Sends established) (hchatting : app.screen ≠ .connecting)
    (hscreen : after.screen ≠ .connecting) (hname : after.username = app.username)
    (hgiven : after.given = app.given) (hown : ownTexts after.messages = ownTexts app.messages)
    (houtgoing : after.outgoing = app.outgoing)
    (hconnected : after.connected = app.connected ∧ after.networkFailed = app.networkFailed ∨
      after.connected = false ∧ after.networkFailed = true) :
    after.Sends established where
  unconnected := fun hconnecting ↦ absurd hconnecting hscreen
  given := fun _ ↦ by rw [hgiven, hname, hown, hsends.given hchatting]
  name := hname ▸ hsends.name
  typed := hgiven ▸ hsends.typed
  wrote := by
    obtain ⟨written, hwrote⟩ := hsends.wrote
    rw [hgiven]
    rcases hconnected with ⟨hsame, -⟩ | ⟨hlost, -⟩
    · exact ⟨written, hwrote.of_eq hname houtgoing hsame⟩
    · refine ⟨written, ?_⟩
      have hleft : (after.client []).Wrote (app.given ++ []) written :=
        hwrote.lose [] hname houtgoing hlost
      rwa [List.append_nil] at hleft
  failed := fun _ hlost ↦ by
    rcases hconnected with ⟨hsame, hnetwork⟩ | ⟨-, hnetwork⟩
    · rw [hnetwork]
      exact hsends.failed hchatting (hsame ▸ hlost)
    · exact hnetwork

/-- A text that is typed disconnects a client only if its write fails. -/
theorem failsToWrite_of_disconnected {answer : WriteAnswer} {message : Bytes}
    (hconnected : app.connected = true) (husername : IsUtf8 app.username)
    (hmessage : IsUtf8 message)
    (hlost : (sendMessage (dump toChars) answer message (app.client [])).connected = false) :
    app.failsToWrite (dump toChars) answer message = true := by
  have hdump := dump_envelope_eq husername hmessage toChars
  have hclient : (app.client []).connected = true := hconnected
  rw [sendMessage_of_some hclient hdump] at hlost
  have hfails : answer.returns = false := hlost
  simp [App.failsToWrite, hconnected, hdump, hfails]

/-- The user sends a message. -/
theorem App.Sends.send (hsends : app.Sends established) (hscreen : app.screen = .typing)
    {message : Bytes} (htyped : Typed 256 message) (answer : WriteAnswer) :
    { app.send (dump toChars) answer message with
      screen := .draining
      messages := app.messages ++ [Entry.own message] }.Sends established := by
  have hchatting : app.screen ≠ .connecting := by rw [hscreen]; decide
  have hname : (sendMessage (dump toChars) answer message (app.client [])).username =
      app.username := (sendMessage_keeps answer message (app.client [])).1
  obtain ⟨written, hwrote⟩ := hsends.wrote
  refine ⟨nofun, fun _ ↦ ?_, ?_, ?_, ?_, fun _ hlost ↦ ?_⟩
  · simp only [App.send, App.withClient, ownTexts_concat_own]
    rw [hname, hsends.given hchatting, List.append_assoc]
  · simp only [App.send, App.withClient]
    rw [hname]
    exact hsends.name
  · exact List.forall_mem_append.mpr ⟨hsends.typed, List.forall_mem_singleton.mpr htyped⟩
  · obtain ⟨more, hmore⟩ := sendMessage_wrote hwrote answer message
    exact ⟨more, hmore.of_eq rfl rfl rfl⟩
  · by_cases hconnected : app.connected = true
    · have hwrites :=
        failsToWrite_of_disconnected hconnected hsends.name.valid htyped.valid hlost
      simp only [App.send, App.withClient, hwrites, Bool.or_true]
    · rw [Bool.not_eq_true] at hconnected
      simp only [App.send, App.withClient, hsends.failed hchatting hconnected, Bool.true_or]

/-- The user connects. -/
theorem sends_connect {username : Bytes} (htyped : Typed 128 username) (answer : WriteAnswer) :
    (({} : App).connect (dump toChars) established answer username).Sends established := by
  cases established with
  | false =>
    refine ⟨nofun, fun _ ↦ rfl, htyped, nofun, ⟨[], ?_⟩, fun _ _ ↦ rfl⟩
    exact ⟨List.prefix_rfl, nofun, List.prefix_rfl, nofun⟩
  | true =>
    have hname := (@connect_keeps toChars username answer).1
    refine ⟨nofun, fun _ ↦ ?_, ?_, ?_, ?_, fun _ hlost ↦ ?_⟩
    · simp only [App.connect, App.withClient, hname]
      rfl
    · simp only [App.connect, App.withClient, hname]
      exact htyped
    · exact List.forall_mem_singleton.mpr (htyped.mono (by decide))
    · obtain ⟨written, hwrote⟩ := @connect_wrote toChars username answer
      exact ⟨written, hwrote.of_eq rfl rfl rfl⟩
    · have hwrites := @failsToWrite_of_disconnected toChars { username, connected := true } answer
        username rfl htyped.valid htyped.valid hlost
      simp only [App.connect, App.withClient, hwrites, Bool.or_true]

/-- A step outside the queue keeps what was sent. -/
theorem App.Sends.act (hsends : app.Sends established) {deed : Deed} (htyped : deed.IsTyped)
    (hact : app.act (dump toChars) established size deed = some after) :
    after.Sends established := by
  have hruns : app.reader ≠ .finished → app.screen ≠ .connecting := by
    intro hreader hconnecting
    rw [hsends.unconnected hconnecting] at hreader
    exact hreader rfl
  cases deed with
  | connect username answer =>
    simp only [App.act] at hact
    split_ifs at hact with hconnecting
    obtain rfl := Option.some.inj hact
    rw [hsends.unconnected hconnecting]
    exact sends_connect htyped answer
  | send message answer =>
    simp only [App.act] at hact
    split_ifs at hact with hscreen
    obtain rfl := Option.some.inj hact
    exact hsends.send hscreen htyped answer
  | nextFrame =>
    simp only [App.act] at hact
    split_ifs at hact with hscreen
    obtain rfl := Option.some.inj hact
    exact hsends.of_eq (by rw [hscreen]; decide) (by simp) rfl rfl rfl rfl (Or.inl ⟨rfl, rfl⟩)
  | testConnected =>
    simp only [App.act] at hact
    split at hact
    case isFalse => cases hact
    case isTrue hlooping =>
      obtain rfl := Option.some.inj hact
      have hchatting := hruns (by rw [hlooping]; decide)
      exact hsends.of_eq hchatting hchatting rfl rfl rfl rfl (Or.inl ⟨rfl, rfl⟩)
  | readSome result =>
    cases result with
    | error =>
      simp only [App.act] at hact
      split_ifs at hact with hready
      obtain rfl := Option.some.inj hact
      have hchatting := hruns (by rw [hready]; decide)
      exact hsends.of_eq hchatting hchatting rfl rfl rfl rfl (Or.inr ⟨rfl, rfl⟩)
    | data message =>
      simp only [App.act] at hact
      split_ifs at hact with hready
      obtain rfl := Option.some.inj hact
      have hchatting := hruns (by rw [hready.1]; decide)
      exact hsends.of_eq hchatting hchatting rfl rfl rfl rfl (Or.inl ⟨rfl, rfl⟩)
  | checkSize =>
    simp only [App.act] at hact
    split at hact
    case h_2 => cases hact
    case h_1 message hreader =>
      obtain rfl := Option.some.inj hact
      have hchatting := hruns (by simp [hreader])
      exact hsends.of_eq hchatting hchatting rfl rfl rfl rfl (Or.inl ⟨rfl, rfl⟩)

/-- A call on the queue sends nothing. -/
theorem App.Sends.observe (hsends : app.Sends established)
    {action : Visible Thread (Call Bytes) Call.Result}
    (hobserve : app.observe action = some after) : after.Sends established := by
  have hruns : app.reader ≠ .finished → app.screen ≠ .connecting := by
    intro hreader hconnecting
    rw [hsends.unconnected hconnecting] at hreader
    exact hreader rfl
  unfold App.observe at hobserve
  split at hobserve
  case h_7 => cases hobserve
  case h_2 isEmpty =>
    split_ifs at hobserve with hscreen
    obtain rfl := Option.some.inj hobserve
    have hchats : (app.answered isEmpty).screen ≠ .connecting := by
      cases isEmpty <;> nofun
    exact hsends.of_eq (by rw [hscreen]; decide) hchats rfl rfl rfl rfl (Or.inl ⟨rfl, rfl⟩)
  case h_4 message =>
    split_ifs at hobserve with hscreen
    obtain rfl := Option.some.inj hobserve
    exact hsends.of_eq (by rw [hscreen]; decide) nofun rfl rfl (ownTexts_concat_received _ _) rfl
      (Or.inl ⟨rfl, rfl⟩)
  case h_6 message value =>
    split_ifs at hobserve with hreader
    obtain rfl := Option.some.inj hobserve
    have hchatting := hruns (by simp [hreader])
    exact hsends.of_eq hchatting hchatting rfl rfl rfl rfl (Or.inl ⟨rfl, rfl⟩)
  all_goals
    split_ifs at hobserve
    obtain rfl := Option.some.inj hobserve
    exact hsends

/-- What the application comes to keeps what was sent. -/
theorem Reaches.sends {calls : Calls} (hreaches : Reaches (dump toChars) established app calls) :
    app.Sends established := by
  unfold Reaches Leads at hreaches
  generalize hlast : (app, calls) = last at hreaches
  induction hreaches generalizing app calls with
  | refl =>
    obtain ⟨rfl, -⟩ := Prod.mk.inj hlast
    exact sends_start established
  | @tail middle last earlier hstep ih =>
    obtain ⟨before, between⟩ := middle
    subst hlast
    have hbefore := ih rfl
    cases hstep with
    | act acts =>
      obtain ⟨deed, htyped, hact⟩ := acts
      exact hbefore.act htyped hact
    | serve steps => exact hbefore
    | observe steps observes => exact hbefore.observe observes

/-- As long as the network does not fail, the application is connected. -/
theorem App.Sends.connected (hsends : app.Sends established) (hchatting : app.screen ≠ .connecting)
    (hnetwork : app.networkFailed = false) : app.connected = true := by
  by_contra hlost
  rw [Bool.not_eq_true] at hlost
  rw [hsends.failed hchatting hlost] at hnetwork
  cases hnetwork

/-- In every interleaving of the two threads of the application: `Client::sendMessage` is called
with the name and then the texts of the user that the window shows, each of which fits one read of
the server as a document. What is on the stream is the beginning of the documents of the first of
them. As long as the network does not fail, the application is connected, and the stream has the
documents of all. -/
theorem appSends {calls : Calls} (hreaches : Reaches (dump toChars) established app calls)
    (hchatting : app.screen ≠ .connecting) :
    app.given = (if established then [app.username] else []) ++ ownTexts app.messages ∧
      (∀ message ∈ app.given, (document app.username message).length ≤ 1024) ∧
      (∃ written, written <+: app.given ∧
        app.outgoing <+: (written.map (document app.username)).flatten) ∧
      (app.networkFailed = false → app.connected = true ∧
        app.outgoing = (app.given.map (document app.username)).flatten) := by
  have hsends := hreaches.sends
  obtain ⟨written, hwrote⟩ := hsends.wrote
  refine ⟨hsends.given hchatting, fun message hmessage ↦ ?_, ⟨written, hwrote.begins,
    hwrote.stream⟩, fun hnetwork ↦ ?_⟩
  · exact length_document_le hsends.name (hsends.typed message hmessage)
  · have hconnected := hsends.connected hchatting hnetwork
    obtain ⟨rfl, hstream⟩ := hwrote.whole hconnected
    exact ⟨hconnected, hstream⟩

end Sending

/-- The application when its user sends a message in the first frame. -/
def talkingApp : App :=
  { ((({} : App).connect (dump fun _ ↦ []) true .whole (ascii "k")).answered true).send
      (dump fun _ ↦ []) .whole (ascii "hi") with
    screen := .draining
    messages := [.own (ascii "hi")] }

/-- The window has found the queue empty before. -/
theorem reaches_talkingApp : ∃ calls, Reaches (dump fun _ ↦ []) true talkingApp calls := by
  have hstart : Reaches (dump fun _ ↦ []) true {} ⟨Tsqueue.started [], fun _ ↦ none⟩ := .refl
  have hname : Typed 128 (ascii "k") := ⟨by decide, ⟨['k'], by decide⟩, by simp [ascii]⟩
  have htext : Typed 256 (ascii "hi") := ⟨by decide, ⟨['h', 'i'], by decide⟩, by simp [ascii]⟩
  have hconnected := hstart.act (.connect (ascii "k") .whole) hname rfl
  have hasked := hconnected.invoke .window .empty rfl rfl
  have hlooked := (hasked.reply () ⟨rfl, rfl⟩).reply true ⟨[], rfl, rfl⟩
  have hanswered := (hlooked.reply () ⟨rfl, rfl⟩).respond rfl
  exact ⟨_, hanswered.act (.send (ascii "hi") .whole) htext rfl⟩

/-- The message is on the stream behind the name. -/
theorem appSends_talkingApp :
    (∃ calls, Reaches (dump fun _ ↦ []) true talkingApp calls) ∧
      talkingApp.given = (if true then [talkingApp.username] else []) ++
        ownTexts talkingApp.messages ∧
      (∀ message ∈ talkingApp.given, (document talkingApp.username message).length ≤ 1024) ∧
      (∃ written, written <+: talkingApp.given ∧
        talkingApp.outgoing <+: (written.map (document talkingApp.username)).flatten) ∧
      (talkingApp.networkFailed = false → talkingApp.connected = true ∧
        talkingApp.outgoing =
          (talkingApp.given.map (document talkingApp.username)).flatten) := by
  obtain ⟨calls, hreaches⟩ := reaches_talkingApp
  exact ⟨⟨calls, hreaches⟩, appSends hreaches nofun⟩

end KoboldKhat.Client
