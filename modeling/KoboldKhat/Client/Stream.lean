import KoboldKhat.Client.Sending
import KoboldKhat.Parser.Documents

/-!
# The stream a client writes

What a client has written of the messages it was given to send, with the serializer of the library
and whatever the network does to its writes. A connected client has written the documents of all of
them. The first message that cannot be serialized, and the first write that fails, end this for
good: the client is disconnected, and what it has written is the beginning of the documents of its
first messages (`State.Wrote`). Every step keeps it so (`step_wrote`), from the first message of
`Client::connect` on (`connect_wrote`).
-/

set_option autoImplicit false
set_option relaxedAutoImplicit false

namespace KoboldKhat.Client

open Library Serializer KoboldKhat.Parser

/-- Of the messages the client was given, the first ones have been handed to the network, and what
it took is the beginning of their documents. A connected client has written them all. -/
structure State.Wrote (state : State) (said written : List Bytes) : Prop where
  begins : written <+: said
  valid : ∀ message ∈ written, IsUtf8 state.username ∧ IsUtf8 message
  stream : state.outgoing <+: (written.map (document state.username)).flatten
  whole : state.connected = true →
    written = said ∧ state.outgoing = (written.map (document state.username)).flatten

/-- The message a step of the client is given to send. -/
def Event.said : Event → List Bytes
  | send message _ => [message]
  | _ => []

section Stream

variable {toChars : Double → Bytes} {state after : State} {said written : List Bytes}
  {message : Bytes}

/-- The serializer writes the document of an envelope exactly if its strings are valid. -/
theorem dump_envelope_eq_some_iff {username text : Bytes} :
    dump toChars (envelope username message) = some text ↔
      (IsUtf8 username ∧ IsUtf8 message) ∧ document username message = text := by
  constructor
  · intro hdump
    have hvalid : IsUtf8 username ∧ IsUtf8 message := by
      by_contra hnot
      rw [(dump_throwsOnInvalid toChars _).mpr
        ((exists_invalid_envelope_iff username message).mpr hnot)] at hdump
      cases hdump
    rw [dump_envelope_eq hvalid.1 hvalid.2, Option.some.injEq] at hdump
    exact ⟨hvalid, hdump⟩
  · rintro ⟨⟨husername, hmessage⟩, rfl⟩
    exact dump_envelope_eq husername hmessage toChars

/-- A client that is not connected any more has written what it had. -/
theorem State.Wrote.lose (hwrote : state.Wrote said written) (message : List Bytes)
    (hname : after.username = state.username) (hsame : after.outgoing = state.outgoing)
    (hlost : after.connected = false) : after.Wrote (said ++ message) written where
  begins := hwrote.begins.trans (List.prefix_append said message)
  valid := hname ▸ hwrote.valid
  stream := by rw [hsame, hname]; exact hwrote.stream
  whole := fun hconnected ↦ by cases hlost.symm.trans hconnected

/-- A step that touches neither the name, the stream nor the connection keeps what was written. -/
theorem State.Wrote.of_eq (hwrote : state.Wrote said written)
    (hname : after.username = state.username) (hsame : after.outgoing = state.outgoing)
    (hconnected : after.connected = state.connected) : after.Wrote said written where
  begins := hwrote.begins
  valid := hname ▸ hwrote.valid
  stream := by rw [hsame, hname]; exact hwrote.stream
  whole := by rw [hconnected, hsame, hname]; exact hwrote.whole

/-- Sending a message writes its document, or the beginning of it, or nothing. -/
theorem sendMessage_wrote (hwrote : state.Wrote said written) (answer : WriteAnswer)
    (message : Bytes) :
    ∃ more, (sendMessage (dump toChars) answer message state).Wrote (said ++ [message]) more := by
  by_cases hconnected : state.connected = true
  · cases hdump : dump toChars (envelope state.username message) with
    | none =>
      rw [sendMessage_of_none hconnected hdump]
      exact ⟨written, hwrote.lose [message] rfl rfl rfl⟩
    | some text =>
      rw [sendMessage_of_some hconnected hdump]
      obtain ⟨hvalid, rfl⟩ := dump_envelope_eq_some_iff.mp hdump
      obtain ⟨rfl, hstream⟩ := hwrote.whole hconnected
      have hsent := (List.prefix_append_right_inj state.outgoing).mpr
        (WriteAnswer.sent_isPrefix (document state.username message) answer)
      have hdocuments : ((written ++ [message]).map (document state.username)).flatten =
          state.outgoing ++ document state.username message := by
        rw [hstream, List.map_append, List.flatten_append]
        simp
      refine ⟨written ++ [message], List.prefix_rfl, ?_, hdocuments ▸ hsent, ?_⟩
      · exact List.forall_mem_append.mpr ⟨hwrote.valid, List.forall_mem_singleton.mpr hvalid⟩
      · intro hreturns
        refine ⟨rfl, ?_⟩
        rw [WriteAnswer.sent_of_returns hreturns]
        exact hdocuments.symm
  · rw [sendMessage, if_neg hconnected]
    rw [Bool.not_eq_true] at hconnected
    exact ⟨written, hwrote.lose [message] rfl rfl hconnected⟩

/-- Every step of a client that is not a message to send leaves its stream alone. -/
theorem step_wrote (hwrote : state.Wrote said written) {event : Event}
    (hstep : step (dump toChars) state event = some after) :
    ∃ more, after.Wrote (said ++ event.said) more := by
  cases stepped_of_step hstep with
  | readError looping => exact ⟨written, hwrote.lose [] rfl rfl rfl⟩
  | send message answer => exact sendMessage_wrote hwrote answer message
  | _ =>
    simp only [Event.said, List.append_nil]
    exact ⟨written, hwrote.of_eq rfl rfl rfl⟩

/-- A client that has connected has written its name, or the beginning of it, or nothing. -/
theorem connect_wrote (username : Bytes) (answer : WriteAnswer) :
    ∃ written,
      (connect (dump toChars) true answer (created username)).Wrote [username] written := by
  have hnothing : { created username with connected := true }.Wrote [] [] :=
    ⟨List.prefix_rfl, fun _ hnone ↦ absurd hnone List.not_mem_nil, List.prefix_rfl,
      fun _ ↦ ⟨rfl, rfl⟩⟩
  obtain ⟨written, hwrote⟩ := @sendMessage_wrote toChars _ _ _ hnothing answer username
  exact ⟨written, hwrote.of_eq rfl rfl rfl⟩

/-- Sending a message leaves the name of the client, and what has been written. -/
theorem sendMessage_keeps (answer : WriteAnswer) (message : Bytes) (state : State) :
    (sendMessage (dump toChars) answer message state).username = state.username ∧
      state.outgoing <+: (sendMessage (dump toChars) answer message state).outgoing := by
  unfold sendMessage
  split_ifs
  · cases dump toChars (envelope state.username message) with
    | none => exact ⟨rfl, List.prefix_rfl⟩
    | some text => exact ⟨rfl, List.prefix_append _ _⟩
  · exact ⟨rfl, List.prefix_rfl⟩

/-- Every step leaves the name of the client, and what has been written. -/
theorem step_keeps {event : Event} (hstep : step (dump toChars) state event = some after) :
    after.username = state.username ∧ state.outgoing <+: after.outgoing := by
  cases stepped_of_step hstep with
  | send message answer => exact sendMessage_keeps answer message state
  | _ => exact ⟨rfl, List.prefix_rfl⟩

/-- A client that has just connected has its name, and has read nothing. -/
theorem connect_keeps (username : Bytes) (answer : WriteAnswer) :
    (connect (dump toChars) true answer (created username)).username = username ∧
      (connect (dump toChars) true answer (created username)).received = [] :=
  ⟨(sendMessage_keeps answer username _).1, (sendMessage_frame (dump toChars) answer username _).1⟩

end Stream

end KoboldKhat.Client
