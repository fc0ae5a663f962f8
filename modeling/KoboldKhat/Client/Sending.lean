import KoboldKhat.Framing
import KoboldKhat.Serializer.Dump

/-!
# How a message fails to be sent

`Client::sendMessage` serializes a message and writes it, and one handler catches what either of
them throws. The serializer throws on bytes that are not UTF-8, before anything is written, and the
handler takes the connection for lost although it is not. So a message fails cleanly, whatever
happens to the write, exactly when it and the name of the user are valid (`failsCleanly_iff`).

On strings that need no escapes the serializer of the library gives the texts that are used for
documents elsewhere (`dump_eq_plainText`).
-/

set_option autoImplicit false
set_option relaxedAutoImplicit false

namespace KoboldKhat.Client

open Library Serializer

/-- Either the complete document with both strings is handed to the write, and the client is
disconnected only if the write fails; or nothing is written, and the client is as connected as it
was. -/
def FailsCleanly (parse : Bytes → Option Json) (dump : Json → Option Bytes) (answer : WriteAnswer)
    (message : Bytes) (state : State) : Prop :=
  (∃ document, dump (envelope state.username message) = some document ∧
    IsComplete parse (envelope state.username message) document ∧
    (sendMessage dump answer message state).outgoing = state.outgoing ++ answer.sent document ∧
    ((sendMessage dump answer message state).connected = false → answer.returns = false)) ∨
  ((sendMessage dump answer message state).outgoing = state.outgoing ∧
    (sendMessage dump answer message state).connected = state.connected)

section Sending

variable {parse : Bytes → Option Json} {dump : Json → Option Bytes} {answer : WriteAnswer}
  {message document : Bytes} {state : State}

/-- A connected client hands the text of a message to the write, and is connected after it if it
returns. -/
theorem sendMessage_of_some (hconnected : state.connected = true)
    (hdump : dump (envelope state.username message) = some document) :
    sendMessage dump answer message state =
      { state with
        outgoing := state.outgoing ++ answer.sent document
        connected := answer.returns } := by
  unfold sendMessage
  rw [if_pos hconnected, hdump]

/-- A connected client that cannot serialize a message writes nothing, and is no longer
connected. -/
theorem sendMessage_of_none (hconnected : state.connected = true)
    (hdump : dump (envelope state.username message) = none) :
    sendMessage dump answer message state = { state with connected := false } := by
  unfold sendMessage
  rw [if_pos hconnected, hdump]

/-- For every name, every message and every outcome of the write: a connected client fails cleanly
exactly when both strings are valid. The serializer throws on the strings that are not valid, and
what it gives otherwise is a complete document for the envelope. -/
theorem failsCleanly_iff (hconnected : state.connected = true) (hthrows : ThrowsOnInvalid dump)
    (hdocument : ∀ document, dump (envelope state.username message) = some document →
      IsComplete parse (envelope state.username message) document) :
    FailsCleanly parse dump answer message state ↔ IsUtf8 state.username ∧ IsUtf8 message := by
  have hinvalid := (hthrows _).trans (exists_invalid_envelope_iff state.username message)
  unfold FailsCleanly
  cases hdump : dump (envelope state.username message) with
  | none =>
    rw [sendMessage_of_none hconnected hdump, hconnected]
    refine iff_of_false ?_ (hinvalid.mp hdump)
    rintro (⟨document, hnone, -⟩ | ⟨-, hlost⟩)
    · cases hnone
    · cases hlost
  | some document =>
    rw [sendMessage_of_some hconnected hdump]
    have hvalid : IsUtf8 state.username ∧ IsUtf8 message := by
      by_contra hnot
      rw [hinvalid.mpr hnot] at hdump
      cases hdump
    exact iff_of_true (.inl ⟨document, rfl, hdocument document hdump, rfl, id⟩) hvalid

end Sending

/-- For plain strings the text of an envelope is what the serializer writes. -/
theorem dump_eq_plainText {username message : Bytes} (husername : ∀ byte ∈ username, IsPlain byte)
    (hmessage : ∀ byte ∈ message, IsPlain byte) (toChars : Double → Bytes) :
    Serializer.dump toChars (envelope username message) =
      plainText (envelope username message) := by
  rw [dump_envelope (isUtf8_of_plain husername) (isUtf8_of_plain hmessage),
    flatMap_escapeByte_of_plain husername, flatMap_escapeByte_of_plain hmessage]
  rfl

/-- A valid message whose write fails after three bytes. -/
theorem failsCleanly_of_hi :
    FailsCleanly parseWords dumpWords (.cut 3) (ascii "hi") { username := ascii "k" } := by
  have hname : IsUtf8 (ascii "k") := ⟨['k'], by decide⟩
  have hmessage : IsUtf8 (ascii "hi") := ⟨['h', 'i'], by decide⟩
  have hdocument : ∀ document, dumpWords (envelope (ascii "k") (ascii "hi")) = some document →
      IsComplete parseWords (envelope (ascii "k") (ascii "hi")) document := by
    intro document hwritten
    have hdump := Parser.dump_envelope_eq hname hmessage fun _ ↦ []
    obtain rfl := Option.some.inj (hdump.symm.trans hwritten)
    exact (isDocument_document hname hmessage).toIsComplete
  exact (@failsCleanly_iff parseWords dumpWords (.cut 3) (ascii "hi") { username := ascii "k" } rfl
    (dump_throwsOnInvalid fun _ ↦ []) hdocument).mpr ⟨hname, hmessage⟩

/-- A message of one byte that is no character disconnects a client whose connection is good, and
for which nothing is written. -/
theorem not_failsCleanly_of_invalid :
    ThrowsOnInvalid dumpWords ∧ dumpWords (envelope (ascii "k") [0xFF]) = none ∧
      ¬ FailsCleanly parseWords dumpWords .whole [0xFF] { username := ascii "k" } := by
  have hdump : dumpWords (envelope (ascii "k") [0xFF]) = none := by decide
  refine ⟨dump_throwsOnInvalid fun _ ↦ [], hdump, ?_⟩
  have hsent := @sendMessage_of_none dumpWords .whole [0xFF] { username := ascii "k" } rfl hdump
  unfold FailsCleanly
  rw [hsent]
  rintro (⟨document, hwritten, -⟩ | ⟨-, hlost⟩)
  · cases hdump.symm.trans hwritten
  · cases hlost

end KoboldKhat.Client
