import Mathlib.Data.List.Basic
import Mathlib.Data.Nat.Notation

/-!
# Strings, JSON values and the lines of the chat

The data the chat server works on. A `std::string` is the list of its bytes. `Json` is the value
`nlohmann::json::parse` returns, with the library's three kinds of number, and with the two accesses
`Server::handleMessage` makes: the constant `operator[]` with a string key, and the conversion to
`std::string`. `InputStream` is the `std::istringstream` of the `/dm` command with `operator>>` and
`std::getline`, and `parseDirectMessage` is what `handleMessage` reads with it. The five kinds of
line the server sends are `joinedLine`, `disconnectedLine`, `chatLine`, `directLine` and
`notFoundLine`.

`messageFields` is what the envelope of a message amounts to: the pair of its texts, or the fault of
the first access that fails. `messageFields_eq_ok_iff` says when both accesses succeed, and
`messageFields_envelope` that they do on what the client sends.
-/

set_option autoImplicit false
set_option relaxedAutoImplicit false

namespace KoboldKhat

/-- How a handler can end without returning: an exception leaves it, it reads through an invalid
iterator or at an absent key, it locks a mutex its own thread holds, or it calls deeper than the
bound of the run. -/
inductive Fault
  | exception
  | invalidAccess
  | relocked
  | exhausted
  deriving DecidableEq

/-! ### Strings -/

/-- A `std::string`, as its bytes. -/
abbrev Bytes := List UInt8

/-- The bytes of a string literal of the source, all of them ASCII. -/
def ascii (text : String) : Bytes :=
  text.toList.map fun character ↦ character.toNat.toUInt8

/-- `std::isspace` in the C locale: blank, tab, line feed, vertical tab, form feed, return. -/
def isSpace (byte : UInt8) : Bool :=
  byte == 32 || (9 ≤ byte && byte ≤ 13)

/-- The bytes `" \n\r\t"` that the read handler skips a chunk of. -/
def isBlank (byte : UInt8) : Bool :=
  byte == 32 || byte == 10 || byte == 13 || byte == 9

/-! ### JSON values -/

/-- A `double`, as its bits: a sign, eleven bits of exponent, and the fraction. -/
abbrev Double := BitVec 64

/-- `std::isfinite`: the largest exponent is that of the infinities and of what is no number. -/
def Double.isFinite (value : Double) : Bool :=
  value.extractLsb' 52 11 != 0x7FF#11

/-- A number of the library: a `std::uint64_t`, a `std::int64_t` or a `double`. -/
inductive Number
  | unsigned (value : UInt64)
  | integer (value : Int64)
  | float (value : Double)
  deriving DecidableEq

/-- The number is not an infinity, and is a number. -/
def Number.isFinite : Number → Bool
  | unsigned _ | integer _ => true
  | float value => value.isFinite

/-- A JSON value. -/
inductive Json
  | null
  | boolean (value : Bool)
  | number (value : Number)
  | text (value : Bytes)
  | array (elements : List Json)
  | object (members : List (Bytes × Json))

namespace Json

/-- The constant `operator[]` with a string key: it throws on a value that is not an object, and
on an object without the key it dereferences the end iterator. -/
def index (key : Bytes) : Json → Except Fault Json
  | object members =>
    match members.lookup key with
    | some value => .ok value
    | none => .error .invalidAccess
  | _ => .error .exception

/-- The conversion to `std::string`: it throws on a value that is not a string. -/
def toText : Json → Except Fault Bytes
  | text value => .ok value
  | _ => .error .exception

/-- A member of a JSON object read into a `std::string`. -/
def textAt (key : Bytes) (value : Json) : Except Fault Bytes :=
  (value.index key).bind toText

/-- The value is an object that holds a string under the key. -/
def HoldsText (key : Bytes) (value : Json) : Prop :=
  ∃ members content, value = object members ∧ members.lookup key = some (text content)

theorem textAt_eq_ok_iff (key : Bytes) (value : Json) (content : Bytes) :
    value.textAt key = .ok content ↔
      ∃ members, value = object members ∧ members.lookup key = some (text content) := by
  cases value with
  | object members =>
    simp only [textAt, index, object.injEq, exists_eq_left']
    cases members.lookup key with
    | none => simp [Except.bind]
    | some member => cases member <;> simp [Except.bind, toText]
  | _ => simp [textAt, index, Except.bind]

/-- A failed access throws, or reads at an absent key. -/
theorem textAt_error {key : Bytes} {value : Json} {fault : Fault}
    (herror : value.textAt key = .error fault) : fault = .exception ∨ fault = .invalidAccess := by
  cases value with
  | object members =>
    simp only [textAt, index] at herror
    cases hlookup : members.lookup key with
    | none => simpa [hlookup, Except.bind, eq_comm] using Or.inr herror
    | some member =>
      cases member <;> simp [hlookup, Except.bind, toText, eq_comm] at herror ⊢ <;>
        exact Or.inl herror
  | _ => exact Or.inl (Except.error.inj herror).symm

end Json

/-- The two members `handleMessage` reads, `"message"` before `"username"`. -/
def messageFields (jsonMessage : Json) : Except Fault (Bytes × Bytes) := do
  let message ← jsonMessage.textAt (ascii "message")
  let username ← jsonMessage.textAt (ascii "username")
  return (message, username)

/-- The envelope of a message: an object holding strings under both keys. -/
def IsEnvelope (jsonMessage : Json) : Prop :=
  jsonMessage.HoldsText (ascii "message") ∧ jsonMessage.HoldsText (ascii "username")

theorem messageFields_eq_ok_iff (jsonMessage : Json) (message username : Bytes) :
    messageFields jsonMessage = .ok (message, username) ↔
      jsonMessage.textAt (ascii "message") = .ok message ∧
        jsonMessage.textAt (ascii "username") = .ok username := by
  simp only [messageFields]
  cases jsonMessage.textAt (ascii "message") with
  | error fault => simp [bind, Except.bind]
  | ok first =>
    cases jsonMessage.textAt (ascii "username") with
    | error fault => simp [bind, Except.bind]
    | ok second => simp [bind, Except.bind, pure, Except.pure]

/-- Fields that cannot be read make `handleMessage` throw, or read at an absent key. -/
theorem messageFields_error {jsonMessage : Json} {fault : Fault}
    (herror : messageFields jsonMessage = .error fault) :
    fault = .exception ∨ fault = .invalidAccess := by
  simp only [messageFields] at herror
  cases hmessage : jsonMessage.textAt (ascii "message") with
  | error first =>
    rw [hmessage] at herror
    obtain rfl : first = fault := Except.error.inj herror
    exact Json.textAt_error hmessage
  | ok message =>
    rw [hmessage] at herror
    cases husername : jsonMessage.textAt (ascii "username") with
    | error second =>
      rw [husername] at herror
      obtain rfl : second = fault := Except.error.inj herror
      exact Json.textAt_error husername
    | ok username =>
      rw [husername] at herror
      cases herror

/-- The value `Client::sendMessage` serializes, with its members in the order of their keys. -/
def envelope (username message : Bytes) : Json :=
  .object [(ascii "message", .text message), (ascii "username", .text username)]

/-- The server reads from an envelope what the client put into it. -/
theorem messageFields_envelope (username message : Bytes) :
    messageFields (envelope username message) = .ok (message, username) :=
  rfl

/-! ### Writes -/

/-- What the network does to one `asio::write`: all of it is sent, or an error ends it after some
bytes. -/
inductive WriteAnswer
  | whole
  | cut (count : ℕ)
  deriving DecidableEq

namespace WriteAnswer

/-- The bytes sent. A write that fails sends a proper part of its bytes. -/
def sent (bytes : Bytes) : WriteAnswer → Bytes
  | whole => bytes
  | cut count => bytes.dropLast.take count

/-- The write returns, rather than throws. -/
def returns : WriteAnswer → Bool
  | whole => true
  | cut _ => false

/-- What is sent is the beginning of what was to be sent. -/
theorem sent_isPrefix (bytes : Bytes) (answer : WriteAnswer) : answer.sent bytes <+: bytes := by
  cases answer with
  | whole => exact List.prefix_rfl
  | cut count => exact (List.take_prefix count _).trans (List.dropLast_prefix bytes)

/-- A write that returns has sent everything. -/
theorem sent_of_returns {answer : WriteAnswer} (hreturns : answer.returns = true) (bytes : Bytes) :
    answer.sent bytes = bytes := by
  cases answer with
  | whole => rfl
  | cut count => cases hreturns

end WriteAnswer

/-! ### The `/dm` command -/

/-- A `std::istringstream`: what is left to read, and its `eofbit` and `failbit`. -/
structure InputStream where
  /-- The bytes not yet extracted. -/
  rest : Bytes
  /-- The `eofbit`. -/
  eof : Bool := false
  /-- The `failbit`. -/
  fail : Bool := false

namespace InputStream

/-- The stream has neither bit set, so a sentry can succeed. -/
def good (stream : InputStream) : Bool :=
  !stream.eof && !stream.fail

/-- `operator>>` into a string: skip whitespace, then take bytes up to the next whitespace. The
string keeps its value when the sentry fails. -/
def extract (stream : InputStream) (target : Bytes) : Bytes × InputStream :=
  if stream.good then
    let rest := stream.rest.dropWhile isSpace
    if rest.isEmpty then (target, { rest := [], eof := true, fail := true })
    else
      let after := rest.dropWhile fun byte ↦ !isSpace byte
      (rest.takeWhile fun byte ↦ !isSpace byte, { rest := after, eof := after.isEmpty })
  else (target, { stream with fail := true })

/-- `std::getline`: take bytes up to the next line feed, which is removed from the stream. The
string keeps its value when the sentry fails. -/
def getLine (stream : InputStream) (target : Bytes) : Bytes × InputStream :=
  if stream.good then
    let line := stream.rest.takeWhile fun byte ↦ byte != 10
    let after := stream.rest.dropWhile fun byte ↦ byte != 10
    (line, { rest := after.tail, eof := after.isEmpty, fail := after.isEmpty && line.isEmpty })
  else (target, { stream with fail := true })

end InputStream

/-- The text a direct message starts with. -/
def dmCommand : Bytes :=
  ascii "/dm "

/-- The recipient and the text that `handleMessage` reads from a `/dm` message: two extractions,
the rest of the line, and one leading blank removed. -/
def parseDirectMessage (message : Bytes) : Bytes × Bytes :=
  let iss : InputStream := { rest := message }
  let (_command, iss) := iss.extract []
  let (recipient, iss) := iss.extract []
  let (dmMessage, _) := iss.getLine []
  (recipient, if dmMessage.head? = some 32 then dmMessage.tail else dmMessage)

/-- The first word after the text a direct message starts with. -/
def recipientWord (message : Bytes) : Bytes :=
  ((message.drop dmCommand.length).dropWhile isSpace).takeWhile fun byte ↦ !isSpace byte

/-- Extraction from a stream that holds a byte other than whitespace and continues with
whitespace. -/
theorem extract_word (word rest target : Bytes) (hword : word ≠ [])
    (hspaces : word.all (fun byte ↦ !isSpace byte) = true) {next : UInt8}
    (hnext : isSpace next = true) :
    ({ rest := word ++ next :: rest } : InputStream).extract target =
      (word, { rest := next :: rest }) := by
  obtain ⟨first, others, rfl⟩ := List.exists_cons_of_ne_nil hword
  have hall := List.all_eq_true.mp hspaces
  have hfirst : isSpace first = false := by simpa using hall first List.mem_cons_self
  have hskip : (first :: others ++ next :: rest).dropWhile isSpace =
      first :: others ++ next :: rest := by
    simp [hfirst]
  have htake : (first :: others ++ next :: rest).takeWhile (fun byte ↦ !isSpace byte) =
      first :: others := by
    rw [List.takeWhile_append_of_pos hall, List.takeWhile_cons_of_neg (by simp [hnext]),
      List.append_nil]
  have hdrop : (first :: others ++ next :: rest).dropWhile (fun byte ↦ !isSpace byte) =
      next :: rest := by
    rw [List.dropWhile_append_of_pos hall, List.dropWhile_cons_of_neg (by simp [hnext])]
  simp only [InputStream.extract, InputStream.good, hskip, htake, hdrop]
  rfl

/-- The recipient of a direct message is the first word after its command. -/
theorem parseDirectMessage_fst {message : Bytes} (hcommand : dmCommand.isPrefixOf message = true) :
    (parseDirectMessage message).1 = recipientWord message := by
  obtain ⟨rest, rfl⟩ := List.isPrefixOf_iff_prefix.mp hcommand
  have hfirst : ({ rest := dmCommand ++ rest } : InputStream).extract [] =
      (ascii "/dm", { rest := 32 :: rest }) :=
    extract_word (ascii "/dm") rest [] (by decide) (by decide) (by decide)
  have hword : recipientWord (dmCommand ++ rest) =
      (rest.dropWhile isSpace).takeWhile fun byte ↦ !isSpace byte := by
    rw [recipientWord, List.drop_left]
  rw [hword, parseDirectMessage]
  simp only [hfirst]
  have hskip : (32 :: rest : Bytes).dropWhile isSpace = rest.dropWhile isSpace :=
    List.dropWhile_cons_of_pos (by decide)
  simp only [InputStream.extract, InputStream.good, hskip]
  cases rest.dropWhile isSpace with
  | nil => rfl
  | cons byte others => rfl

/-! ### Lines -/

/-- The line that announces a new name. -/
def joinedLine (username : Bytes) : Bytes :=
  ascii "'" ++ username ++ ascii "' has joined!!"

/-- The line that announces a departure. -/
def disconnectedLine (username : Bytes) : Bytes :=
  ascii "'" ++ username ++ ascii "' has disconnected!!"

/-- The line that relays a message to the other clients. -/
def chatLine (username message : Bytes) : Bytes :=
  username ++ ascii ": " ++ message

/-- The line that carries a direct message. -/
def directLine (sender dmMessage : Bytes) : Bytes :=
  ascii "[DM From '" ++ sender ++ ascii "']: " ++ dmMessage

/-- The line that tells a sender that no client has the recipient's name. -/
def notFoundLine (recipient : Bytes) : Bytes :=
  ascii "User '" ++ recipient ++ ascii "' not found."

/-! No line is empty. -/

theorem joinedLine_ne_nil (username : Bytes) : joinedLine username ≠ [] :=
  List.cons_ne_nil _ _

theorem disconnectedLine_ne_nil (username : Bytes) : disconnectedLine username ≠ [] :=
  List.cons_ne_nil _ _

theorem chatLine_ne_nil (username message : Bytes) : chatLine username message ≠ [] := by
  intro hnil
  have hcolon := (List.append_eq_nil_iff.mp (List.append_eq_nil_iff.mp hnil).1).2
  cases hcolon

theorem directLine_ne_nil (sender dmMessage : Bytes) : directLine sender dmMessage ≠ [] :=
  List.cons_ne_nil _ _

theorem notFoundLine_ne_nil (recipient : Bytes) : notFoundLine recipient ≠ [] :=
  List.cons_ne_nil _ _

/-- The command reader skips every blank before the recipient, a line feed included, and stops at
the first line feed after it. -/
example : parseDirectMessage (ascii "/dm \n kobold  hello\nworld") =
    (ascii "kobold", ascii " hello") := by
  decide

end KoboldKhat
