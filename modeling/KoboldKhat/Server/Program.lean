import KoboldKhat.Library.Program
import KoboldKhat.Messages

/-!
# The program of the server

`common/server.h` and `common/server.cpp`, function by function, as programs over the operations
the server performs on its shared state. A `SessionId` names a connection that an accept handler
has been given: the `ClientSession` made for it and its socket, which are created together and
never exchanged. The operations are those on the mutex, on a socket's stream, and on the registry:
`m_clients`, the user names, the open sockets, the acceptor and the reads and accepts in flight.

`broadcastMessage` and `removeClient` call each other, so they are the two procedures of the
signature; the other functions are programs. A handler that was passed to an asynchronous operation
is the function named after it, `acceptHandler` and `readHandler`.

A range-for over `m_clients` fixes its end once and then reads slot after slot (`Walk.slots`), also
when the body erases from the vector. `Walk.safe` is the idealisation in which erasure does not
disturb the walk: it visits every element of the vector that has not been erased by then. The
texts written to the log are left out; the reads made for them are kept.
-/

set_option autoImplicit false
set_option relaxedAutoImplicit false

namespace KoboldKhat.Server

open Library

/-- A connection handed to an accept handler, numbered in the order of these handlers. -/
abbrev SessionId := ℕ

/-- The operations on the data the server keeps under `m_clientsMutex` and next to it. -/
inductive RegistryOperation
  /-- Read `m_clients`: its size, its iterators, a search through it. -/
  | clients
  /-- Read the element of `m_clients` an iterator points to. -/
  | dereference (slot : ℕ)
  /-- `m_clients.push_back`. -/
  | pushBack (client : SessionId)
  /-- `m_clients.erase` at an iterator. -/
  | erase (slot : ℕ)
  /-- `m_clients.clear`. -/
  | clear
  /-- Read `m_maxClients`. -/
  | maxClients
  /-- Read `client->username`. -/
  | username (client : SessionId)
  /-- Assign `client->username`. -/
  | setUsername (client : SessionId) (username : Bytes)
  /-- `client->socket->is_open`. -/
  | isOpen (client : SessionId)
  /-- `client->socket->close`. -/
  | close (client : SessionId)
  /-- `client->socket->async_read_some`. -/
  | asyncReadSome (client : SessionId)
  /-- `m_acceptor.async_accept` into a new socket. -/
  | asyncAccept
  /-- `m_acceptor.close`. -/
  | closeAcceptor
  /-- Assign `m_running`. -/
  | setRunning (value : Bool)

/-- The replies to the operations on the registry. -/
def RegistryOperation.Reply : RegistryOperation → Type
  | clients => List SessionId
  | dereference _ => SessionId
  | maxClients => ℕ
  | username _ => Bytes
  | isOpen _ => Bool
  | _ => Unit

/-- The operations of the server. -/
inductive Operation
  /-- `m_clientsMutex.lock`. -/
  | lock
  /-- `m_clientsMutex.unlock`. -/
  | unlock
  /-- `asio::write` of a whole string. The reply tells whether it returned or threw. -/
  | write (client : SessionId) (message : Bytes)
  /-- `remote_endpoint` of a socket. The reply tells whether it returned or threw. -/
  | remoteEndpoint (client : SessionId)
  /-- Entry into `handleMessage`, recorded for the sake of statements about its calls. -/
  | enterHandleMessage (jsonMessage : Json) (client : SessionId)
  /-- An operation on the registry. -/
  | registry (operation : RegistryOperation)

/-- The replies to the operations of the server. -/
def Operation.Reply : Operation → Type
  | lock => Unit
  | unlock => Unit
  | write _ _ => Bool
  | remoteEndpoint _ => Bool
  | enterHandleMessage _ _ => Unit
  | registry operation => operation.Reply

/-- The functions of the server that call each other. -/
inductive Procedure
  | broadcastMessage (message : Bytes) (excludeSocket : Option SessionId)
  | removeClient (client : SessionId)

/-- The signature of the server's programs. -/
abbrev signature : Signature where
  Operation := Operation
  Reply := Operation.Reply
  Procedure := Procedure
  Fault := Fault

/-- A program of the server. -/
abbrev ServerProgram := Program signature

/-! ### Operations as programs -/

/-- Lock `m_clientsMutex`, as the constructor of a `std::lock_guard` does. -/
def lock : ServerProgram Unit :=
  @Program.perform signature Operation.lock

/-- Unlock `m_clientsMutex`, as the destructor of a `std::lock_guard` does. -/
def unlock : ServerProgram Unit :=
  @Program.perform signature Operation.unlock

/-- `asio::write` of a whole string to the socket of a session. -/
def write (client : SessionId) (message : Bytes) : ServerProgram Bool :=
  @Program.perform signature (Operation.write client message)

/-- `remote_endpoint` of the socket of a session. -/
def remoteEndpoint (client : SessionId) : ServerProgram Bool :=
  @Program.perform signature (Operation.remoteEndpoint client)

/-- The record of a call of `handleMessage`. -/
def enterHandleMessage (jsonMessage : Json) (client : SessionId) : ServerProgram Unit :=
  @Program.perform signature (Operation.enterHandleMessage jsonMessage client)

/-- Read `m_clients`. -/
def clients : ServerProgram (List SessionId) :=
  @Program.perform signature (.registry .clients)

/-- Read the element of `m_clients` an iterator points to. -/
def dereference (slot : ℕ) : ServerProgram SessionId :=
  @Program.perform signature (.registry (.dereference slot))

/-- Append a session to `m_clients`. -/
def pushBack (client : SessionId) : ServerProgram Unit :=
  @Program.perform signature (.registry (.pushBack client))

/-- Erase the element of `m_clients` an iterator points to. -/
def erase (slot : ℕ) : ServerProgram Unit :=
  @Program.perform signature (.registry (.erase slot))

/-- Erase all elements of `m_clients`. -/
def clear : ServerProgram Unit :=
  @Program.perform signature (.registry .clear)

/-- Read `m_maxClients`. -/
def maxClients : ServerProgram ℕ :=
  @Program.perform signature (.registry .maxClients)

/-- Read the user name of a session. -/
def username (client : SessionId) : ServerProgram Bytes :=
  @Program.perform signature (.registry (.username client))

/-- Assign the user name of a session. -/
def setUsername (client : SessionId) (newUsername : Bytes) : ServerProgram Unit :=
  @Program.perform signature (.registry (.setUsername client newUsername))

/-- Ask whether the socket of a session is open. -/
def isOpen (client : SessionId) : ServerProgram Bool :=
  @Program.perform signature (.registry (.isOpen client))

/-- Close the socket of a session. -/
def close (client : SessionId) : ServerProgram Unit :=
  @Program.perform signature (.registry (.close client))

/-- Start a read on the socket of a session. -/
def asyncReadSome (client : SessionId) : ServerProgram Unit :=
  @Program.perform signature (.registry (.asyncReadSome client))

/-- Start an accept. -/
def asyncAccept : ServerProgram Unit :=
  @Program.perform signature (.registry .asyncAccept)

/-- Close the acceptor. -/
def closeAcceptor : ServerProgram Unit :=
  @Program.perform signature (.registry .closeAcceptor)

/-- Assign `m_running`. -/
def setRunning (value : Bool) : ServerProgram Unit :=
  @Program.perform signature (.registry (.setRunning value))

/-- Call `Server::broadcastMessage`. -/
def callBroadcastMessage (message : Bytes) (excludeSocket : Option SessionId) :
    ServerProgram Unit :=
  @Program.invoke signature (Procedure.broadcastMessage message excludeSocket)

/-- Call `Server::removeClient`. -/
def callRemoveClient (client : SessionId) : ServerProgram Unit :=
  @Program.invoke signature (Procedure.removeClient client)

/-! ### Sending and removing -/

/-- `ClientSession::tryToSendMessage`: an exception of the write is caught and becomes `false`. -/
def tryToSendMessage (client : SessionId) (message : Bytes) : ServerProgram Bool :=
  write client message

/-- How a range-for over `m_clients` goes on after its body erased from the vector. -/
inductive Walk
  /-- The slots up to the size at the start are read one after the other. -/
  | slots
  /-- Every element of the vector at the start is visited unless it was erased. -/
  | safe

/-- Visit a number of slots of `m_clients` from a slot on. -/
def visitSlots (body : SessionId → ServerProgram Unit) : ℕ → ℕ → ServerProgram Unit
  | 0, _ => pure ()
  | remaining + 1, slot => do
    let client ← dereference slot
    body client
    visitSlots body remaining (slot + 1)

/-- Visit the sessions of a list that are in `m_clients` when their turn comes. -/
def visitMembers (body : SessionId → ServerProgram Unit) : List SessionId → ServerProgram Unit
  | [] => pure ()
  | client :: rest => do
    let members ← clients
    (if client ∈ members then body client else pure ())
    visitMembers body rest

/-- `for (auto& client : m_clients)`. -/
def forEachClient (walk : Walk) (body : SessionId → ServerProgram Unit) : ServerProgram Unit := do
  let members ← clients
  match walk with
  | .slots => visitSlots body members.length 0
  | .safe => visitMembers body members

/-- The body of the loop of `broadcastMessage`. -/
def broadcastTo (message : Bytes) (excludeSocket : Option SessionId) (client : SessionId) :
    ServerProgram Unit :=
  if excludeSocket = some client then pure ()
  else do
    let sent ← tryToSendMessage client message
    if sent then pure () else callRemoveClient client

/-- `Server::broadcastMessage`. -/
def broadcastMessage (walk : Walk) (message : Bytes) (excludeSocket : Option SessionId) :
    ServerProgram Unit := do
  lock
  forEachClient walk (broadcastTo message excludeSocket)
  unlock

/-- `std::find` over `m_clients` for a session, then `erase` at the iterator unless it is the
end. -/
def eraseClient (client : SessionId) : ServerProgram Unit := do
  let members ← clients
  match members.idxOf? client with
  | some slot => erase slot
  | none => pure ()

/-- `if (socket->is_open()) socket->close();`. -/
def closeIfOpen (client : SessionId) : ServerProgram Unit := do
  let socketIsOpen ← isOpen client
  if socketIsOpen then close client else pure ()

/-- The part of `removeClient` under its own lock. -/
def closeAndErase (client : SessionId) : ServerProgram Unit := do
  lock
  closeIfOpen client
  eraseClient client
  unlock

/-- `Server::removeClient`. -/
def removeClient (client : SessionId) : ServerProgram Unit := do
  let clientUsername ← username client
  let stored ← username client
  (if stored = [] then pure ()
    else callBroadcastMessage (disconnectedLine clientUsername) (some client))
  closeAndErase client

/-! ### Messages -/

/-- `std::find_if` over the sessions from a slot on for one whose user name is the recipient. -/
def findByUsername (recipient : Bytes) : List SessionId → ℕ → ServerProgram (Option ℕ)
  | [], _ => pure none
  | client :: rest, slot => do
    let name ← username client
    if name = recipient then pure (some slot) else findByUsername recipient rest (slot + 1)

/-- The `/dm` branch of `handleMessage` when the iterator points at a recipient, whose user name is
then read for the log. -/
def deliverDirectMessage (slot : ℕ) (dmMessage : Bytes) (client : SessionId) :
    ServerProgram Unit := do
  let sender ← username client
  let receiver ← dereference slot
  let _ ← tryToSendMessage receiver (directLine sender dmMessage)
  let logged ← dereference slot
  let _ ← username logged
  pure ()

/-- The `/dm` branch of `handleMessage` when the iterator is the end of `m_clients`, through which
a user name is then read for the log. -/
def reportNotFound (endSlot : ℕ) (recipient : Bytes) (client : SessionId) :
    ServerProgram Unit := do
  let _ ← tryToSendMessage client (notFoundLine recipient)
  let logged ← dereference endSlot
  let _ ← username logged
  pure ()

/-- The `/dm` branch of `handleMessage`. -/
def handleDirectMessage (message : Bytes) (client : SessionId) : ServerProgram Unit := do
  let (recipient, dmMessage) := parseDirectMessage message
  lock
  let members ← clients
  let it ← findByUsername recipient members 0
  (match it with
    | some slot => deliverDirectMessage slot dmMessage client
    | none => reportNotFound members.length recipient client)
  unlock

/-- The branch of `handleMessage` for every other message. -/
def handleChatMessage (message newUsername : Bytes) (client : SessionId) : ServerProgram Unit := do
  let stored ← username client
  if stored = [] then do
    setUsername client newUsername
    let stored ← username client
    callBroadcastMessage (joinedLine stored) none
  else do
    let stored ← username client
    callBroadcastMessage (chatLine stored message) (some client)

/-- `Server::handleMessage`. -/
def handleMessage (jsonMessage : Json) (client : SessionId) : ServerProgram Unit := do
  enterHandleMessage jsonMessage client
  let (message, newUsername) ← Program.ofExcept (messageFields jsonMessage)
  if dmCommand.isPrefixOf message then handleDirectMessage message client
  else handleChatMessage message newUsername client

/-! ### Reading -/

/-- What the completion of a read carries: an error, or the bytes read. -/
inductive ReadResult
  | error
  | data (chunk : Bytes)
  deriving DecidableEq

/-- `Server::readClientMessage`: start one read, with `readHandler` as its handler. -/
def readClientMessage (client : SessionId) : ServerProgram Unit :=
  asyncReadSome client

/-- The chunk is empty or only blanks, so the read handler does not look at it. -/
def IsBlankChunk (chunk : Bytes) : Prop :=
  ∀ byte ∈ chunk, isBlank byte

instance (chunk : Bytes) : Decidable (IsBlankChunk chunk) :=
  decidable_of_iff (chunk.all isBlank = true) List.all_eq_true

/-- The value `handleMessage` is called with for a chunk: what the parser returns, or the null
value `jsonMessage` was initialised with when the parser throws. -/
def parsedMessage (parse : Bytes → Option Json) (chunk : Bytes) : Json :=
  (parse chunk).getD .null

/-- The completion handler of `readClientMessage`. -/
def readHandler (parse : Bytes → Option Json) (client : SessionId) :
    ReadResult → ServerProgram Unit
  | .error => callRemoveClient client
  | .data serializedMessage => do
    (if IsBlankChunk serializedMessage then pure ()
      else handleMessage (parsedMessage parse serializedMessage) client)
    readClientMessage client

/-! ### Accepting, starting and shutting down -/

/-- What the completion of an accept carries. -/
inductive AcceptResult
  | error
  | success
  deriving DecidableEq

/-- `Server::acceptConnections`: start one accept, with `acceptHandler` as its handler. -/
def acceptConnections : ServerProgram Unit :=
  asyncAccept

/-- The rejecting branch of the accept handler, inside the scope of its first lock. -/
def rejectConnection (newSocket : SessionId) : ServerProgram Unit := do
  close newSocket
  acceptConnections

/-- The part of the accept handler after the capacity check. -/
def admitConnection (newSocket : SessionId) : ServerProgram Unit := do
  lock
  pushBack newSocket
  unlock
  let peerKnown ← remoteEndpoint newSocket
  (if peerKnown then pure () else Program.fault Fault.exception)
  readClientMessage newSocket
  acceptConnections

/-- The completion handler of `acceptConnections`. -/
def acceptHandler (newSocket : SessionId) : AcceptResult → ServerProgram Unit
  | .error => pure ()
  | .success => do
    lock
    let members ← clients
    let capacity ← maxClients
    if capacity ≤ members.length then do
      rejectConnection newSocket
      unlock
    else do
      unlock
      admitConnection newSocket

/-- `Server::start`. -/
def start : ServerProgram Unit := do
  setRunning true
  acceptConnections

/-- `Server::shutdown`. -/
def shutdown : ServerProgram Unit := do
  setRunning false
  lock
  forEachClient .slots closeIfOpen
  clear
  closeAcceptor
  unlock

/-- The bodies of the procedures. -/
def procedureBody (walk : Walk) : Procedure → ServerProgram Unit
  | .broadcastMessage message excludeSocket => broadcastMessage walk message excludeSocket
  | .removeClient client => removeClient client

end KoboldKhat.Server
