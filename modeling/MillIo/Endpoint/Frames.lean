-- SUMMARY: The functions of `mill-net/src/tcp/mod.rs` that lock a mutex or call the `NetworkHandler`, as frames on the stacks of threads.
import MillIo.Interleaving.CallStack
import Mathlib.Data.Finset.Basic

/-!
# The locks of servers and clients

A frame is one call of a function, by what it has still to do. Guards live to the end
of their scope: that of the listener to the end of the loop body, that of a `match` or
an `if let` to the end of its block. A callback may call any operation of any server and
client; handlers are called by the workers of the event loop only. What sockets, pollers,
counters and callbacks return is left open. The context of a client has no server, and
its operations return at once. The locks of a context are for readers while callbacks run;
only `start` writes to them. They are left out, and `Frame.Clashes` tells where one would
have to wait for them.
-/

namespace Reentry

open Interleaving

/-- A server goes by a number, as do its context and its handlers; a client likewise, with
    its clones. -/
inductive Mutex
  | listener (server : ℕ)
  | stream (server id : ℕ)
  | client (client : ℕ)
  deriving DecidableEq

/-- The contexts with a server and those with an event loop, the entries of the connection
    maps, the next id of each server, and the clients whose stream is gone. The ids number
    the connections of a server; the `AtomicU64` of the source holds the next one modulo
    2^64, and runs in which it comes round are left out. -/
structure Data where
  servers : Finset ℕ
  eventLoops : Finset ℕ
  connections : Finset (ℕ × ℕ)
  nextConnId : ℕ → ℕ
  disconnected : Finset ℕ

def Data.new : Data := ⟨∅, ∅, ∅, fun _ => 1, ∅⟩

/-! ## Functions -/

/-- `TcpListenerHandler::handle_event`. -/
inductive Accept
  | begun (isReadable : Bool)
  /-- At the head of the loop. -/
  | listening
  | accepting
  /-- Compares the counter with `max_connections`. -/
  | counting
  /-- In `on_error`. -/
  | refused
  | configuring
  /-- In `on_error`. -/
  | notConfigured
  | drawing
  | upgrading (id : ℕ)
  /-- In `on_error`. -/
  | eventLoopGone
  | registering (id : ℕ)
  | inRegister (id : ℕ)
  /-- In `on_error`. -/
  | notRegistered (id : ℕ)
  | backingOut (id : ℕ)
  | registered (id : ℕ)
  | inserting (id : ℕ)
  /-- In `on_event`. -/
  | establishing (id : ℕ)
  /-- In `on_connect`. -/
  | connecting (id : ℕ)
  /-- In `on_error`. -/
  | notConnected (id : ℕ)
  | removing (id : ℕ)
  | removed (id : ℕ)
  | deregistering (id : ℕ)
  /-- At the end of the loop body. -/
  | continuing
  /-- In `on_error`. -/
  | notAccepted
  | breaking
  | returned
  deriving DecidableEq

/-- How a read of a stream comes out. -/
inductive ReadResult
  | closed
  | bytes
  | wouldBlock
  | failed
  deriving DecidableEq

/-- `TcpConnectionHandler::handle_event`. -/
inductive Handle
  | begun
  | reading
  | inRead
  | haveRead (result : ReadResult)
  /-- In `on_data`. -/
  | data
  /-- In `on_error`. -/
  | notHandled
  /-- In `on_error`. -/
  | notRead
  | disconnecting
  | removed
  | lockingStream
  | deregistering
  /-- In `on_disconnect`. -/
  | notifying
  /-- In `on_error`. -/
  | notNotified
  /-- In `on_event`. -/
  | closed
  | haveHandledRead
  /-- In `on_writable`. -/
  | writable
  /-- In `on_error`. -/
  | notWritten
  | returned
  deriving DecidableEq

/-- `TcpClientHandler::handle_event`. -/
inductive ClientHandle
  | begun
  | reading
  | haveLocked
  | inRead
  | haveRead (result : ReadResult)
  /-- There is no stream to read. -/
  | noStream
  /-- In `on_data`. -/
  | data
  /-- In `on_error`. -/
  | notHandled
  /-- In `on_error`. -/
  | notRead
  /-- In `on_event`. -/
  | closed
  | disconnecting
  /-- With the lock, about to deregister the stream and to drop it. -/
  | dropping
  /-- In `on_disconnect`. -/
  | notifying
  /-- In `on_error`. -/
  | notNotified
  | disconnected
  | haveHandledRead
  /-- In `on_writable`. -/
  | writable
  /-- In `on_error`. -/
  | notWritten
  | returned
  deriving DecidableEq

/-- `TcpServer::start`. -/
inductive ServerStart
  | begun
  | haveServer
  | haveEventLoop
  | registering
  | returned
  deriving DecidableEq

/-- `TcpClient::start`. -/
inductive ClientStart
  | begun
  | registering
  /-- In `on_connect`. -/
  | connecting
  | leaving
  | returned
  deriving DecidableEq

/-- `TcpServer::local_addr`, `TcpClient::send`: one lock around one call of a socket. -/
inductive Guarded
  | begun
  | locked
  | returned
  deriving DecidableEq

/-- `ServerContext::send_to`. -/
inductive SendTo
  | begun
  | getting
  | found
  | writing
  | returned
  deriving DecidableEq

/-- `ServerContext::broadcast`. -/
inductive Broadcast
  | begun
  | iterating
  | next (id : ℕ)
  | writing (id : ℕ)
  /-- In `on_error`. -/
  | notWritten (id : ℕ)
  | written (id : ℕ)
  | returned
  deriving DecidableEq

/-- `ServerContext::close_connection`. -/
inductive CloseConnection
  | begun
  | haveServer
  | removing
  | removed
  /-- In `on_disconnect`. -/
  | notifying
  /-- In `on_error`. -/
  | notNotified
  /-- In `on_event`. -/
  | closed
  | leaving
  | returned
  deriving DecidableEq

/-- `TcpClient::disconnect`. -/
inductive ClientDisconnect
  | begun
  | dropping
  | dropped
  /-- In `on_disconnect`. -/
  | notifying
  | returned
  deriving DecidableEq

/-- A call of a function. -/
inductive Frame
  | accept (server : ℕ) (phase : Accept)
  | handle (server id : ℕ) (isReadable isWritable : Bool) (phase : Handle)
  | clientHandle (client : ℕ) (isReadable isWritable : Bool) (phase : ClientHandle)
  | startServer (server : ℕ) (phase : ServerStart)
  | startClient (client : ℕ) (phase : ClientStart)
  | localAddr (server : ℕ) (phase : Guarded)
  | sendTo (server id : ℕ) (phase : SendTo)
  | broadcast (server : ℕ) (phase : Broadcast)
  | closeConnection (server id : ℕ) (phase : CloseConnection)
  | send (client : ℕ) (phase : Guarded)
  | disconnect (client : ℕ) (phase : ClientDisconnect)
  deriving DecidableEq

/-- What the branch of a frame leaves open. -/
inductive Choice
  /-- The way of success. -/
  | go
  | failed
  | wouldBlock
  | closed
  /-- An iteration comes to the connection. -/
  | connection (id : ℕ)
  deriving DecidableEq

/-! ## Their instructions -/

abbrev Next := Instr Data Mutex Frame Choice

/-- A step that leaves nothing open. -/
def andThen (k : Data → Data × Frame) : Next :=
  .branch fun s o => match o with
    | .go => some (k s)
    | _ => none

/-- A call that succeeds or fails. -/
def either (ok failed : Frame) : Next :=
  .branch fun s o => match o with
    | .go => some (s, ok)
    | .failed => some (s, failed)
    | _ => none

/-- `stream.read`. -/
def read (goOn : ReadResult → Frame) : Next :=
  .branch fun s o => match o with
    | .go => some (s, goOn .bytes)
    | .closed => some (s, goOn .closed)
    | .wouldBlock => some (s, goOn .wouldBlock)
    | .failed => some (s, goOn .failed)
    | _ => none

def Accept.instr (server : ℕ) : Accept → Next
  | begun isReadable => andThen fun s => (s, .accept server (if isReadable then listening else returned))
  | listening => .lock (.listener server) (.accept server accepting)
  | accepting => .branch fun s o => match o with
    | .go => some (s, .accept server counting)
    | .wouldBlock => some (s, .accept server breaking)
    | .failed => some (s, .accept server notAccepted)
    | _ => none
  | counting => either (.accept server configuring) (.accept server refused)
  | refused => .callback (.accept server continuing) (.accept server continuing)
  | configuring => either (.accept server drawing) (.accept server notConfigured)
  | notConfigured => .callback (.accept server drawing) (.accept server drawing)
  | drawing => andThen fun s =>
    ({ s with nextConnId := Function.update s.nextConnId server (s.nextConnId server + 1) },
      .accept server (upgrading (s.nextConnId server)))
  | upgrading id => either (.accept server (registering id)) (.accept server eventLoopGone)
  | eventLoopGone => .callback (.accept server continuing) (.accept server continuing)
  -- the guard of the new stream is a temporary of the `if let`, and outlives the `on_error` in it
  | registering id => .lock (.stream server id) (.accept server (inRegister id))
  | inRegister id => either (.accept server (registered id)) (.accept server (notRegistered id))
  | notRegistered id => .callback (.accept server (backingOut id)) (.accept server (backingOut id))
  | backingOut id => .unlock (.stream server id) (.accept server continuing)
  | registered id => .unlock (.stream server id) (.accept server (inserting id))
  | inserting id => andThen fun s =>
    ({ s with connections := insert (server, id) s.connections }, .accept server (establishing id))
  | establishing id => .callback (.accept server (connecting id)) (.accept server (connecting id))
  | connecting id => .callback (.accept server continuing) (.accept server (notConnected id))
  | notConnected id => .callback (.accept server (removing id)) (.accept server (removing id))
  | removing id => andThen fun s =>
    if (server, id) ∈ s.connections then
      ({ s with connections := s.connections.erase (server, id) }, .accept server (removed id))
    else (s, .accept server continuing)
  | removed id => .lock (.stream server id) (.accept server (deregistering id))
  | deregistering id => .unlock (.stream server id) (.accept server continuing)
  -- `continue` and the end of the body drop the guard of the listener
  | continuing => .unlock (.listener server) (.accept server listening)
  | notAccepted => .callback (.accept server breaking) (.accept server breaking)
  | breaking => .unlock (.listener server) (.accept server returned)
  | returned => .ret

/-- The `match` on the result of the read. -/
def ReadResult.handle : ReadResult → Handle
  | closed => .disconnecting
  | bytes => .data
  | wouldBlock => .haveHandledRead
  | failed => .notRead

/-- `goTo` gives the frame of a phase. -/
def Handle.instr (goTo : Handle → Frame) (server id : ℕ) (isReadable isWritable : Bool) : Handle → Next
  | begun => andThen fun s => (s, goTo (if isReadable then reading else haveHandledRead))
  | reading => .lock (.stream server id) (goTo inRead)
  | inRead => read fun result => goTo (haveRead result)
  -- the block of the read ends before the `match` on its result
  | haveRead result => .unlock (.stream server id) (goTo result.handle)
  | data => .callback (goTo haveHandledRead) (goTo notHandled)
  | notHandled => .callback (goTo disconnecting) (goTo disconnecting)
  | notRead => .callback (goTo disconnecting) (goTo disconnecting)
  | disconnecting => andThen fun s =>
    if (server, id) ∈ s.connections then
      ({ s with connections := s.connections.erase (server, id) }, goTo removed)
    else (s, goTo haveHandledRead)
  | removed => either (goTo lockingStream) (goTo notifying)
  | lockingStream => .lock (.stream server id) (goTo deregistering)
  -- and the `if let` of the deregistration before `on_disconnect`
  | deregistering => .unlock (.stream server id) (goTo notifying)
  | notifying => .callback (goTo closed) (goTo notNotified)
  | notNotified => .callback (goTo closed) (goTo closed)
  | closed => .callback (goTo haveHandledRead) (goTo haveHandledRead)
  | haveHandledRead => andThen fun s => (s, goTo (if isWritable then writable else returned))
  | writable => .callback (goTo returned) (goTo notWritten)
  | notWritten => .callback (goTo returned) (goTo returned)
  | returned => .ret

/-- The `match` on the result of the read. -/
def ReadResult.clientHandle : ReadResult → ClientHandle
  | closed => .closed
  | bytes => .data
  | wouldBlock => .haveHandledRead
  | failed => .notRead

def ClientHandle.instr (goTo : ClientHandle → Frame) (client : ℕ) (isReadable isWritable : Bool) :
    ClientHandle → Next
  | begun => andThen fun s => (s, goTo (if isReadable then reading else haveHandledRead))
  | reading => .lock (.client client) (goTo haveLocked)
  | haveLocked => andThen fun s => (s, goTo (if client ∈ s.disconnected then noStream else inRead))
  | inRead => read fun result => goTo (haveRead result)
  | haveRead result => .unlock (.client client) (goTo result.clientHandle)
  -- returns from `handle_read`, and goes on to look for room to write
  | noStream => .unlock (.client client) (goTo haveHandledRead)
  | data => .callback (goTo haveHandledRead) (goTo notHandled)
  | notHandled => .callback (goTo disconnecting) (goTo disconnecting)
  | notRead => .callback (goTo disconnecting) (goTo disconnecting)
  | closed => .callback (goTo disconnecting) (goTo disconnecting)
  -- the guard lives to the end of `disconnect`
  | disconnecting => .lock (.client client) (goTo dropping)
  | dropping => andThen fun s =>
    ({ s with disconnected := insert client s.disconnected }, goTo notifying)
  | notifying => .callback (goTo disconnected) (goTo notNotified)
  | notNotified => .callback (goTo disconnected) (goTo disconnected)
  | disconnected => .unlock (.client client) (goTo haveHandledRead)
  | haveHandledRead => andThen fun s => (s, goTo (if isWritable then writable else returned))
  | writable => .callback (goTo returned) (goTo notWritten)
  | notWritten => .callback (goTo returned) (goTo returned)
  | returned => .ret

def ServerStart.instr (server : ℕ) : ServerStart → Next
  | begun => andThen fun s =>
    ({ s with servers := insert server s.servers }, .startServer server haveServer)
  | haveServer => andThen fun s =>
    ({ s with eventLoops := insert server s.eventLoops }, .startServer server haveEventLoop)
  | haveEventLoop => .lock (.listener server) (.startServer server registering)
  | registering => .unlock (.listener server) (.startServer server returned)
  | returned => .ret

def ClientStart.instr (client : ℕ) : ClientStart → Next
  | begun => .lock (.client client) (.startClient client registering)
  | registering => .branch fun s o => match o with
    | .go => some (s, .startClient client (if client ∈ s.disconnected then leaving else connecting))
    | .failed => some (s, .startClient client leaving)
    | _ => none
  -- the guard of the stream is still there
  | connecting => .callback (.startClient client leaving) (.startClient client leaving)
  | leaving => .unlock (.client client) (.startClient client returned)
  | returned => .ret

def Guarded.instr (m : Mutex) (goTo : Guarded → Frame) : Guarded → Next
  | begun => .lock m (goTo locked)
  | locked => .unlock m (goTo returned)
  | returned => .ret

def SendTo.instr (server id : ℕ) : SendTo → Next
  | begun => andThen fun s => (s, .sendTo server id (if server ∈ s.servers then getting else returned))
  | getting => andThen fun s =>
    (s, .sendTo server id (if (server, id) ∈ s.connections then found else returned))
  | found => .lock (.stream server id) (.sendTo server id writing)
  | writing => .unlock (.stream server id) (.sendTo server id returned)
  | returned => .ret

/-- Which connections an iteration comes to, and when it ends, is left open. -/
def Broadcast.instr (server : ℕ) : Broadcast → Next
  | begun => andThen fun s => (s, .broadcast server (if server ∈ s.servers then iterating else returned))
  | iterating => .branch fun s o => match o with
    | .connection id =>
      if (server, id) ∈ s.connections then some (s, .broadcast server (next id)) else none
    | .go => some (s, .broadcast server returned)
    | _ => none
  | next id => .lock (.stream server id) (.broadcast server (writing id))
  | writing id => either (.broadcast server (written id)) (.broadcast server (notWritten id))
  -- the connection is still in the map
  | notWritten id => .callback (.broadcast server (written id)) (.broadcast server (written id))
  | written id => .unlock (.stream server id) (.broadcast server iterating)
  | returned => .ret

def CloseConnection.instr (server id : ℕ) : CloseConnection → Next
  | begun => andThen fun s =>
    (s, .closeConnection server id (if server ∈ s.servers then haveServer else returned))
  | haveServer => andThen fun s =>
    (s, .closeConnection server id (if server ∈ s.eventLoops then removing else returned))
  | removing => andThen fun s =>
    if (server, id) ∈ s.connections then
      ({ s with connections := s.connections.erase (server, id) }, .closeConnection server id removed)
    else (s, .closeConnection server id returned)
  -- the guard lives to the end of the `if let`, but nobody finds the connection any more
  | removed => .lock (.stream server id) (.closeConnection server id notifying)
  | notifying => .callback (.closeConnection server id closed) (.closeConnection server id notNotified)
  | notNotified => .callback (.closeConnection server id closed) (.closeConnection server id closed)
  | closed => .callback (.closeConnection server id leaving) (.closeConnection server id leaving)
  | leaving => .unlock (.stream server id) (.closeConnection server id returned)
  | returned => .ret

def ClientDisconnect.instr (client : ℕ) : ClientDisconnect → Next
  | begun => .lock (.client client) (.disconnect client dropping)
  | dropping => andThen fun s =>
    ({ s with disconnected := insert client s.disconnected }, .disconnect client dropped)
  -- the guard is a temporary of the assignment
  | dropped => .unlock (.client client) (.disconnect client notifying)
  | notifying => .callback (.disconnect client returned) (.disconnect client returned)
  | returned => .ret

def Frame.instr : Frame → Next
  | accept server phase => phase.instr server
  | handle server id isReadable isWritable phase =>
    phase.instr (.handle server id isReadable isWritable) server id isReadable isWritable
  | clientHandle client isReadable isWritable phase =>
    phase.instr (.clientHandle client isReadable isWritable) client isReadable isWritable
  | startServer server phase => phase.instr server
  | startClient client phase => phase.instr client
  | localAddr server phase => phase.instr (.listener server) (.localAddr server)
  | sendTo server id phase => phase.instr server id
  | broadcast server phase => phase.instr server
  | closeConnection server id phase => phase.instr server id
  | send client phase => phase.instr (.client client) (.send client)
  | disconnect client phase => phase.instr client

/-! ## Threads -/

/-- The functions that anyone may call. -/
inductive Call
  | localAddr (server : ℕ)
  | sendTo (server id : ℕ)
  | broadcast (server : ℕ)
  | closeConnection (server id : ℕ)
  | send (client : ℕ)
  | disconnect (client : ℕ)
  | startServer (server : ℕ)
  | startClient (client : ℕ)
  deriving DecidableEq

def Call.frame : Call → Frame
  | localAddr server => .localAddr server .begun
  | sendTo server id => .sendTo server id .begun
  | broadcast server => .broadcast server .begun
  | closeConnection server id => .closeConnection server id .begun
  | send client => .send client .begun
  | disconnect client => .disconnect client .begun
  | startServer server => .startServer server .begun
  | startClient client => .startClient client .begun

/-- A new thread handles an event, or makes a call outside of all callbacks. -/
inductive Input
  | accept (server : ℕ) (isReadable : Bool)
  | handle (server id : ℕ) (isReadable isWritable : Bool)
  | clientHandle (client : ℕ) (isReadable isWritable : Bool)
  | call (c : Call)
  deriving DecidableEq

def Input.frame : Input → Frame
  | accept server isReadable => .accept server (.begun isReadable)
  | handle server id isReadable isWritable => .handle server id isReadable isWritable .begun
  | clientHandle client isReadable isWritable => .clientHandle client isReadable isWritable .begun
  | call c => c.frame

def code : Code Data Mutex Frame Choice Call Input := ⟨Frame.instr, Call.frame, Input.frame⟩

abbrev Thread := CallStack Mutex Frame
abbrev State := Config (Locks Data Mutex) Thread
abbrev Step := Action Input (Move Choice Call)

abbrev system : Machine (Locks Data Mutex) Thread Input (Move Choice Call) := code.system
abbrev initial : State := Code.initial Mutex Frame .new

end Reentry
