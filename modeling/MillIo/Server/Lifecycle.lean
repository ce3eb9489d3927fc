-- SUMMARY: The connections of a `TcpServer` of `mill-net/src/tcp/mod.rs`: the accept routine, the handlers of connections and `close_connection`, interleaved.
import MillIo.Interleaving.Machine
import Mathlib.Data.Finset.Card

/-!
# The life of a connection

A thread is one call of `handle_event` of the listener, one readiness event of a
connection from the lookup of its handler on, or one call of `close_connection`.
Its steps are the operations on the counters, the connection map and the handler
registry, and the calls of the `NetworkHandler`. What sockets and callbacks return
is left open. The locks of the streams are left out: they only rule out
interleavings.
-/

namespace Server

open Interleaving

abbrev SocketAddr := String

inductive NetworkError
  | io (e : String)
  | accept (e : String)
  | maxConnectionsReached (peer : SocketAddr)
  | configuration (text : String)
  | handlerError (text : String)
  | eventLoopGone
  | connectionNotFound (id : ℕ)
  deriving DecidableEq

/-- The calls of the handler for a connection. All but `connected` are the starts
    of calls. -/
inductive Callback
  | connectionEstablished (peer : SocketAddr)
  | onConnect
  /-- `on_connect` has returned `Ok`. -/
  | connected
  | onData
  | onWritable
  | onDisconnect
  | connectionClosed
  deriving DecidableEq

/-- The code that takes an entry out of the connection map. -/
inductive Exit
  | disconnect
  | closeConnection
  | onConnectFailed
  deriving DecidableEq

/-- The state that the threads share. `nextConnId` counts the ids drawn, from 1 on: the
    `AtomicU64` of the source holds it modulo 2^64. The calls of the handler are recorded
    in order, as are the removals from the map and the connections for which the counter
    has been decremented. -/
structure TcpServer where
  maxConnections : Option UInt64
  listenerLocked : Bool
  connectionCounter : UInt64
  nextConnId : ℕ
  connections : Finset ℕ
  registry : Finset ℕ
  calls : List (ℕ × Callback)
  errors : List (Option ℕ × NetworkError)
  left : List (ℕ × Exit)
  uncounted : List ℕ

namespace TcpServer

def new (maxConnections : Option UInt64) : TcpServer :=
  ⟨maxConnections, false, 0, 1, ∅, ∅, [], [], [], []⟩

def unlock (s : TcpServer) : TcpServer := { s with listenerLocked := false }

def fetchSub (s : TcpServer) (id : ℕ) : TcpServer :=
  { s with connectionCounter := s.connectionCounter - 1, uncounted := s.uncounted ++ [id] }

def insert (s : TcpServer) (id : ℕ) : TcpServer := { s with connections := Insert.insert id s.connections }

def remove (s : TcpServer) (id : ℕ) (exit : Exit) : TcpServer :=
  { s with connections := s.connections.erase id, left := s.left ++ [(id, exit)] }

def register (s : TcpServer) (id : ℕ) : TcpServer := { s with registry := Insert.insert id s.registry }

def deregister (s : TcpServer) (id : ℕ) : TcpServer := { s with registry := s.registry.erase id }

def call (s : TcpServer) (id : ℕ) (callback : Callback) : TcpServer :=
  { s with calls := s.calls ++ [(id, callback)] }

def onError (s : TcpServer) (id : Option ℕ) (e : NetworkError) : TcpServer :=
  { s with errors := s.errors ++ [(id, e)] }

def connectionCount (s : TcpServer) : UInt64 := s.connectionCounter

/-- What the socket makes of the `write_all` is left open. -/
def sendTo (s : TcpServer) (id : ℕ) (written : Except String Unit) : Except NetworkError Unit :=
  if id ∈ s.connections then written.mapError .io else .error (.connectionNotFound id)

end TcpServer

/-! ## Threads -/

/-- `TcpListenerHandler::handle_event` by what it has still to do. -/
inductive Accept
  /-- At the head of the loop. -/
  | listening
  | checking (peer : SocketAddr)
  /-- About to compare and exchange. -/
  | comparing (peer : SocketAddr) (current : UInt64)
  /-- Counted, about to draw an id. -/
  | drawing (peer : SocketAddr)
  | registering (id : ℕ) (peer : SocketAddr)
  /-- Not registered, about to decrement the counter. -/
  | backingOut (id : ℕ)
  | inserting (id : ℕ) (peer : SocketAddr)
  | establishing (id : ℕ) (peer : SocketAddr)
  | connecting (id : ℕ)
  | inOnConnect (id : ℕ)
  /-- `on_connect` has failed. -/
  | removing (id : ℕ)
  | deregistering (id : ℕ)
  /-- About to decrement the counter, with or without having removed the entry. -/
  | uncounting (id : ℕ) (removed : Bool)
  | returned
  deriving DecidableEq

/-- An event of a connection by what is still to do. `ended` says that
    `handle_read` has run into the end of the stream, a read error or a failed
    `on_data`. -/
inductive Handle
  /-- Queued, about to look up the handler. -/
  | lookup
  | reading
  /-- Has read bytes. -/
  | data
  | inOnData
  /-- In `disconnect`, about to remove the entry. -/
  | removing
  | uncounting
  | deregistering
  | disconnecting
  | closing
  | writable (ended : Bool)
  | inOnWritable (ended : Bool)
  | returned (ended : Bool)
  deriving DecidableEq

/-- `TcpServer::close_connection` by what it has still to do. -/
inductive Close
  | removing
  | deregistering
  | disconnecting
  | closing
  | returned
  deriving DecidableEq

inductive Thread
  | accept (phase : Accept)
  | handle (id : ℕ) (isReadable isWritable : Bool) (phase : Handle)
  | close (id : ℕ) (phase : Close)
  deriving DecidableEq

/-- What is left open in the steps of a thread. -/
inductive Choice
  /-- The operation is done, or the callback returns `Ok`. -/
  | go
  | accepted (peer : SocketAddr)
  | wouldBlock
  | bytes
  | endOfStream
  | failed (e : String)
  | loopGone
  deriving DecidableEq

/-- The body of the accept loop has the lock of the listener to its end. -/
def Accept.proceed (s : TcpServer) : Accept → Choice → Option (TcpServer × Accept)
  | .listening, .accepted peer =>
    if s.listenerLocked then none else some ({ s with listenerLocked := true }, .checking peer)
  | .listening, .wouldBlock => if s.listenerLocked then none else some (s, .returned)
  | .listening, .failed e =>
    if s.listenerLocked then none else some (s.onError none (.accept e), .returned)
  | .checking peer, .go =>
    match s.maxConnections with
    | some max =>
      if s.connectionCounter ≥ max then
        some ((s.onError none (.maxConnectionsReached peer)).unlock, .listening)
      else some (s, .comparing peer s.connectionCounter)
    | none => some ({ s with connectionCounter := s.connectionCounter + 1 }, .drawing peer)
  | .comparing peer current, .go =>
    if s.connectionCounter = current then
      some ({ s with connectionCounter := current + 1 }, .drawing peer)
    else some (s, .checking peer)
  | .drawing peer, .go =>
    some ({ s with nextConnId := s.nextConnId + 1 }, .registering (s.nextConnId % 2 ^ 64) peer)
  | .drawing peer, .failed e =>
    some ({ s.onError none (.configuration s!"Failed to set TCP_NODELAY: {e}") with
      nextConnId := s.nextConnId + 1 }, .registering (s.nextConnId % 2 ^ 64) peer)
  | .registering id peer, .go => some (s.register id, .inserting id peer)
  | .registering id _, .loopGone => some (s.onError none .eventLoopGone, .backingOut id)
  | .registering id _, .failed e => some (s.onError (some id) (.io e), .backingOut id)
  | .backingOut id, .go => some ((s.fetchSub id).unlock, .listening)
  | .inserting id peer, .go => some (s.insert id, .establishing id peer)
  | .establishing id peer, .go => some (s.call id (.connectionEstablished peer), .connecting id)
  | .connecting id, .go => some (s.call id .onConnect, .inOnConnect id)
  | .inOnConnect id, .go => some ((s.call id .connected).unlock, .listening)
  | .inOnConnect id, .failed e =>
    some (s.onError (some id) (.handlerError s!"on_connect: {e}"), .removing id)
  | .removing id, .go =>
    if id ∈ s.connections then some (s.remove id .onConnectFailed, .deregistering id)
    else some (s, .uncounting id false)
  | .deregistering id, .go => some (s.deregister id, .uncounting id true)
  | .deregistering id, .failed _ => some (s, .uncounting id true)
  | .uncounting id _, .go => some ((s.fetchSub id).unlock, .listening)
  | _, _ => none

/-- The rest of `handle_event` after `handle_read`. -/
def Handle.afterRead (isWritable ended : Bool) : Handle :=
  if isWritable then .writable ended else .returned ended

/-- A connection is registered for both interests. -/
def Handle.proceed (s : TcpServer) (id : ℕ) (isReadable isWritable : Bool) :
    Handle → Choice → Option (TcpServer × Handle)
  | .lookup, .go =>
    if id ∈ s.registry then
      some (s, if isReadable then .reading else afterRead isWritable false)
    else some (s, .returned false)
  | .reading, .bytes => some (s, .data)
  | .reading, .endOfStream => some (s, .removing)
  | .reading, .wouldBlock => some (s, afterRead isWritable false)
  | .reading, .failed e => some (s.onError (some id) (.io e), .removing)
  | .data, .go => some (s.call id .onData, .inOnData)
  | .inOnData, .go => some (s, afterRead isWritable false)
  | .inOnData, .failed e =>
    some (s.onError (some id) (.handlerError s!"on_data: {e}"), .removing)
  | .removing, .go =>
    if id ∈ s.connections then some (s.remove id .disconnect, .uncounting)
    else some (s, afterRead isWritable true)
  | .uncounting, .go => some (s.fetchSub id, .deregistering)
  | .deregistering, .go => some (s.deregister id, .disconnecting)
  | .deregistering, .failed _ => some (s, .disconnecting)
  | .deregistering, .loopGone => some (s, .disconnecting)
  | .disconnecting, .go => some (s.call id .onDisconnect, .closing)
  | .disconnecting, .failed e =>
    some ((s.call id .onDisconnect).onError (some id) (.handlerError s!"on_disconnect: {e}"),
      .closing)
  | .closing, .go => some (s.call id .connectionClosed, afterRead isWritable true)
  | .writable ended, .go => some (s.call id .onWritable, .inOnWritable ended)
  | .inOnWritable ended, .go => some (s, .returned ended)
  | .inOnWritable ended, .failed e =>
    some (s.onError (some id) (.handlerError s!"on_writable: {e}"), .returned ended)
  | _, _ => none

def Close.proceed (s : TcpServer) (id : ℕ) : Close → Choice → Option (TcpServer × Close)
  | .removing, .go =>
    if id ∈ s.connections then some (s.remove id .closeConnection, .deregistering)
    else some (s, .returned)
  | .deregistering, .go => some (s.deregister id, .disconnecting)
  | .deregistering, .failed _ => some (s, .disconnecting)
  | .disconnecting, .go => some (s.call id .onDisconnect, .closing)
  | .disconnecting, .failed e =>
    some ((s.call id .onDisconnect).onError (some id) (.handlerError s!"on_disconnect: {e}"),
      .closing)
  | .closing, .go => some (s.call id .connectionClosed, .returned)
  | _, _ => none

/-! ## The system -/

inductive Input
  /-- An event of the listener. -/
  | listener
  /-- An event of a connection is dispatched. -/
  | event (id : ℕ) (isReadable isWritable : Bool)
  | closeConnection (id : ℕ)
  deriving DecidableEq

def Input.thread : Input → Thread
  | .listener => .accept .listening
  | .event id isReadable isWritable => .handle id isReadable isWritable .lookup
  | .closeConnection id => .close id .removing

def system : Machine TcpServer Thread Input Choice where
  env s input := some (s, [input.thread])
  act s
    | .accept t, o => (t.proceed s o).map fun r => (r.1, .accept r.2)
    | .handle id isReadable isWritable t, o =>
      (t.proceed s id isReadable isWritable o).map fun r =>
        (r.1, .handle id isReadable isWritable r.2)
    | .close id t, o => (t.proceed s id o).map fun r => (r.1, .close id r.2)

abbrev State := Config TcpServer Thread

abbrev Step := Action Input Choice

def initial (maxConnections : Option UInt64) : State := ⟨.new maxConnections, []⟩

/-! ## What a step can do -/

inductive Accept.Acts (s : TcpServer) : Accept → Choice → TcpServer → Accept → Prop
  | listen (peer : SocketAddr) : s.listenerLocked = false →
      Acts s .listening (.accepted peer) { s with listenerLocked := true } (.checking peer)
  | stop (o : Choice) (errors : List (Option ℕ × NetworkError)) : s.listenerLocked = false →
      Acts s .listening o { s with errors := errors } .returned
  | reject (peer : SocketAddr) (errors : List (Option ℕ × NetworkError)) :
      Acts s (.checking peer) .go { s with errors := errors, listenerLocked := false } .listening
  | load (peer : SocketAddr) (max : UInt64) :
      s.maxConnections = some max → s.connectionCounter < max →
      Acts s (.checking peer) .go s (.comparing peer s.connectionCounter)
  | count (peer : SocketAddr) : s.maxConnections = none →
      Acts s (.checking peer) .go { s with connectionCounter := s.connectionCounter + 1 }
        (.drawing peer)
  | exchange (peer : SocketAddr) :
      Acts s (.comparing peer s.connectionCounter) .go
        { s with connectionCounter := s.connectionCounter + 1 } (.drawing peer)
  | retry (peer : SocketAddr) (current : UInt64) :
      Acts s (.comparing peer current) .go s (.checking peer)
  | draw (peer : SocketAddr) (o : Choice) (errors : List (Option ℕ × NetworkError)) :
      Acts s (.drawing peer) o { s with errors := errors, nextConnId := s.nextConnId + 1 }
        (.registering (s.nextConnId % 2 ^ 64) peer)
  | register (id : ℕ) (peer : SocketAddr) :
      Acts s (.registering id peer) .go (s.register id) (.inserting id peer)
  | backOut (id : ℕ) (peer : SocketAddr) (o : Choice) (errors : List (Option ℕ × NetworkError)) :
      Acts s (.registering id peer) o { s with errors := errors } (.backingOut id)
  | backedOut (id : ℕ) : Acts s (.backingOut id) .go (s.fetchSub id).unlock .listening
  | insert (id : ℕ) (peer : SocketAddr) :
      Acts s (.inserting id peer) .go (s.insert id) (.establishing id peer)
  | establish (id : ℕ) (peer : SocketAddr) :
      Acts s (.establishing id peer) .go (s.call id (.connectionEstablished peer)) (.connecting id)
  | connect (id : ℕ) : Acts s (.connecting id) .go (s.call id .onConnect) (.inOnConnect id)
  | connected (id : ℕ) :
      Acts s (.inOnConnect id) .go (s.call id .connected).unlock .listening
  | fail (id : ℕ) (e : String) (errors : List (Option ℕ × NetworkError)) :
      Acts s (.inOnConnect id) (.failed e) { s with errors := errors } (.removing id)
  | remove (id : ℕ) : id ∈ s.connections →
      Acts s (.removing id) .go (s.remove id .onConnectFailed) (.deregistering id)
  | gone (id : ℕ) : id ∉ s.connections → Acts s (.removing id) .go s (.uncounting id false)
  | deregister (id : ℕ) : Acts s (.deregistering id) .go (s.deregister id) (.uncounting id true)
  | refused (id : ℕ) (e : String) :
      Acts s (.deregistering id) (.failed e) s (.uncounting id true)
  | uncount (id : ℕ) (removed : Bool) :
      Acts s (.uncounting id removed) .go (s.fetchSub id).unlock .listening

inductive Handle.Acts (s : TcpServer) (id : ℕ) (isReadable isWritable : Bool) :
    Handle → Choice → TcpServer → Handle → Prop
  | found : id ∈ s.registry →
      Acts s id isReadable isWritable .lookup .go s
        (if isReadable then .reading else afterRead isWritable false)
  | missing : Acts s id isReadable isWritable .lookup .go s (.returned false)
  | read : Acts s id isReadable isWritable .reading .bytes s .data
  | nothing : Acts s id isReadable isWritable .reading .wouldBlock s (afterRead isWritable false)
  | ended (o : Choice) (errors : List (Option ℕ × NetworkError)) :
      Acts s id isReadable isWritable .reading o { s with errors := errors } .removing
  | data : Acts s id isReadable isWritable .data .go (s.call id .onData) .inOnData
  | handled : Acts s id isReadable isWritable .inOnData .go s (afterRead isWritable false)
  | failed (o : Choice) (errors : List (Option ℕ × NetworkError)) :
      Acts s id isReadable isWritable .inOnData o { s with errors := errors } .removing
  | remove : id ∈ s.connections →
      Acts s id isReadable isWritable .removing .go (s.remove id .disconnect) .uncounting
  | gone : id ∉ s.connections →
      Acts s id isReadable isWritable .removing .go s (afterRead isWritable true)
  | uncount : Acts s id isReadable isWritable .uncounting .go (s.fetchSub id) .deregistering
  | deregister :
      Acts s id isReadable isWritable .deregistering .go (s.deregister id) .disconnecting
  | refused (o : Choice) : o ≠ .go →
      Acts s id isReadable isWritable .deregistering o s .disconnecting
  | disconnect (o : Choice) (errors : List (Option ℕ × NetworkError)) :
      Acts s id isReadable isWritable .disconnecting o
        { s.call id .onDisconnect with errors := errors } .closing
  | close : Acts s id isReadable isWritable .closing .go (s.call id .connectionClosed)
      (afterRead isWritable true)
  | writable (ended : Bool) : Acts s id isReadable isWritable (.writable ended) .go
      (s.call id .onWritable) (.inOnWritable ended)
  | written (ended : Bool) (o : Choice) (errors : List (Option ℕ × NetworkError)) :
      Acts s id isReadable isWritable (.inOnWritable ended) o { s with errors := errors }
        (.returned ended)

inductive Close.Acts (s : TcpServer) (id : ℕ) : Close → Choice → TcpServer → Close → Prop
  | remove : id ∈ s.connections →
      Acts s id .removing .go (s.remove id .closeConnection) .deregistering
  | gone : id ∉ s.connections → Acts s id .removing .go s .returned
  | deregister : Acts s id .deregistering .go (s.deregister id) .disconnecting
  | refused (e : String) : Acts s id .deregistering (.failed e) s .disconnecting
  | disconnect (o : Choice) (errors : List (Option ℕ × NetworkError)) :
      Acts s id .disconnecting o { s.call id .onDisconnect with errors := errors } .closing
  | close : Acts s id .closing .go (s.call id .connectionClosed) .returned

inductive Acts (s : TcpServer) : Thread → Choice → TcpServer → Thread → Prop
  | accept (t t' : Accept) (o : Choice) (s' : TcpServer) : t.Acts s o s' t' →
      Acts s (.accept t) o s' (.accept t')
  | handle (id : ℕ) (isReadable isWritable : Bool) (t t' : Handle) (o : Choice) (s' : TcpServer) :
      t.Acts s id isReadable isWritable o s' t' →
      Acts s (.handle id isReadable isWritable t) o s' (.handle id isReadable isWritable t')
  | close (id : ℕ) (t t' : Close) (o : Choice) (s' : TcpServer) : t.Acts s id o s' t' →
      Acts s (.close id t) o s' (.close id t')

section Inversion

variable {s s' : TcpServer} {o : Choice}

theorem Accept.acts_of_proceed {t t' : Accept} (h : t.proceed s o = some (s', t')) :
    t.Acts s o s' t' := by
  unfold Accept.proceed at h
  split at h
  · split at h
    · cases h
    · rename_i hlocked
      cases h
      exact .listen _ (by simpa using hlocked)
  · split at h
    · cases h
    · rename_i hlocked
      cases h
      exact .stop _ _ (by simpa using hlocked)
  · split at h
    · cases h
    · rename_i hlocked
      cases h
      exact .stop _ _ (by simpa using hlocked)
  · split at h
    · rename_i max hmax
      split at h
      · cases h
        exact .reject _ _
      · rename_i hlt
        cases h
        exact .load _ max hmax (UInt64.not_le.1 hlt)
    · rename_i hmax
      cases h
      exact .count _ hmax
  · split at h
    · rename_i hcurrent
      cases h
      subst hcurrent
      exact .exchange _
    · cases h
      exact .retry _ _
  · cases h
    exact .draw _ _ _
  · cases h
    exact .draw _ _ _
  · cases h
    exact .register _ _
  · cases h
    exact .backOut _ _ _ _
  · cases h
    exact .backOut _ _ _ _
  · cases h
    exact .backedOut _
  · cases h
    exact .insert _ _
  · cases h
    exact .establish _ _
  · cases h
    exact .connect _
  · cases h
    exact .connected _
  · cases h
    exact .fail _ _ _
  · split at h
    · rename_i hmem
      cases h
      exact .remove _ hmem
    · rename_i hmem
      cases h
      exact .gone _ hmem
  · cases h
    exact .deregister _
  · cases h
    exact .refused _ _
  · cases h
    exact .uncount _ _
  · cases h

theorem Handle.acts_of_proceed {id : ℕ} {isReadable isWritable : Bool} {t t' : Handle}
    (h : t.proceed s id isReadable isWritable o = some (s', t')) :
    t.Acts s id isReadable isWritable o s' t' := by
  unfold Handle.proceed at h
  split at h
  · split at h
    · rename_i hmem
      obtain ⟨rfl, rfl⟩ := Prod.mk.inj (Option.some.inj h)
      exact .found hmem
    · cases h
      exact .missing
  · cases h
    exact .read
  · cases h
    exact .ended _ _
  · obtain ⟨rfl, rfl⟩ := Prod.mk.inj (Option.some.inj h)
    exact .nothing
  · cases h
    exact .ended _ _
  · cases h
    exact .data
  · obtain ⟨rfl, rfl⟩ := Prod.mk.inj (Option.some.inj h)
    exact .handled
  · cases h
    exact .failed _ _
  · split at h
    · rename_i hmem
      cases h
      exact .remove hmem
    · rename_i hmem
      obtain ⟨rfl, rfl⟩ := Prod.mk.inj (Option.some.inj h)
      exact .gone hmem
  · cases h
    exact .uncount
  · cases h
    exact .deregister
  · cases h
    exact .refused _ (by simp)
  · cases h
    exact .refused _ (by simp)
  · cases h
    exact .disconnect _ _
  · cases h
    exact .disconnect _ _
  · obtain ⟨rfl, rfl⟩ := Prod.mk.inj (Option.some.inj h)
    exact .close
  · cases h
    exact .writable _
  · cases h
    exact .written _ _ _
  · cases h
    exact .written _ _ _
  · cases h

theorem Close.acts_of_proceed {id : ℕ} {t t' : Close} (h : t.proceed s id o = some (s', t')) :
    t.Acts s id o s' t' := by
  unfold Close.proceed at h
  split at h
  · split at h
    · rename_i hmem
      cases h
      exact .remove hmem
    · rename_i hmem
      cases h
      exact .gone hmem
  · cases h
    exact .deregister
  · cases h
    exact .refused _
  · cases h
    exact .disconnect _ _
  · cases h
    exact .disconnect _ _
  · cases h
    exact .close
  · cases h

theorem acts_of_act {t t' : Thread} (h : system.act s t o = some (s', t')) : Acts s t o s' t' := by
  cases t with
  | accept t =>
    obtain ⟨⟨s'', t''⟩, hproceed, heq⟩ := Option.map_eq_some_iff.1 h
    cases heq
    exact .accept _ _ _ _ (Accept.acts_of_proceed hproceed)
  | handle id isReadable isWritable t =>
    obtain ⟨⟨s'', t''⟩, hproceed, heq⟩ := Option.map_eq_some_iff.1 h
    cases heq
    exact .handle _ _ _ _ _ _ _ (Handle.acts_of_proceed hproceed)
  | close id t =>
    obtain ⟨⟨s'', t''⟩, hproceed, heq⟩ := Option.map_eq_some_iff.1 h
    cases heq
    exact .close _ _ _ _ _ (Close.acts_of_proceed hproceed)

/-- All that a step can do: a thread comes into being, or one thread goes on. -/
theorem step_cases {s u : State} {a : Step} (h : system.step s a = some u) :
    (∃ input : Input, a = .env input ∧ u = ⟨s.shared, s.threads ++ [input.thread]⟩) ∨
    (∃ o s' t t', ∃ l l' : List Thread, a = .act l.length o ∧ s.threads = l ++ t :: l' ∧
      Acts s.shared t o s' t' ∧ u = ⟨s', l ++ t' :: l'⟩) := by
  rcases Machine.step_cases h with ⟨input, r, rfl, hr, rfl⟩ | ⟨o, t, ⟨s', t'⟩, l, l', rfl, hts, hr, rfl⟩
  · cases hr
    exact .inl ⟨input, rfl, rfl⟩
  · exact .inr ⟨o, s', t, t', l, l', rfl, hts, acts_of_act hr, rfl⟩

end Inversion

/-- What holds of a new server and is kept by new threads and by the steps of
    threads holds in every state of a run. It may lean on `J`, known of all these
    states. -/
theorem invariant_of_run {I J : State → Prop} {ok : State → Step → Prop} {max : Option UInt64}
    {as : List Step} {s : State} (h : Run system.step ok (initial max) as s)
    (hJ : ∀ as t, Run system.step ok (initial max) as t → J t) (h0 : I (initial max))
    (henv : ∀ t input, J t → I t → I ⟨t.shared, t.threads ++ [Input.thread input]⟩)
    (hact : ∀ s l l' t o s' t', J ⟨s, l ++ t :: l'⟩ → I ⟨s, l ++ t :: l'⟩ →
      ok ⟨s, l ++ t :: l'⟩ (.act l.length o) → Acts s t o s' t' → I ⟨s', l ++ t' :: l'⟩) :
    I s := by
  refine h.invariant_of hJ h0 fun s a u hJs hIs hok hstep => ?_
  rcases step_cases hstep with ⟨input, rfl, rfl⟩ | ⟨o, s', t, t', l, l', rfl, hts, hacts, rfl⟩
  · exact henv s input hJs hIs
  · obtain ⟨s, ts⟩ := s
    subst hts
    exact hact s l l' t o s' t' hJs hIs hok hacts

end Server
