-- SUMMARY: Readiness events of one source of `mill-net/src/tcp/mod.rs` and the workers that handle them: server connection, client connection or listener.
import MillIo.EventLoop.Registry
import MillIo.EventLoop.ThreadPool
import MillIo.Interleaving.Machine
import MillIo.ObjectPool.Pool

/-!
# Events of one source

A source is a connection, and what it receives are bytes, or it is the listener, and
what it receives are connections. The poller reports a source when something has
arrived since its last report, the reactor dispatches the reports to the workers of
the pool, and each worker looks up the handler and runs `handle_event`. A thread is a
worker, the one that registers the source, or one in `close_connection`. The locks of
the stream and of the listener are left out where a read or an accept is one step
anyway; without them there are more interleavings.

The registry belongs to the event loop. Whatever else is registered or deregistered
under the token of the source replaces or removes its handler.
-/

open Interleaving

/-- Whose handler is run. -/
inductive Source
  /-- A `TcpConnectionHandler`. -/
  | server
  /-- The `TcpClientHandler`. -/
  | client
  /-- The `TcpListenerHandler`. -/
  | listener
  deriving DecidableEq

/-- What an event says about the source. -/
structure Readiness where
  readable : Bool
  writable : Bool
  deriving DecidableEq

/-- Whose handler is in the registry under the token of the source. -/
inductive Owner
  | self
  | another
  deriving DecidableEq

/-- The socket, the way of its events to the workers, and where the source is
    registered: with the poller, under its token in the registry of handlers, and in the
    map of connections (for a client: it has its stream). In `held` are the bytes that
    workers have read and not passed on yet, the oldest first. -/
structure Io (β : Type*) where
  received : List β
  unread : List β
  closed : Bool
  /-- Something has arrived that the poller has not reported yet. -/
  armed : Bool
  events : List Readiness
  pool : ThreadPool Readiness
  polled : Bool
  owner : Option Owner
  listed : Bool
  held : List (ℕ × List β)
  delivered : List β

namespace Io

/-- Where a thread is. `writable` says whether the event is writable too. -/
inductive Phase
  /-- A worker without a task, or another thread that has ended. -/
  | idle
  | lookup (e : Readiness)
  /-- About to read, or to accept. -/
  | reading (writable : Bool)
  /-- Has read, and is about to call `on_data`. -/
  | calling (writable : Bool)
  /-- In `on_data`, or busy with a connection that has been accepted. -/
  | handling (writable : Bool)
  /-- About to take the connection out of the map, or to drop the stream. -/
  | removing (writable : Bool)
  | deregistering (writable : Bool)
  /-- About to remove the handler from the registry. -/
  | leaving (writable : Bool)
  /-- In `on_writable`. -/
  | writing
  | registering
  /-- About to insert the handler into the registry. -/
  | entering
  /-- About to insert the connection into the map. -/
  | listing
  /-- In `on_connect`. -/
  | connecting
  deriving DecidableEq

structure Thread where
  worker : Option ℕ
  phase : Phase
  deriving DecidableEq

/-- What is left open in the steps of a thread. -/
inductive Choice
  /-- The operation is done, or the callback returns `Ok`. -/
  | go
  /-- The operation fails, or the callback returns an error. -/
  | fail
  /-- The read returns `n` bytes. -/
  | data (n : ℕ)
  /-- A connection is accepted, or rejected because there are too many. -/
  | accept
  | wouldBlock
  | eof
  /-- The read or accept reports any other error. -/
  | error
  deriving DecidableEq

inductive Input (β : Type*)
  | arrive (items : List β)
  /-- The stream ends. -/
  | ends
  /-- The poller reports the source, which is writable or not. -/
  | poll (writable : Bool)
  /-- The reactor hands the next event to the pool. -/
  | dispatch
  /-- The reactor hands an event of another source to the pool. -/
  | execOther
  /-- The same, of a source with the same token. -/
  | execShared (e : Readiness)
  /-- Another source is registered under the token. -/
  | replace
  /-- The token is deregistered for another source. -/
  | remove
  /-- `close_connection` of the server, or `disconnect` of the client. -/
  | close

variable {β : Type*}

/-- The bytes that a worker holds, and what all others hold. -/
def heldBy (i : ℕ) : List (ℕ × List β) → Option (List β × List (ℕ × List β))
  | [] => none
  | (j, bytes) :: rest =>
    if j = i then some (bytes, rest) else (heldBy i rest).map fun r => (r.1, (j, bytes) :: r.2)

/-! ## Steps of a thread -/

/-- `handle_event` up to its first operation. -/
def handleEvent (k : Source) (e : Readiness) : Phase :=
  match k with
  | .listener => if e.readable then .reading false else .idle
  | _ => if e.readable then .reading e.writable else if e.writable then .writing else .idle

/-- The rest of `handle_event` behind `handle_read`. -/
def afterRead (writable : Bool) : Phase := if writable then .writing else .idle

/-- The client has dropped its stream. -/
def streamGone (k : Source) (x : Io β) : Bool := k = .client && !x.listed

/-- `read` and `accept`, and where their result leads. -/
def handleRead (k : Source) (x : Io β) (i : ℕ) (writable : Bool) : Choice → Option (Io β × Phase)
  | .go => if x.streamGone k then some (x, afterRead writable) else none
  | .data n =>
    if k ≠ .listener ∧ x.streamGone k = false ∧ 0 < n ∧ n ≤ ObjectPool.ioBufferSize ∧
        n ≤ x.unread.length then
      some ({ x with unread := x.unread.drop n, held := x.held ++ [(i, x.unread.take n)] },
        .calling writable)
    else none
  | .accept =>
    match k, x.unread with
    | .listener, c :: rest =>
      some ({ x with unread := rest, delivered := x.delivered ++ [c] }, .handling writable)
    | _, _ => none
  | .wouldBlock =>
    if x.streamGone k = false ∧ x.unread = [] ∧ x.closed = false then some (x, afterRead writable)
    else none
  | .eof =>
    if k ≠ .listener ∧ x.streamGone k = false ∧ x.unread = [] ∧ x.closed = true then
      some (x, .removing writable)
    else none
  | .error =>
    if x.streamGone k then none
    else some (x, if k = .listener then afterRead writable else .removing writable)
  | .fail => none

def proceed (k : Source) (x : Io β) (worker : Option ℕ) : Phase → Choice → Option (Io β × Phase)
  | .idle, .go => worker.bind fun i =>
    (x.pool.recv i).map fun r => ({ x with pool := r.2 }, .lookup r.1)
  | .lookup e, .go => some (x, if x.owner = some .self then handleEvent k e else .idle)
  | .reading writable, o => worker.bind fun i => x.handleRead k i writable o
  | .calling writable, .go => worker.bind fun i => (heldBy i x.held).map fun r =>
    ({ x with held := r.2, delivered := x.delivered ++ r.1 }, .handling writable)
  | .handling writable, .go =>
    some (x, if k = .listener then .reading writable else afterRead writable)
  | .handling writable, .fail =>
    some (x, if k = .listener then .reading writable else .removing writable)
  | .removing writable, .go =>
    match k with
    | .server =>
      if x.listed then some ({ x with listed := false }, .deregistering writable)
      else some (x, afterRead writable)
    | .client =>
      -- dropping the stream deregisters it, but the handler stays: its token is another
      some ({ x with listed := false, polled := false }, afterRead writable)
    | .listener => none
  | .deregistering writable, .go => some ({ x with polled := false }, .leaving writable)
  | .deregistering writable, .fail => some (x, afterRead writable)
  | .leaving writable, .go => some ({ x with owner := none }, afterRead writable)
  | .writing, .go => some (x, .idle)
  | .registering, .go =>
    if x.streamGone k then none
    else some ({ x with polled := true, armed := x.armed || !x.unread.isEmpty || x.closed }, .entering)
  | .registering, .fail => some (x, .idle)
  | .entering, .go =>
    some ({ x with owner := some .self }, match k with
      | .server => .listing
      | .client => .connecting
      | .listener => .idle)
  | .listing, .go => some ({ x with listed := true }, .connecting)
  | .connecting, .go => some (x, .idle)
  | .connecting, .fail => some (x, if k = .server then .removing false else .idle)
  | _, _ => none

/-! ## The system -/

def enter (k : Source) (x : Io β) : Input β → Option (Io β × List Thread)
  | .arrive items =>
    if items ≠ [] ∧ x.closed = false then
      some ({ x with
        received := x.received ++ items
        unread := x.unread ++ items
        armed := x.armed || x.polled }, [])
    else none
  | .ends =>
    if k = .listener ∨ x.closed = true then none
    else some ({ x with closed := true, armed := x.armed || x.polled }, [])
  | .poll writable =>
    if x.events = [] ∧ x.polled = true ∧ (x.armed = true ∨ writable = true) then
      some ({ x with events := [⟨x.armed, writable⟩], armed := false }, [])
    else none
  | .dispatch =>
    -- `exec` divides by the number of workers
    match x.events, x.pool.queues with
    | e :: es, _ :: _ => some ({ x with events := es, pool := x.pool.exec e }, [])
    | _, _ => none
  | .execOther => some ({ x with pool := x.pool.execOther }, [])
  | .execShared e =>
    match x.pool.queues with
    | _ :: _ => some ({ x with pool := x.pool.exec e }, [])
    | [] => none
  | .replace => some ({ x with owner := some .another }, [])
  | .remove => some ({ x with owner := none }, [])
  | .close =>
    match k with
    | .server => some (x, [⟨none, .removing false⟩])
    | .client => some ({ x with listed := false, polled := false }, [])
    | .listener => none

def system (β : Type*) (k : Source) : Machine (Io β) Thread (Input β) Choice where
  env := enter k
  act x t o := (x.proceed k t.worker t.phase o).map fun r => (r.1, ⟨t.worker, r.2⟩)

abbrev State (β : Type*) := Config (Io β) Thread

abbrev Step (β : Type*) := Action (Input β) Choice

/-- A source that is about to be registered, and idle workers. -/
def initial (β : Type*) (k : Source) (workers : ℕ) : State β where
  shared :=
    { received := [], unread := [], closed := false, armed := false, events := []
      pool := .new workers, polled := false, owner := none, listed := k = .client
      held := [], delivered := [] }
  threads := (List.range workers).map (fun i => ⟨some i, .idle⟩) ++ [⟨none, .registering⟩]

/-! ## The registry of the event loop -/

section Registry

variable {σ η : Type*} [DecidableEq σ] [DecidableEq η] (handle : EventLoop.PollHandle σ η)
  (token token' : EventLoop.Token) (own : η)

/-- What the registry has under the token, for the source with the handler `own`. -/
def ownerIn : Option Owner :=
  (handle.registery token).map fun entry => if entry.handler = own then .self else .another

/-- A registration under the token enters or replaces the handler. -/
theorem ownerIn_register (src : σ) (interest : EventLoop.Interest) (handler : η) :
    ownerIn (handle.register src token' interest handler true).2 token own =
      if token = token' then some (if handler = own then .self else .another)
      else ownerIn handle token own := by
  unfold ownerIn
  by_cases htoken : token = token'
  · subst htoken
    simp [EventLoop.PollHandle.register]
  · simp [EventLoop.PollHandle.register, htoken]

/-- A deregistration of the token removes the handler, whosever it is. -/
theorem ownerIn_deregister (src : σ) :
    ownerIn (handle.deregister src token' true).2 token own =
      if token = token' then none else ownerIn handle token own := by
  unfold ownerIn
  by_cases htoken : token = token'
  · subst htoken
    simp [EventLoop.PollHandle.deregister]
  · simp [EventLoop.PollHandle.deregister, htoken]

/-- The interest that a source is registered with. -/
def interest : Source → EventLoop.Interest
  | .listener => .readableOnly
  | _ => .readableWritable

omit [DecidableEq η] in
/-- An event that the interest leaves out is none to `handle_event` either. -/
theorem handleEvent_of_select {handler : η} {k : Source} {e : Readiness}
    (h : (EventLoop.HandlerEntry.mk handler (interest k)).select
      ⟨token, e.readable, e.writable⟩ = none) : handleEvent k e = .idle := by
  obtain ⟨readable, writable⟩ := e
  cases k <;> cases readable <;> cases writable <;> first | rfl | cases h

omit [DecidableEq σ] in
/-- A worker that looks the token up runs the handler that `dispatch_event` calls. -/
theorem proceed_lookup {k : Source} {x : Io β} {worker : Option ℕ} {e : Readiness}
    (howner : x.owner = ownerIn handle token own)
    (hinterest : ∀ entry, handle.registery token = some entry → entry.handler = own →
      entry.interest = interest k) :
    x.proceed k worker (.lookup e) .go =
      some (x, if handle.dispatchEvent ⟨token, e.readable, e.writable⟩ = some own
        then handleEvent k e else .idle) := by
  change some (x, if x.owner = some .self then handleEvent k e else .idle) = _
  rw [howner, ownerIn, EventLoop.PollHandle.dispatchEvent]
  cases hentry : handle.registery token with
  | none => rfl
  | some entry =>
    obtain ⟨handler, given⟩ := entry
    by_cases hown : handler = own
    · subst hown
      obtain rfl := hinterest _ hentry rfl
      cases hselect : (EventLoop.HandlerEntry.mk handler (interest k)).select
          ⟨token, e.readable, e.writable⟩ with
      | none => simp [hselect, handleEvent_of_select token hselect]
      | some handler' => simp [hselect, EventLoop.HandlerEntry.eq_of_select hselect]
    · have hnot : (EventLoop.HandlerEntry.mk handler given).select
          ⟨token, e.readable, e.writable⟩ ≠ some own :=
        fun hselect => hown (EventLoop.HandlerEntry.eq_of_select hselect).symm
      simp [hown, hnot]

end Registry

/-! ## What a step can do -/

variable {k : Source} {x x' : Io β} {worker : Option ℕ} {p p' : Phase} {o : Choice}

inductive Acts (k : Source) (x : Io β) (worker : Option ℕ) : Phase → Choice → Io β → Phase → Prop
  | recv (i : ℕ) (e : Readiness) (pool : ThreadPool Readiness) : worker = some i →
      x.pool.recv i = some (e, pool) → Acts k x worker .idle .go { x with pool := pool } (.lookup e)
  | found (e : Readiness) : x.owner = some .self →
      Acts k x worker (.lookup e) .go x (handleEvent k e)
  | missed (e : Readiness) : x.owner ≠ some .self → Acts k x worker (.lookup e) .go x .idle
  | gone (writable : Bool) : x.streamGone k = true →
      Acts k x worker (.reading writable) .go x (afterRead writable)
  | data (writable : Bool) (i n : ℕ) : worker = some i → k ≠ .listener → 0 < n →
      n ≤ ObjectPool.ioBufferSize → n ≤ x.unread.length →
      Acts k x worker (.reading writable) (.data n)
        { x with unread := x.unread.drop n, held := x.held ++ [(i, x.unread.take n)] }
        (.calling writable)
  | accept (writable : Bool) (c : β) (rest : List β) : k = .listener → x.unread = c :: rest →
      Acts k x worker (.reading writable) .accept
        { x with unread := rest, delivered := x.delivered ++ [c] } (.handling writable)
  | wouldBlock (writable : Bool) : x.unread = [] →
      Acts k x worker (.reading writable) .wouldBlock x (afterRead writable)
  | eof (writable : Bool) : k ≠ .listener → x.unread = [] →
      Acts k x worker (.reading writable) .eof x (.removing writable)
  | acceptError (writable : Bool) : k = .listener →
      Acts k x worker (.reading writable) .error x (afterRead writable)
  | readError (writable : Bool) : k ≠ .listener →
      Acts k x worker (.reading writable) .error x (.removing writable)
  | call (writable : Bool) (i : ℕ) (bytes : List β) (rest : List (ℕ × List β)) :
      worker = some i → heldBy i x.held = some (bytes, rest) →
      Acts k x worker (.calling writable) .go
        { x with held := rest, delivered := x.delivered ++ bytes } (.handling writable)
  | accepted (writable : Bool) (o : Choice) : k = .listener →
      Acts k x worker (.handling writable) o x (.reading writable)
  | handled (writable : Bool) : k ≠ .listener →
      Acts k x worker (.handling writable) .go x (afterRead writable)
  | handledError (writable : Bool) : k ≠ .listener →
      Acts k x worker (.handling writable) .fail x (.removing writable)
  | remove (writable : Bool) : k = .server → x.listed = true →
      Acts k x worker (.removing writable) .go { x with listed := false } (.deregistering writable)
  | unlisted (writable : Bool) : k = .server → x.listed = false →
      Acts k x worker (.removing writable) .go x (afterRead writable)
  | drop (writable : Bool) : k = .client →
      Acts k x worker (.removing writable) .go { x with listed := false, polled := false }
        (afterRead writable)
  | deregister (writable : Bool) :
      Acts k x worker (.deregistering writable) .go { x with polled := false } (.leaving writable)
  | deregisterError (writable : Bool) :
      Acts k x worker (.deregistering writable) .fail x (afterRead writable)
  | leave (writable : Bool) :
      Acts k x worker (.leaving writable) .go { x with owner := none } (afterRead writable)
  | written : Acts k x worker .writing .go x .idle
  | register : x.streamGone k = false → Acts k x worker .registering .go
      { x with polled := true, armed := x.armed || !x.unread.isEmpty || x.closed } .entering
  | registerError : Acts k x worker .registering .fail x .idle
  | enter : Acts k x worker .entering .go { x with owner := some .self }
      (match k with
        | .server => .listing
        | .client => .connecting
        | .listener => .idle)
  | list : Acts k x worker .listing .go { x with listed := true } .connecting
  | connect : Acts k x worker .connecting .go x .idle
  | connectError : Acts k x worker .connecting .fail x (if k = .server then .removing false else .idle)

theorem acts_of_handleRead {i : ℕ} {writable : Bool} (hworker : worker = some i)
    (h : x.handleRead k i writable o = some (x', p')) : Acts k x worker (.reading writable) o x' p' := by
  unfold handleRead at h
  split at h
  · split at h
    · rename_i hgone
      cases h
      exact .gone _ hgone
    · cases h
  · split at h
    · rename_i hn
      cases h
      exact .data _ i _ hworker hn.1 hn.2.2.1 hn.2.2.2.1 hn.2.2.2.2
    · cases h
  · split at h
    · rename_i hunread
      cases h
      exact .accept _ _ _ rfl hunread
    · cases h
  · split at h
    · rename_i hn
      cases h
      exact .wouldBlock _ hn.2.1
    · cases h
  · split at h
    · rename_i hn
      cases h
      exact .eof _ hn.1 hn.2.2.1
    · cases h
  · split at h
    · cases h
    · cases h
      split
      · rename_i hk
        exact .acceptError _ hk
      · rename_i hk
        exact .readError _ hk
  · cases h

theorem acts_of_proceed (h : x.proceed k worker p o = some (x', p')) : Acts k x worker p o x' p' := by
  unfold proceed at h
  split at h
  · obtain ⟨i, hworker, hr⟩ := Option.bind_eq_some_iff.1 h
    obtain ⟨⟨e, pool⟩, hrecv, heq⟩ := Option.map_eq_some_iff.1 hr
    cases heq
    exact .recv i e pool hworker hrecv
  · rename_i e
    cases h
    split
    · rename_i howner
      exact .found e howner
    · rename_i howner
      exact .missed e howner
  · obtain ⟨i, hworker, hread⟩ := Option.bind_eq_some_iff.1 h
    exact acts_of_handleRead hworker hread
  · obtain ⟨i, hworker, hr⟩ := Option.bind_eq_some_iff.1 h
    obtain ⟨⟨bytes, rest⟩, hheld, heq⟩ := Option.map_eq_some_iff.1 hr
    cases heq
    exact .call _ i bytes rest hworker hheld
  · cases h
    split
    · rename_i hk
      exact .accepted _ _ hk
    · rename_i hk
      exact .handled _ hk
  · cases h
    split
    · rename_i hk
      exact .accepted _ _ hk
    · rename_i hk
      exact .handledError _ hk
  · split at h
    · split at h
      · rename_i hlisted
        cases h
        exact .remove _ rfl hlisted
      · rename_i hlisted
        cases h
        exact .unlisted _ rfl (Bool.eq_false_of_not_eq_true hlisted)
    · cases h
      exact .drop _ rfl
    · cases h
  · cases h
    exact .deregister _
  · cases h
    exact .deregisterError _
  · cases h
    exact .leave _
  · cases h
    exact .written
  · split at h
    · cases h
    · rename_i hgone
      cases h
      exact .register (Bool.eq_false_of_not_eq_true hgone)
  · cases h
    exact .registerError
  · cases h
    exact .enter
  · cases h
    exact .list
  · cases h
    exact .connect
  · cases h
    exact .connectError
  · cases h

inductive Enters (k : Source) (x : Io β) : Input β → Io β → List Thread → Prop
  | arrive (items : List β) : x.closed = false →
      Enters k x (.arrive items)
        { x with
          received := x.received ++ items
          unread := x.unread ++ items
          armed := x.armed || x.polled } []
  | ends : Enters k x .ends { x with closed := true, armed := x.armed || x.polled } []
  | poll (writable : Bool) : x.events = [] →
      Enters k x (.poll writable) { x with events := [⟨x.armed, writable⟩], armed := false } []
  | dispatch (e : Readiness) (es : List Readiness) : x.events = e :: es → 0 < x.pool.queues.length →
      Enters k x .dispatch { x with events := es, pool := x.pool.exec e } []
  | execOther : Enters k x .execOther { x with pool := x.pool.execOther } []
  | execShared (e : Readiness) : Enters k x (.execShared e) { x with pool := x.pool.exec e } []
  | replace : Enters k x .replace { x with owner := some .another } []
  | remove : Enters k x .remove { x with owner := none } []
  | closeConnection : k = .server → Enters k x .close x [⟨none, .removing false⟩]
  | disconnect : k = .client → Enters k x .close { x with listed := false, polled := false } []

theorem enters_of_enter {e : Input β} {y : Io β} {ts : List Thread}
    (h : x.enter k e = some (y, ts)) : Enters k x e y ts := by
  unfold Io.enter at h
  split at h
  · split at h
    · rename_i hitems
      cases h
      exact .arrive _ hitems.2
    · cases h
  · split at h
    · cases h
    · cases h
      exact .ends
  · split at h
    · rename_i hpoll
      cases h
      exact .poll _ hpoll.1
    · cases h
  · split at h
    · rename_i hevents hqueues
      cases h
      exact .dispatch _ _ hevents (by simp [hqueues])
    · cases h
  · cases h
    exact .execOther
  · split at h
    · cases h
      exact .execShared _
    · cases h
  · cases h
    exact .replace
  · cases h
    exact .remove
  · split at h
    · cases h
      exact .closeConnection rfl
    · cases h
      exact .disconnect rfl
    · cases h

/-- All that a step can do: something happens outside, or one thread goes on. -/
theorem step_cases {s u : State β} {a : Step β} (h : (system β k).step s a = some u) :
    (∃ e y ts, a = .env e ∧ Enters k s.shared e y ts ∧ u = ⟨y, s.threads ++ ts⟩) ∨
    (∃ o x' t p', ∃ l l' : List Thread, a = .act l.length o ∧ s.threads = l ++ t :: l' ∧
      Acts k s.shared t.worker t.phase o x' p' ∧ u = ⟨x', l ++ ⟨t.worker, p'⟩ :: l'⟩) := by
  rcases Machine.step_cases h with ⟨e, r, rfl, hr, rfl⟩ | ⟨o, t, r, l, l', rfl, hts, hr, rfl⟩
  · exact .inl ⟨e, r.1, r.2, rfl, enters_of_enter hr, rfl⟩
  · obtain ⟨⟨x', p'⟩, hproceed, rfl⟩ := Option.map_eq_some_iff.1 hr
    exact .inr ⟨o, x', t, p', l, l', rfl, hts, acts_of_proceed hproceed, rfl⟩

end Io
