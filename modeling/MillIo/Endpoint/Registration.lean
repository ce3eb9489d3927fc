-- SUMMARY: What `start` of a `TcpServer` and a `TcpClient` and the end of a client do to the handler registry, to the poller and to the `ServerContext`.
import MillIo.EventLoop.Registry

/-!
# Registrations of servers and clients

`start` sets the references of the context, registers its source and, for a client,
calls `on_connect`; each of these may be the last. A client is registered under the
token of its caller, and its handler deregisters it under its `ConnectionId`, which is
always the same. Callbacks are taken to leave the registry alone.
-/

namespace Endpoint

open EventLoop

variable {σ : Type*} [DecidableEq σ]

/-- An event loop. Each handler that is registered on it is a new object, and goes by its
    number. -/
structure Loop (σ : Type*) where
  id : ℕ
  poll : PollHandle σ ℕ
  made : ℕ
  older : ∀ token entry, poll.registery token = some entry → entry.handler < made

namespace Loop

def new (id : ℕ) : Loop σ where
  id := id
  poll := .new
  made := 0
  older := nofun

def register (l : Loop σ) (src : σ) (token : Token) (interest : Interest) : Loop σ where
  id := l.id
  poll := (l.poll.register src token interest l.made true).2
  made := l.made + 1
  older t entry h := by
    simp only [PollHandle.register, if_true] at h
    by_cases ht : t = token
    · subst ht
      rw [Function.update_self] at h
      cases h
      exact Nat.lt_succ_self _
    · rw [Function.update_of_ne ht] at h
      exact Nat.lt_succ_of_lt (l.older t entry h)

/-- Whether the poller accepts it is left open. -/
def deregister (l : Loop σ) (src : σ) (token : Token) (accepted : Bool) : Loop σ where
  id := l.id
  poll := (l.poll.deregister src token accepted).2
  made := l.made
  older t entry h := by
    unfold PollHandle.deregister at h
    split at h
    · by_cases ht : t = token
      · subst ht
        simp at h
      · simp only [Function.update_of_ne ht] at h
        exact l.older t entry h
    · exact l.older t entry h

/-- The source is dropped: the poller forgets it, and nobody tells the registry. -/
def drop (l : Loop σ) (src : σ) : Loop σ where
  id := l.id
  poll := { l.poll with
    polled := Function.update l.poll.polled src none
    given := Function.update l.poll.given src none }
  made := l.made
  older := l.older

end Loop

/-- The references of a `ServerContext`: its server and its event loop. -/
structure ServerContext where
  server : Option ℕ
  eventLoop : Option ℕ
  deriving DecidableEq

/-- The event loop, and the context of the server or client. -/
structure World (σ : Type*) where
  loop : Loop σ
  context : ServerContext

/-! ## `start` -/

inductive StartError
  | notConnected (text : String)
  | register (e : String)
  | onConnect (e : String)
  deriving DecidableEq

/-- What the poller makes of a registration, and what `on_connect` returns, is left open. -/
structure Outcome where
  registered : Except String Unit
  onConnect : Except String Unit

/-- `TcpClient::start`. -/
def TcpClient.start (w : World σ) (stream : Option σ) (token : Token) (o : Outcome) :
    Except StartError Unit × World σ :=
  let context : ServerContext := ⟨none, some w.loop.id⟩
  match stream with
  | none => (.error (.notConnected "TCP stream is None"), ⟨w.loop, context⟩)
  | some src =>
    match o.registered with
    | .error e => (.error (.register e), ⟨w.loop, context⟩)
    | .ok () =>
      (o.onConnect.mapError .onConnect,
        ⟨w.loop.register src token .readableWritable, context⟩)

/-- `TcpServer::start`. -/
def TcpServer.start (w : World σ) (self : ℕ) (listener : σ) (token : Token) (o : Outcome) :
    Except StartError Unit × World σ :=
  let context : ServerContext := ⟨some self, some w.loop.id⟩
  match o.registered with
  | .error e => (.error (.register e), ⟨w.loop, context⟩)
  | .ok () => (.ok (), ⟨w.loop.register listener token .readableOnly, context⟩)

/-- A call that fails leaves the registry, the poller and the context as they were. -/
def Atomic (w : World σ) (r : Except StartError Unit × World σ) : Prop :=
  ∀ e, r.1 = .error e → r.2.loop.poll = w.loop.poll ∧ r.2.context = w.context

/-- A handler that is registered was not there before. -/
theorem register_ne (l : Loop σ) (src : σ) (token : Token) (interest : Interest) :
    (l.register src token interest).poll ≠ l.poll := by
  intro heq
  have hentry : l.poll.registery token = some ⟨l.made, interest⟩ := by
    rw [← heq]
    simp [Loop.register, PollHandle.register]
  exact Nat.lt_irrefl _ (l.older token _ hentry)

theorem client_atomic_iff (w : World σ) (stream : Option σ) (token : Token) (o : Outcome) :
    Atomic w (TcpClient.start w stream token o) ↔
      (stream.isSome → o.registered = .ok () → o.onConnect = .ok ()) ∧
      (stream = none ∨ o.registered ≠ .ok () → w.context = ⟨none, some w.loop.id⟩) := by
  unfold Atomic TcpClient.start
  cases stream with
  | none => simp [eq_comm]
  | some src =>
    cases hregistered : o.registered with
    | error e => simp [eq_comm]
    | ok u =>
      cases honConnect : o.onConnect with
      | ok u' => simp [Except.mapError]
      | error e => simp [Except.mapError, register_ne]

theorem server_atomic_iff (w : World σ) (self : ℕ) (listener : σ) (token : Token) (o : Outcome) :
    Atomic w (TcpServer.start w self listener token o) ↔
      (o.registered ≠ .ok () → w.context = ⟨some self, some w.loop.id⟩) := by
  unfold Atomic TcpServer.start
  cases o.registered with
  | error e => simp [eq_comm]
  | ok u => simp

/-- For every call of `start`: if it fails, it has changed nothing, if and only if it does
    not fail in `on_connect`, and if it fails before, the references of the context were
    those that it sets. -/
theorem start_atomic_iff (w : World σ) (token : Token) (o : Outcome) :
    (∀ stream, Atomic w (TcpClient.start w stream token o) ↔
      (stream.isSome → o.registered = .ok () → o.onConnect = .ok ()) ∧
      (stream = none ∨ o.registered ≠ .ok () → w.context = ⟨none, some w.loop.id⟩)) ∧
    ∀ self listener, Atomic w (TcpServer.start w self listener token o) ↔
      (o.registered ≠ .ok () → w.context = ⟨some self, some w.loop.id⟩) :=
  ⟨fun stream => client_atomic_iff w stream token o,
    fun self listener => server_atomic_iff w self listener token o⟩

/-- A loop on which nothing is registered, and a new context. -/
def World.new : World ℕ := ⟨.new 0, ⟨none, none⟩⟩

/-- `on_connect` fails, and the handler stays registered. A registration fails, and the
    server and the loop stay in the context. -/
theorem start_not_atomic :
    (TcpClient.start World.new (some 5) 7 ⟨.ok (), .error "refused"⟩).1 =
        .error (.onConnect "refused") ∧
      ((TcpClient.start World.new (some 5) 7 ⟨.ok (), .error "refused"⟩).2.loop.poll.registery
        7).isSome ∧
      ¬ Atomic World.new (TcpClient.start World.new (some 5) 7 ⟨.ok (), .error "refused"⟩) ∧
    (TcpServer.start World.new 3 5 7 ⟨.error "in use", .ok ()⟩).2.context = ⟨some 3, some 0⟩ ∧
      ¬ Atomic World.new (TcpServer.start World.new 3 5 7 ⟨.error "in use", .ok ()⟩) := by
  refine ⟨rfl, rfl, fun hatomic => ?_, rfl, fun hatomic => ?_⟩
  · exact register_ne _ _ _ _ (hatomic _ rfl).1
  · have hcontext := (hatomic _ rfl).2
    revert hcontext
    decide

/-! ## The end of a client -/

/-- `TcpClient::connect` makes every `ConnectionId` the same. -/
def clientConnId : UInt64 := 1

/-- How a read of the stream comes out. -/
inductive ReadResult
  | closed
  | received (onData : Except String Unit)
  | wouldBlock
  | failed (e : String)

/-- `handle_read` goes on to `disconnect`. -/
def ReadResult.disconnects : ReadResult → Bool
  | closed => true
  | received (.ok ()) => false
  | received (.error _) => true
  | wouldBlock => false
  | failed _ => true

/-- The ways in which the connection of a client ends. The loop is still there or not when
    the handler looks for it. -/
inductive Ending
  | read (result : ReadResult) (ends : result.disconnects = true) (alive accepted : Bool)
  | disconnect

/-- `TcpClientHandler::disconnect`. -/
def TcpClientHandler.disconnect (l : Loop σ) (stream : Option σ) (alive accepted : Bool) : Loop σ :=
  match stream with
  | some src => (if alive then l.deregister src clientConnId accepted else l).drop src
  | none => l

/-- `TcpClient::disconnect`. -/
def TcpClient.disconnect (l : Loop σ) (stream : Option σ) : Loop σ :=
  match stream with
  | some src => l.drop src
  | none => l

/-- `stream` is what there is of the stream when the lock is taken to drop it. -/
def Ending.apply (l : Loop σ) (stream : Option σ) : Ending → Loop σ
  | read _ _ alive accepted => TcpClientHandler.disconnect l stream alive accepted
  | disconnect => TcpClient.disconnect l stream

/-- The handler deregisters the stream, and the poller accepts it. -/
def Ending.deregisters (stream : Option σ) : Ending → Bool
  | read _ _ alive accepted => stream.isSome && alive && accepted
  | disconnect => false

/-- Of the registry, the entry under the token is gone and all others are as they were. -/
def RemovesOwn (l l' : Loop σ) (token : Token) : Prop :=
  l'.poll.registery token = none ∧ ∀ t, t ≠ token → l'.poll.registery t = l.poll.registery t

/-- Either the entry under the `ConnectionId` goes, or none. -/
theorem registery_apply (l : Loop σ) (stream : Option σ) (e : Ending) :
    (e.apply l stream).poll.registery =
      if e.deregisters stream then Function.update l.poll.registery clientConnId none
      else l.poll.registery := by
  cases e with
  | read result ends alive accepted =>
    cases stream with
    | none => rfl
    | some src => cases alive <;> cases accepted <;> rfl
  | disconnect => cases stream <;> rfl

/-- For every token, every registry and every way to end: the client's own entry is removed
    and no other is if and only if the handler deregisters the stream and the client was
    started with the token of its `ConnectionId`, or there is nothing to remove. -/
theorem removesOwn_iff (l : Loop σ) (stream : Option σ) (token : Token) (e : Ending) :
    RemovesOwn l (e.apply l stream) token ↔
      if e.deregisters stream then
        token = clientConnId ∨
          (l.poll.registery token = none ∧ l.poll.registery clientConnId = none)
      else l.poll.registery token = none := by
  unfold RemovesOwn
  rw [registery_apply]
  cases e.deregisters stream with
  | false => simp
  | true =>
    simp only [if_true]
    constructor
    · rintro ⟨hown, hothers⟩
      by_cases htoken : token = clientConnId
      · exact .inl htoken
      · have hother := hothers clientConnId (Ne.symm htoken)
        rw [Function.update_self] at hother
        rw [Function.update_of_ne htoken] at hown
        exact .inr ⟨hown, hother.symm⟩
    · rintro (rfl | ⟨hown, hother⟩)
      · exact ⟨Function.update_self .., fun t ht => Function.update_of_ne ht ..⟩
      · have hsame := Function.update_eq_self clientConnId l.poll.registery
        rw [hother] at hsame
        rw [hsame]
        exact ⟨hown, fun _ _ => rfl⟩

/-- A connection of a server under `Token(1)`, and a client that was started with
    `Token(7)`. -/
def shared : Loop ℕ := ((Loop.new 0).register 1 1 .readableWritable).register 5 7 .readableWritable

/-- The peer of the client closes: the client's entry stays and that of the server's
    connection goes. And `TcpClient::disconnect` leaves the client's entry. -/
theorem removes_other :
    ((Ending.read .closed rfl true true).apply shared (some 5)).poll.registery 7 =
        some ⟨1, .readableWritable⟩ ∧
      shared.poll.registery 1 = some ⟨0, .readableWritable⟩ ∧
      ((Ending.read .closed rfl true true).apply shared (some 5)).poll.registery 1 = none ∧
      ¬ RemovesOwn shared ((Ending.read .closed rfl true true).apply shared (some 5)) 7 ∧
    (Ending.disconnect.apply shared (some 5)).poll.registery 7 = some ⟨1, .readableWritable⟩ ∧
      ¬ RemovesOwn shared (Ending.disconnect.apply shared (some 5)) 7 :=
  ⟨rfl, rfl, rfl, fun h => absurd h.1 (by decide), rfl, fun h => absurd h.1 (by decide)⟩

end Endpoint
