-- SUMMARY: The models of connections, of the events of one source and of locks agree on the accept routine, `handle_event` and the handler registry.
import MillIo.Interleaving.Unlocked
import MillIo.Endpoint.Frames
import MillIo.Server.Entries
import MillIo.Connection.Io

/-!
# The models of servers and clients agree

`Server` has the connections of one server and the calls of its handler, `Io` the bytes of
one source and the workers, and `Frame` the locks of all servers and clients. Where a thread
of one of the first two stands, there stands a frame, and the steps of the thread are steps
of the frame. The registry of `Server` is the part of a `PollHandle` that it looks at.
-/

namespace Reentry

open Interleaving

variable {d : Data}

/-- The end of `handle_event` behind `handle_read`. -/
theorem ending_reaches (f : Frame) (next : Bool → Frame) {isWritable : Bool}
    (hinstr : code.instr f = andThen fun s => (s, next isWritable))
    (hret : code.instr (next false) = .ret) :
    code.Reaches (d, {f}) (d, if isWritable then {next true} else 0) := by
  have hgoes : code.follow d f [.choose .go] = some (d, next isWritable) := by
    rw [Code.follow, hinstr]
    rfl
  cases isWritable with
  | true => exact Code.Reaches.follow _ hgoes
  | false => exact Code.Reaches.returns _ hgoes hret

/-! ## The connections of a server -/

namespace Lifecycle

/-- Where the frame of an accept routine stands. -/
def acceptPhase : Server.Accept → Option Accept
  | .listening => some .listening
  | .checking _ | .comparing _ _ => some .counting
  | .drawing _ => some .configuring
  | .registering id _ => some (.upgrading id)
  | .inserting id _ => some (.inserting id)
  | .establishing id _ => some (.establishing id)
  | .connecting id | .inOnConnect id => some (.connecting id)
  | .removing id => some (.removing id)
  | .deregistering id => some (.removed id)
  | .backingOut _ | .uncounting _ _ => some .continuing
  | .returned => none

/-- The frame of an event waits for the handler to be found. -/
def handlePhase : Server.Handle → Option Handle
  | .lookup => some .begun
  | .reading => some .reading
  | .data | .inOnData => some .data
  | .removing => some .disconnecting
  | .uncounting | .deregistering => some .removed
  | .disconnecting => some .notifying
  | .closing => some .closed
  | .writable _ | .inOnWritable _ => some .writable
  | .returned _ => none

def closePhase : Server.Close → Option CloseConnection
  | .removing => some .removing
  | .deregistering => some .removed
  | .disconnecting => some .notifying
  | .closing => some .closed
  | .returned => none

/-- The frame of a thread of the server, if it has one. -/
def frames (server : ℕ) : Server.Thread → Multiset Frame
  | .accept t => (acceptPhase t).elim 0 fun p => {.accept server p}
  | .handle id isReadable isWritable t =>
    (handlePhase t).elim 0 fun p => {.handle server id isReadable isWritable p}
  | .close id t => (closePhase t).elim 0 fun p => {.closeConnection server id p}

/-- The first frame of a new thread. -/
def begins (server : ℕ) : Server.Step → Option Frame
  | .env .listener => some (.accept server (.begun true))
  | .env (.event id isReadable isWritable) => some (.handle server id isReadable isWritable .begun)
  | .env (.closeConnection id) => some (.closeConnection server id .begun)
  | .act _ _ => none

/-- An event has found no handler, and its frame stays where it was. -/
def Missed (server : ℕ) (f : Frame) : Prop :=
  ∃ id isReadable isWritable, f = .handle server id isReadable isWritable .begun

/-- The context has the server, with these connections and this counter of ids. -/
structure Agrees (server : ℕ) (s : Server.TcpServer) (d : Data) : Prop where
  servers : server ∈ d.servers
  eventLoops : server ∈ d.eventLoops
  connections : ∀ id, id ∈ s.connections ↔ (server, id) ∈ d.connections
  nextConnId : s.nextConnId = d.nextConnId server

section

variable {server id : ℕ} {s s' : Server.TcpServer} {isReadable isWritable : Bool} {o : Server.Choice}

theorem Agrees.same (h : Agrees server s d) (hconnections : s'.connections = s.connections)
    (hnextConnId : s'.nextConnId = s.nextConnId) : Agrees server s' d where
  servers := h.servers
  eventLoops := h.eventLoops
  connections id := by rw [hconnections, h.connections]
  nextConnId := hnextConnId.trans h.nextConnId

theorem Agrees.insert (h : Agrees server s d) (id : ℕ) :
    Agrees server (s.insert id) { d with connections := insert (server, id) d.connections } where
  servers := h.servers
  eventLoops := h.eventLoops
  connections id' := by
    simp only [Server.TcpServer.insert, Finset.mem_insert, Prod.mk.injEq, true_and, h.connections]
  nextConnId := h.nextConnId

theorem Agrees.remove (h : Agrees server s d) (id : ℕ) (exit : Server.Exit) :
    Agrees server (s.remove id exit) { d with connections := d.connections.erase (server, id) } where
  servers := h.servers
  eventLoops := h.eventLoops
  connections id' := by
    simp only [Server.TcpServer.remove, Finset.mem_erase, ne_eq, Prod.mk.injEq, true_and, h.connections]
  nextConnId := h.nextConnId

theorem Agrees.draw (h : Agrees server s d) (errors : List (Option ℕ × Server.NetworkError)) :
    Agrees server { s with errors := errors, nextConnId := s.nextConnId + 1 }
      { d with nextConnId := Function.update d.nextConnId server (d.nextConnId server + 1) } where
  servers := h.servers
  eventLoops := h.eventLoops
  connections := h.connections
  nextConnId := by
    simp only [Function.update_self, h.nextConnId]

/-- What is open in a choice of the server is open in the choices of the frame, so each step
    is given by the moves that the frame makes. -/
theorem accept_reaches {t t' : Server.Accept} (h : t.Acts s o s' t')
    (hnew : (Server.Thread.accept t).DrawsNew s) (hd : Agrees server s d) :
    ∃ d', Agrees server s' d' ∧
      code.Reaches (d, frames server (.accept t)) (d', frames server (.accept t')) := by
  cases h with
  | listen peer hfree => exact ⟨d, hd.same rfl rfl, .follow [.go, .choose .go] rfl⟩
  | stop o errors hfree => exact ⟨d, hd.same rfl rfl, .returns [.go, .choose .wouldBlock, .go] rfl rfl⟩
  | reject peer errors =>
    exact ⟨d, hd.same rfl rfl, .follow [.choose .failed, .returns true, .go] rfl⟩
  | load peer max hmax hlt => exact ⟨d, hd, .refl⟩
  | count peer hmax => exact ⟨d, hd.same rfl rfl, .follow [.choose .go] rfl⟩
  | exchange peer => exact ⟨d, hd.same rfl rfl, .follow [.choose .go] rfl⟩
  | retry peer current => exact ⟨d, hd, .refl⟩
  | draw peer o errors =>
    refine ⟨_, hd.draw errors, .follow [.choose .go, .choose .go] ?_⟩
    have hid : s.nextConnId % 2 ^ 64 = d.nextConnId server := by
      rw [Nat.mod_eq_of_lt hnew, hd.nextConnId]
    rw [hid]
    rfl
  | register id peer =>
    exact ⟨d, hd.same rfl rfl, .follow [.choose .go, .go, .choose .go, .go] rfl⟩
  | backOut id peer o errors => exact ⟨d, hd.same rfl rfl, .follow [.choose .failed, .returns true] rfl⟩
  | backedOut id => exact ⟨d, hd.same rfl rfl, .follow [.go] rfl⟩
  | insert id peer => exact ⟨_, hd.insert id, .follow [.choose .go] rfl⟩
  | establish id peer => exact ⟨d, hd.same rfl rfl, .follow [.returns true] rfl⟩
  | connect id => exact ⟨d, hd.same rfl rfl, .refl⟩
  | connected id => exact ⟨d, hd.same rfl rfl, .follow [.returns true, .go] rfl⟩
  | fail id e errors => exact ⟨d, hd.same rfl rfl, .follow [.returns false, .returns true] rfl⟩
  | remove id hmem =>
    exact ⟨_, hd.remove id _, .follow [.choose .go] (congrArg some (if_pos ((hd.connections id).1 hmem)))⟩
  | gone id hmem =>
    have hnot : (server, id) ∉ d.connections := fun h => hmem ((hd.connections id).2 h)
    exact ⟨d, hd, .follow [.choose .go] (congrArg some (if_neg hnot))⟩
  | deregister id => exact ⟨d, hd.same rfl rfl, .follow [.go, .go] rfl⟩
  | refused id e => exact ⟨d, hd, .follow [.go, .go] rfl⟩
  | uncount id removed => exact ⟨d, hd.same rfl rfl, .follow [.go] rfl⟩

/-- What leads behind `handle_read` leads to where the thread goes on. -/
theorem afterRead_reaches (ended : Bool) {y : Data × Multiset Frame}
    (h : code.Reaches y (d, {.handle server id isReadable isWritable .haveHandledRead})) :
    code.Reaches y (d, frames server (.handle id isReadable isWritable (.afterRead isWritable ended))) := by
  have hending := ending_reaches (d := d) (.handle server id isReadable isWritable .haveHandledRead)
    (fun w => .handle server id isReadable isWritable (if w then .writable else .returned)) rfl rfl
  refine h.trans ?_
  cases isWritable <;> exact hending

theorem handle_reaches {t t' : Server.Handle} (h : t.Acts s id isReadable isWritable o s' t')
    (hd : Agrees server s d) :
    (t = .lookup ∧ s' = s ∧ t' = .returned false) ∨ ∃ d', Agrees server s' d' ∧
      code.Reaches (d, frames server (.handle id isReadable isWritable t))
        (d', frames server (.handle id isReadable isWritable t')) := by
  cases h with
  | missing => exact .inl ⟨rfl, rfl, rfl⟩
  | found hmem =>
    refine .inr ⟨d, hd, ?_⟩
    cases isReadable with
    | true => exact .follow [.choose .go] rfl
    | false => exact afterRead_reaches false (.follow [.choose .go] rfl)
  | read => exact .inr ⟨d, hd, .follow [.go, .choose .go, .go] rfl⟩
  | nothing =>
    exact .inr ⟨d, hd, afterRead_reaches false (.follow [.go, .choose .wouldBlock, .go] rfl)⟩
  | ended o errors => exact .inr ⟨d, hd.same rfl rfl, .follow [.go, .choose .closed, .go] rfl⟩
  | data => exact .inr ⟨d, hd.same rfl rfl, .refl⟩
  | handled => exact .inr ⟨d, hd, afterRead_reaches false (.follow [.returns true] rfl)⟩
  | failed o errors => exact .inr ⟨d, hd.same rfl rfl, .follow [.returns false, .returns true] rfl⟩
  | remove hmem =>
    have hfound := (hd.connections id).1 hmem
    exact .inr ⟨_, hd.remove id _, .follow [.choose .go] (congrArg some (if_pos hfound))⟩
  | gone hmem =>
    have hnot : (server, id) ∉ d.connections := fun h => hmem ((hd.connections id).2 h)
    exact .inr ⟨d, hd, afterRead_reaches true (.follow [.choose .go] (congrArg some (if_neg hnot)))⟩
  | uncount => exact .inr ⟨d, hd.same rfl rfl, .refl⟩
  | deregister => exact .inr ⟨d, hd.same rfl rfl, .follow [.choose .go, .go, .go] rfl⟩
  | refused o hgo => exact .inr ⟨d, hd, .follow [.choose .failed] rfl⟩
  | disconnect o errors => exact .inr ⟨d, hd.same rfl rfl, .follow [.returns true] rfl⟩
  | close =>
    exact .inr ⟨d, hd.same rfl rfl, afterRead_reaches true (.follow [.returns true] rfl)⟩
  | writable ended => exact .inr ⟨d, hd.same rfl rfl, .refl⟩
  | written ended o errors => exact .inr ⟨d, hd.same rfl rfl, .returns [.returns true] rfl rfl⟩

theorem close_reaches {t t' : Server.Close} (h : t.Acts s id o s' t') (hd : Agrees server s d) :
    ∃ d', Agrees server s' d' ∧
      code.Reaches (d, frames server (.close id t)) (d', frames server (.close id t')) := by
  cases h with
  | remove hmem =>
    exact ⟨_, hd.remove id _, .follow [.choose .go] (congrArg some (if_pos ((hd.connections id).1 hmem)))⟩
  | gone hmem =>
    have hnot : (server, id) ∉ d.connections := fun h => hmem ((hd.connections id).2 h)
    exact ⟨d, hd, .returns [.choose .go] (congrArg some (if_neg hnot)) rfl⟩
  | deregister => exact ⟨d, hd.same rfl rfl, .follow [.go] rfl⟩
  | refused e => exact ⟨d, hd, .follow [.go] rfl⟩
  | disconnect o errors => exact ⟨d, hd.same rfl rfl, .follow [.returns true] rfl⟩
  | close => exact ⟨d, hd.same rfl rfl, .returns [.returns true, .go] rfl rfl⟩

theorem enter_reaches (hd : Agrees server s d) (input : Server.Input) :
    code.Reaches (d, starts (begins server) [.env input])
      (d, contents (frames server) [input.thread]) := by
  rw [contents_singleton]
  cases input with
  | listener => exact .follow [.choose .go] rfl
  | event id isReadable isWritable => exact .refl
  | closeConnection id =>
    refine .follow [.choose .go, .choose .go] ?_
    simp [Code.follow, code, Frame.instr, CloseConnection.instr, andThen, Instr.go, hd.servers,
      hd.eventLoops]

/-- `start` makes a server without connections. -/
theorem start_reaches (server : ℕ) (maxConnections : Option UInt64) :
    ∃ d, Agrees server (.new maxConnections) d ∧
      code.Reaches (.new, {.startServer server .begun}) (d, 0) := by
  refine ⟨⟨{server}, {server}, ∅, fun _ => 1, ∅⟩, ?_, ?_⟩
  · exact ⟨Finset.mem_singleton_self _, Finset.mem_singleton_self _, by simp [Server.TcpServer.new], rfl⟩
  · exact .returns [.choose .go, .choose .go, .go, .go] rfl rfl

theorem step_reaches {t t' : Server.Thread} (h : Server.Acts s t o s' t') (hnew : t.DrawsNew s)
    (hd : Agrees server s d) :
    ∃ d' missed, Agrees server s' d' ∧ (∀ f ∈ missed, Missed server f) ∧
      code.Reaches (d, frames server t) (d', frames server t' + missed) := by
  have hall {d' : Data} (hd' : Agrees server s' d')
      (hreach : code.Reaches (d, frames server t) (d', frames server t')) :
      ∃ d' missed, Agrees server s' d' ∧ (∀ f ∈ missed, Missed server f) ∧
        code.Reaches (d, frames server t) (d', frames server t' + missed) :=
    ⟨d', 0, hd', by simp, by rwa [add_zero]⟩
  cases h with
  | accept t t' o s' hacts =>
    obtain ⟨d', hd', hreach⟩ := accept_reaches hacts hnew hd
    exact hall hd' hreach
  | handle id isReadable isWritable t t' o s' hacts =>
    rcases handle_reaches hacts hd with ⟨rfl, rfl, rfl⟩ | ⟨d', hd', hreach⟩
    · refine ⟨d, {.handle server id isReadable isWritable .begun}, hd, ?_, .refl⟩
      intro f hf
      exact ⟨id, isReadable, isWritable, Multiset.mem_singleton.1 hf⟩
    · exact hall hd' hreach
  | close id t t' o s' hacts =>
    obtain ⟨d', hd', hreach⟩ := close_reaches hacts hd
    exact hall hd' hreach

/-- What the threads of a server do, their frames do. -/
theorem reaches_of_run {maxConnections : Option UInt64} {as : List Server.Step} {u : Server.State}
    (h : Run Server.system.step Server.Numbered (Server.initial maxConnections) as u) :
    ∃ d missed, Agrees server u.shared d ∧ (∀ f ∈ missed, Missed server f) ∧
      code.Reaches (.new, {.startServer server .begun} + starts (begins server) as)
        (d, contents (frames server) u.threads + missed) := by
  induction h with
  | refl =>
    obtain ⟨d, hd, hreach⟩ := start_reaches server maxConnections
    exact ⟨d, 0, hd, by simp, hreach⟩
  | @snoc as u v a _ ha hs ih =>
    obtain ⟨d, missed, hd, hmissed, hreach⟩ := ih
    rcases Server.step_cases hs with ⟨input, rfl, rfl⟩ | ⟨o, s', t, t', l, l', rfl, hts, hacts, rfl⟩
    · have hthreads : contents (frames server) (u.threads ++ [input.thread]) + missed =
          contents (frames server) u.threads + missed + contents (frames server) [input.thread] := by
        rw [contents_append, add_right_comm]
      refine ⟨d, missed, hd, hmissed, ?_⟩
      rw [starts_append, ← add_assoc, hthreads]
      refine (hreach.beside _).trans ?_
      rw [add_comm _ (starts (begins server) [.env input]),
        add_comm _ (contents (frames server) [input.thread])]
      exact (enter_reaches hd input).beside _
    · have hnew : t.DrawsNew u.shared := by
        obtain ⟨s, ts⟩ := u
        obtain rfl : ts = l ++ t :: l' := hts
        exact Machine.threadSteps_at.1 ha
      obtain ⟨d', missed', hd', hmissed', hstep⟩ := step_reaches hacts hnew hd
      refine ⟨d', missed' + missed, hd', ?_, ?_⟩
      · intro f hf
        rcases Multiset.mem_add.1 hf with hnow | hbefore
        · exact hmissed' f hnow
        · exact hmissed f hbefore
      · rw [starts_append, starts_of_none rfl, add_zero]
        rw [hts] at hreach
        have hat := (hstep.at l l').beside missed
        rw [add_assoc] at hat
        exact hreach.trans hat

end

/-! ### The registry -/

section

variable {σ : Type*} [DecidableEq σ] {handle : EventLoop.PollHandle σ ℕ} {s : Server.TcpServer}
  {id : ℕ}

/-- Under the ids the registry has the handlers of the connections, and nothing else. -/
def Registered (s : Server.TcpServer) (handle : EventLoop.PollHandle σ ℕ) : Prop :=
  ∀ id < 2 ^ 64, handle.registery (UInt64.ofNat id) =
    if id ∈ s.registry then some ⟨id, .readableWritable⟩ else none

theorem ofNat_ne {id id' : ℕ} (hid : id < 2 ^ 64) (hid' : id' < 2 ^ 64) (hne : id' ≠ id) :
    UInt64.ofNat id' ≠ UInt64.ofNat id := by
  intro heq
  have htoNat := congrArg UInt64.toNat heq
  rw [UInt64.toNat_ofNat_of_lt' hid', UInt64.toNat_ofNat_of_lt' hid] at htoNat
  exact hne htoNat

theorem Registered.register (h : Registered s handle) (hid : id < 2 ^ 64) (src : σ) :
    Registered (s.register id)
      (handle.register src (UInt64.ofNat id) .readableWritable id true).2 := by
  intro id' hid'
  rcases eq_or_ne id' id with rfl | hne
  · simp [EventLoop.PollHandle.register, Server.TcpServer.register]
  · simp [EventLoop.PollHandle.register, Server.TcpServer.register,
      Function.update_of_ne (ofNat_ne hid hid' hne), hne, h id' hid']

theorem Registered.deregister (h : Registered s handle) (hid : id < 2 ^ 64) (src : σ) :
    Registered (s.deregister id) (handle.deregister src (UInt64.ofNat id) true).2 := by
  intro id' hid'
  rcases eq_or_ne id' id with rfl | hne
  · simp [EventLoop.PollHandle.deregister, Server.TcpServer.deregister]
  · simp [EventLoop.PollHandle.deregister, Server.TcpServer.deregister,
      Function.update_of_ne (ofNat_ne hid hid' hne), hne, h id' hid']

omit [DecidableEq σ] in
/-- An event runs the handler that `dispatch_event` calls. -/
theorem Registered.lookup (h : Registered s handle) (hid : id < 2 ^ 64) (isReadable isWritable : Bool) :
    Server.Handle.proceed s id isReadable isWritable .lookup .go =
      some (s, if handle.dispatchEvent ⟨UInt64.ofNat id, isReadable, isWritable⟩ = some id
        then if isReadable then .reading else .afterRead isWritable false
        else .returned false) := by
  have hentry := h id hid
  unfold Server.Handle.proceed EventLoop.PollHandle.dispatchEvent
  by_cases hmem : id ∈ s.registry
  · rw [if_pos hmem] at hentry
    rw [if_pos hmem, hentry]
    cases isReadable <;> cases isWritable <;>
      simp [EventLoop.HandlerEntry.select, EventLoop.Interest.readableWritable, Server.Handle.afterRead]
  · rw [if_neg hmem] at hentry
    rw [if_neg hmem, hentry]
    rfl

end

end Lifecycle

/-! ## The events of one source -/

namespace Worker

/-- Whether `on_writable` is called for the event. -/
def writes : Source → Readiness → Bool
  | .listener, _ => false
  | _, e => e.writable

def handlePhase : Io.Phase → Option Handle
  | .reading _ => some .reading
  | .calling _ | .handling _ => some .data
  | .removing _ => some .disconnecting
  | .deregistering _ => some .removed
  | .leaving _ => some .deregistering
  | .writing => some .writable
  | _ => none

def clientHandlePhase : Io.Phase → Option ClientHandle
  | .reading _ => some .reading
  | .calling _ | .handling _ => some .data
  | .removing _ => some .disconnecting
  | .writing => some .writable
  | _ => none

/-- What happens to a connection once it is accepted is left out. -/
def acceptPhase : Io.Phase → Option Accept
  | .reading _ => some .listening
  | .handling _ => some .counting
  | _ => none

/-- The frame of a worker that handles the event `e`. The source is the listener of server
    `n`, its connection `id`, or client `n`. -/
def frames (n id : ℕ) (e : Readiness) (p : Io.Phase) : Source → Multiset Frame
  | .server => (handlePhase p).elim 0 fun p => {.handle n id e.readable e.writable p}
  | .client => (clientHandlePhase p).elim 0 fun p => {.clientHandle n e.readable e.writable p}
  | .listener => (acceptPhase p).elim 0 fun p => {.accept n p}

/-- The first frame of `handle_event`. -/
def begins (n id : ℕ) (e : Readiness) : Source → Frame
  | .server => .handle n id e.readable e.writable .begun
  | .client => .clientHandle n e.readable e.writable .begun
  | .listener => .accept n (.begun e.readable)

/-- The phases of a worker that handles the event `e`. -/
def Handling (k : Source) (e : Readiness) : Io.Phase → Prop
  | .reading w | .handling w => w = writes k e
  | .calling w | .removing w => k ≠ .listener ∧ w = writes k e
  | .deregistering w | .leaving w => k = .server ∧ w = writes k e
  | .writing => k ≠ .listener ∧ writes k e = true
  | _ => False

variable {β : Type*}

/-- The connection is in the map, or the client has its stream. -/
def Agrees (n id : ℕ) (x : Io β) (d : Data) : Source → Prop
  | .server => x.listed = true ↔ (n, id) ∈ d.connections
  | .client => x.listed = true ↔ n ∉ d.disconnected
  | .listener => True

section

variable {n id : ℕ} {e : Readiness} {k : Source} {x x' : Io β} {worker : Option ℕ} {p p' : Io.Phase}
  {o : Io.Choice}

/-- A worker that has found the handler goes on with its first frame. -/
theorem lookup_reaches : code.Reaches (d, {begins n id e k}) (d, frames n id e (Io.handleEvent k e) k) ∧
    (Io.handleEvent k e = .idle ∨ Handling k e (Io.handleEvent k e)) := by
  obtain ⟨readable, writable⟩ := e
  cases k with
  | server =>
    refine ⟨?_, by cases readable <;> cases writable <;> simp [Io.handleEvent, Handling, writes]⟩
    cases readable with
    | true => exact .follow [.choose .go] rfl
    | false => cases writable with
      | true => exact .follow [.choose .go, .choose .go] rfl
      | false => exact .returns [.choose .go, .choose .go] rfl rfl
  | client =>
    refine ⟨?_, by cases readable <;> cases writable <;> simp [Io.handleEvent, Handling, writes]⟩
    cases readable with
    | true => exact .follow [.choose .go] rfl
    | false => cases writable with
      | true => exact .follow [.choose .go, .choose .go] rfl
      | false => exact .returns [.choose .go, .choose .go] rfl rfl
  | listener =>
    refine ⟨?_, by cases readable <;> simp [Io.handleEvent, Handling, writes]⟩
    cases readable with
    | true => exact .follow [.choose .go] rfl
    | false => exact .returns [.choose .go] rfl rfl

theorem handling_afterRead {w : Bool} (hk : k ≠ .listener) (hw : w = writes k e) :
    Io.afterRead w = .idle ∨ Handling k e (Io.afterRead w) := by
  cases w with
  | true => exact .inr ⟨hk, hw.symm⟩
  | false => exact .inl rfl

/-- What a worker does with an event of a connection. -/
theorem server_reaches (h : Io.Acts .server x worker p o x' p') (hp : Handling .server e p)
    (hd : Agrees n id x d .server) :
    ∃ d', Agrees n id x' d' .server ∧
      code.Reaches (d, frames n id e p .server) (d', frames n id e p' .server) ∧
      (p' = .idle ∨ Handling .server e p') := by
  have hends {w : Bool} {y : Data × Multiset Frame} (hw : w = e.writable)
      (hreach : code.Reaches y (d, {.handle n id e.readable e.writable .haveHandledRead})) :
      code.Reaches y (d, frames n id e (Io.afterRead w) .server) ∧
        (Io.afterRead w = .idle ∨ Handling .server e (Io.afterRead w)) := by
    refine ⟨hreach.trans ?_, handling_afterRead (by simp) hw⟩
    subst hw
    have hending := ending_reaches (d := d) (.handle n id e.readable e.writable .haveHandledRead)
      (fun w => .handle n id e.readable e.writable (if w then .writable else .returned)) rfl rfl
    cases hw : e.writable <;> simpa [Io.afterRead, frames, handlePhase, hw] using hending
  cases h with
  | recv | found | missed | register | registerError | enter | list | connect | connectError =>
    exact hp.elim
  | accept _ _ _ hk | acceptError _ hk | accepted _ _ hk | drop _ hk => cases hk
  | gone w hgone => cases hgone
  | data w i m => exact ⟨d, hd, .follow [.go, .choose .go, .go] rfl, .inr ⟨by simp, hp⟩⟩
  | wouldBlock w => exact ⟨d, hd, hends hp (.follow [.go, .choose .wouldBlock, .go] rfl)⟩
  | eof w => exact ⟨d, hd, .follow [.go, .choose .closed, .go] rfl, .inr ⟨by simp, hp⟩⟩
  | readError w =>
    exact ⟨d, hd, .follow [.go, .choose .failed, .go, .returns true] rfl, .inr ⟨by simp, hp⟩⟩
  | call w i bytes rest => exact ⟨d, hd, .refl, .inr hp.2⟩
  | handled w => exact ⟨d, hd, hends hp (.follow [.returns true] rfl)⟩
  | handledError w =>
    exact ⟨d, hd, .follow [.returns false, .returns true] rfl, .inr ⟨by simp, hp⟩⟩
  | remove w _ hlisted =>
    exact ⟨{ d with connections := d.connections.erase (n, id) }, by simp [Agrees],
      .follow [.choose .go] (congrArg some (if_pos (hd.1 hlisted))), .inr ⟨rfl, hp.2⟩⟩
  | unlisted w _ hlisted =>
    have hnot : (n, id) ∉ d.connections := fun h => by simp [hd.2 h] at hlisted
    exact ⟨d, hd, hends hp.2 (.follow [.choose .go] (congrArg some (if_neg hnot)))⟩
  | deregister w => exact ⟨d, hd, .follow [.choose .go, .go] rfl, .inr hp⟩
  | deregisterError w =>
    exact ⟨d, hd, hends hp.2 (.follow [.choose .failed, .returns true, .returns true] rfl)⟩
  | leave w => exact ⟨d, hd, hends hp.2 (.follow [.go, .returns true, .returns true] rfl)⟩
  | written => exact ⟨d, hd, .returns [.returns true] rfl rfl, .inl rfl⟩

/-- A client reads while it has its stream. -/
theorem listed_of_read {w : Bool} (h : x.proceed .client worker (.reading w) o = some (x', p'))
    (ho : o ≠ .go) : x.listed = true := by
  obtain ⟨i, -, hread⟩ := Option.bind_eq_some_iff.1 h
  refine eq_true_of_ne_false fun hnot => ?_
  have hgone : x.streamGone .client = true := by simp [Io.streamGone, hnot]
  cases o <;> simp [Io.handleRead, hgone] at hread ho

/-- What a worker does with an event of a client. -/
theorem client_reaches (h : x.proceed .client worker p o = some (x', p')) (hp : Handling .client e p)
    (hd : Agrees n id x d .client) :
    ∃ d', Agrees n id x' d' .client ∧
      code.Reaches (d, frames n id e p .client) (d', frames n id e p' .client) ∧
      (p' = .idle ∨ Handling .client e p') := by
  have hends {w : Bool} {y : Data × Multiset Frame} {d' : Data} (hw : w = e.writable)
      (hreach : code.Reaches y (d', {.clientHandle n e.readable e.writable .haveHandledRead})) :
      code.Reaches y (d', frames n id e (Io.afterRead w) .client) ∧
        (Io.afterRead w = .idle ∨ Handling .client e (Io.afterRead w)) := by
    refine ⟨hreach.trans ?_, handling_afterRead (by simp) hw⟩
    subst hw
    have hending := ending_reaches (d := d') (.clientHandle n e.readable e.writable .haveHandledRead)
      (fun w => .clientHandle n e.readable e.writable (if w then .writable else .returned)) rfl rfl
    cases hw : e.writable <;> simpa [Io.afterRead, frames, clientHandlePhase, hw] using hending
  -- with the lock, and there is a stream
  have hreads {w : Bool} (hphase : p = .reading w) (ho : o ≠ .go) :
      code.Reaches (d, {.clientHandle n e.readable e.writable .reading})
        (d, {.clientHandle n e.readable e.writable .inRead}) := by
    subst hphase
    have hstream : n ∉ d.disconnected := hd.1 (listed_of_read h ho)
    exact .follow [.go, .choose .go]
      (congrArg (fun p => some (d, Frame.clientHandle n e.readable e.writable p)) (if_neg hstream))
  cases Io.acts_of_proceed h with
  | recv | found | missed | register | registerError | enter | list | connect | connectError =>
    exact hp.elim
  | accept _ _ _ hk | acceptError _ hk | accepted _ _ hk | remove _ hk | unlisted _ hk => cases hk
  | deregister | deregisterError | leave => cases hp.1
  | gone w hgone =>
    have hnone : n ∈ d.disconnected := by
      by_contra hstream
      simp [Io.streamGone, hd.2 hstream] at hgone
    have hmisses : code.Reaches (d, {.clientHandle n e.readable e.writable .reading})
        (d, {.clientHandle n e.readable e.writable .noStream}) :=
      .follow [.go, .choose .go]
        (congrArg (fun p => some (d, Frame.clientHandle n e.readable e.writable p)) (if_pos hnone))
    exact ⟨d, hd, hends hp (hmisses.trans (.follow [.go] rfl))⟩
  | data w i m =>
    exact ⟨d, hd, (hreads rfl (by simp)).trans (.follow [.choose .go, .go] rfl), .inr ⟨by simp, hp⟩⟩
  | wouldBlock w =>
    exact ⟨d, hd, hends hp ((hreads rfl (by simp)).trans (.follow [.choose .wouldBlock, .go] rfl))⟩
  | eof w =>
    exact ⟨d, hd, (hreads rfl (by simp)).trans (.follow [.choose .closed, .go, .returns true] rfl),
      .inr ⟨by simp, hp⟩⟩
  | readError w =>
    exact ⟨d, hd, (hreads rfl (by simp)).trans (.follow [.choose .failed, .go, .returns true] rfl),
      .inr ⟨by simp, hp⟩⟩
  | call w i bytes rest => exact ⟨d, hd, .refl, .inr hp.2⟩
  | handled w => exact ⟨d, hd, hends hp (.follow [.returns true] rfl)⟩
  | handledError w =>
    exact ⟨d, hd, .follow [.returns false, .returns true] rfl, .inr ⟨by simp, hp⟩⟩
  | drop w =>
    exact ⟨{ d with disconnected := insert n d.disconnected }, by simp [Agrees],
      hends hp.2 (.follow [.go, .choose .go, .returns true, .go] rfl)⟩
  | written => exact ⟨d, hd, .returns [.returns true] rfl rfl, .inl rfl⟩

/-- What a worker does with an event of the listener. -/
theorem listener_reaches (h : Io.Acts .listener x worker p o x' p') (hp : Handling .listener e p) :
    code.Reaches (d, frames n id e p .listener) (d, frames n id e p' .listener) ∧
      (p' = .idle ∨ Handling .listener e p') := by
  cases h with
  | recv | found | missed | register | registerError | enter | list | connect | connectError =>
    exact hp.elim
  | data _ _ _ _ hk | eof _ hk | readError _ hk | handled _ hk | handledError _ hk => exact absurd rfl hk
  | remove _ hk | unlisted _ hk | drop _ hk => cases hk
  | deregister | deregisterError | leave => cases hp.1
  | call | written => exact absurd rfl hp.1
  | gone w hgone => cases hgone
  | accept w c rest => exact ⟨.follow [.go, .choose .go] rfl, .inr hp⟩
  | wouldBlock w =>
    obtain rfl : w = false := hp
    exact ⟨.returns [.go, .choose .wouldBlock, .go] rfl rfl, .inl rfl⟩
  | acceptError w =>
    obtain rfl : w = false := hp
    exact ⟨.returns [.go, .choose .failed, .returns true, .go] rfl rfl, .inl rfl⟩
  | accepted w o => exact ⟨.follow [.choose .failed, .returns true, .go] rfl, .inr hp⟩

/-- What a worker does with an event, its frame does. -/
theorem proceed_reaches (h : x.proceed k worker p o = some (x', p')) (hp : Handling k e p)
    (hd : Agrees n id x d k) :
    ∃ d', Agrees n id x' d' k ∧
      code.Reaches (d, frames n id e p k) (d', frames n id e p' k) ∧
      (p' = .idle ∨ Handling k e p') := by
  cases k with
  | server => exact server_reaches (Io.acts_of_proceed h) hp hd
  | client => exact client_reaches h hp hd
  | listener => exact ⟨d, trivial, listener_reaches (Io.acts_of_proceed h) hp⟩

end

end Worker

end Reentry
