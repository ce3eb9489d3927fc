-- SUMMARY: The mutexes of RPC clients and servers are locked in one order, also where a service calls other services: no threads wait for each other.
import MillIo.Endpoint.Deadlock

/-!
# Deadlocks between RPC clients and servers

The threads of `mill-rpc` on those of `mill-net`, by the mutexes that they lock: the TCP client,
the pending calls and the receive buffer of an `RpcClient`, and the buffers of an
`RpcServer`. The callbacks of the network are the handlers of the two, and a service may call
any client while it is dispatched. Waiting on the condition variable unlocks the pending calls
and locks them again. The lock of the services is only read once the server is built.
-/
namespace RpcThreads

open Interleaving

open Reentry (Data Choice Guarded)

inductive Mutex
  | net (m : Reentry.Mutex)
  | tcpClient (client : ℕ)
  | pending (client : ℕ)
  | recvBuf (client : ℕ)
  | connBuffers (server : ℕ)
  deriving DecidableEq

/-! ## Frames -/

/-- `RpcClient::call_raw`. -/
inductive CallRaw
  | begun
  | inserting
  | inserted
  /-- In `TcpClient::send`. -/
  | sending
  | sent
  | notSent
  | forgetting
  | forgotten
  | waiting
  /-- Looks the request up, and at the time that remains. -/
  | checking
  | parked
  /-- The wait is over, because of a notification or of the timeout. -/
  | woken
  | awake
  | leaving
  | returned
  deriving DecidableEq

/-- `RpcClient::call_oneway`. -/
inductive CallOneway
  | begun
  | sending
  | sent
  | returned
  deriving DecidableEq

/-- `RpcClientHandler::on_data`, with `handle_frame` for each frame. -/
inductive ClientData
  | begun
  | parsing
  | parsed
  | notParsed
  | handling
  | frame
  | replying
  | storing
  | returned
  deriving DecidableEq

/-- `RpcServerHandler::on_data`, with `handle_frame` and `handle_request` for each frame. -/
inductive ServerData
  | begun
  | parsing
  | parsed
  | notParsed
  | handling
  | frame
  | request
  | notRequest
  /-- In `ServiceDispatch::dispatch`. -/
  | dispatching
  | dispatched
  /-- In `ServerContext::send_to`. -/
  | responding
  | returned
  deriving DecidableEq

/-- A function of the network is in a thread of its own, or it has been called. -/
inductive Frame
  | event (f : Reentry.Frame)
  | operation (f : Reentry.Frame)
  | callRaw (client : ℕ) (phase : CallRaw)
  | callOneway (client : ℕ) (phase : CallOneway)
  | clientData (client : ℕ) (phase : ClientData)
  /-- `RpcServerHandler::on_connect`. -/
  | connect (server : ℕ) (phase : Guarded)
  /-- `RpcServerHandler::on_disconnect`. -/
  | disconnect (server : ℕ) (phase : Guarded)
  | serverData (server id : ℕ) (phase : ServerData)
  deriving DecidableEq

/-! ## Their instructions -/

abbrev Next := Instr Data Mutex Frame Choice

/-- The code goes one way or the other. -/
def either (one other : Frame) : Next :=
  .branch fun s o => match o with
    | .go => some (s, one)
    | .failed => some (s, other)
    | _ => none

def CallRaw.instr (client : ℕ) : CallRaw → Next
  | begun => .lock (.pending client) (.callRaw client inserting)
  | inserting => .unlock (.pending client) (.callRaw client inserted)
  | inserted => .lock (.tcpClient client) (.callRaw client sending)
  | sending => .callback (.callRaw client sent) (.callRaw client notSent)
  | sent => .unlock (.tcpClient client) (.callRaw client waiting)
  | notSent => .unlock (.tcpClient client) (.callRaw client forgetting)
  | forgetting => .lock (.pending client) (.callRaw client forgotten)
  | forgotten => .unlock (.pending client) (.callRaw client returned)
  | waiting => .lock (.pending client) (.callRaw client checking)
  | checking => either (.callRaw client leaving) (.callRaw client parked)
  | parked => .unlock (.pending client) (.callRaw client woken)
  | woken => .lock (.pending client) (.callRaw client awake)
  | awake => either (.callRaw client checking) (.callRaw client leaving)
  | leaving => .unlock (.pending client) (.callRaw client returned)
  | returned => .ret

def CallOneway.instr (client : ℕ) : CallOneway → Next
  | begun => .lock (.tcpClient client) (.callOneway client sending)
  | sending => .callback (.callOneway client sent) (.callOneway client sent)
  | sent => .unlock (.tcpClient client) (.callOneway client returned)
  | returned => .ret

def ClientData.instr (client : ℕ) : ClientData → Next
  | begun => .lock (.recvBuf client) (.clientData client parsing)
  | parsing => either (.clientData client parsed) (.clientData client notParsed)
  | parsed => .unlock (.recvBuf client) (.clientData client handling)
  | notParsed => .unlock (.recvBuf client) (.clientData client returned)
  | handling => either (.clientData client frame) (.clientData client returned)
  | frame => either (.clientData client replying) (.clientData client handling)
  | replying => .lock (.pending client) (.clientData client storing)
  | storing => .unlock (.pending client) (.clientData client handling)
  | returned => .ret

/-- One change of the buffers of a server. -/
def changeBuffers (server : ℕ) (goTo : Guarded → Frame) : Guarded → Next
  | .begun => .lock (.connBuffers server) (goTo .locked)
  | .locked => .unlock (.connBuffers server) (goTo .returned)
  | .returned => .ret

def ServerData.instr (server id : ℕ) : ServerData → Next
  | begun => .lock (.connBuffers server) (.serverData server id parsing)
  | parsing => either (.serverData server id parsed) (.serverData server id notParsed)
  | parsed => .unlock (.connBuffers server) (.serverData server id handling)
  | notParsed => .unlock (.connBuffers server) (.serverData server id returned)
  | handling => either (.serverData server id frame) (.serverData server id returned)
  | frame => either (.serverData server id request) (.serverData server id notRequest)
  -- the payload of a request may be invalid, and its service unknown
  | request => either (.serverData server id dispatching) (.serverData server id dispatched)
  | notRequest => either (.serverData server id responding) (.serverData server id handling)
  | dispatching => .callback (.serverData server id dispatched) (.serverData server id dispatched)
  | dispatched => either (.serverData server id responding) (.serverData server id handling)
  | responding => .callback (.serverData server id handling) (.serverData server id handling)
  | returned => .ret

def Frame.instr : Frame → Next
  | event f => f.instr.map .net .event
  | operation f => f.instr.map .net .operation
  | callRaw client phase => phase.instr client
  | callOneway client phase => phase.instr client
  | clientData client phase => phase.instr client
  | connect server phase => changeBuffers server (.connect server) phase
  | disconnect server phase => changeBuffers server (.disconnect server) phase
  | serverData server id phase => phase.instr server id

/-! ## Calls -/

inductive Call
  | send (client : ℕ)
  | sendTo (server id : ℕ)
  | callRaw (client : ℕ)
  | callOneway (client : ℕ)
  | clientData (client : ℕ)
  | connect (server : ℕ)
  | disconnect (server : ℕ)
  | serverData (server id : ℕ)
  deriving DecidableEq

def Call.frame : Call → Frame
  | send client => .operation (.send client .begun)
  | sendTo server id => .operation (.sendTo server id .begun)
  | callRaw client => .callRaw client .begun
  | callOneway client => .callOneway client .begun
  | clientData client => .clientData client .begun
  | connect server => .connect server .begun
  | disconnect server => .disconnect server .begun
  | serverData server id => .serverData server id .begun

/-- What begins in a thread of its own: an event or an operation of the network, and calls of
    the user. -/
inductive Input
  | net (i : Reentry.Input)
  | callRaw (client : ℕ)
  | callOneway (client : ℕ)
  deriving DecidableEq

def Input.frame : Input → Frame
  | net i => .event i.frame
  | callRaw client => .callRaw client .begun
  | callOneway client => .callOneway client .begun

def code : Code Data Mutex Frame Choice Call Input := ⟨Frame.instr, Call.frame, Input.frame⟩

abbrev State := Config (Locks Data Mutex) (CallStack Mutex Frame)
abbrev Step := Action Input (Move Choice Call)

abbrev system : Machine (Locks Data Mutex) (CallStack Mutex Frame) Input (Move Choice Call) :=
  code.system
abbrev initial : State := Code.initial Mutex Frame .new

/-- Who calls whom. The other callbacks of the handlers only log, or are left at their
    defaults, which return. -/
def Frame.calls : Frame → Call → Bool
  | event (.accept server (.connecting _)), .connect server' => server' = server
  | event (.handle server id _ _ .data), .serverData server' id' => server' = server ∧ id' = id
  | event (.handle server _ _ _ .notifying), .disconnect server' => server' = server
  | event (.clientHandle client _ _ .data), .clientData client' => client' = client
  | callRaw client .sending, .send client' => client' = client
  | callOneway client .sending, .send client' => client' = client
  | serverData _ _ .dispatching, .callRaw _ => true
  | serverData _ _ .dispatching, .callOneway _ => true
  | serverData server id .responding, .sendTo server' id' => server' = server ∧ id' = id
  | _, _ => false

/-! ## What frames hold -/

def Frame.holds : Frame → List Mutex
  | event f => f.holds.map .net
  | operation f => f.holds.map .net
  | callRaw client .inserting => [.pending client]
  | callRaw client .sending => [.tcpClient client]
  | callRaw client .sent => [.tcpClient client]
  | callRaw client .notSent => [.tcpClient client]
  | callRaw client .forgotten => [.pending client]
  | callRaw client .checking => [.pending client]
  | callRaw client .parked => [.pending client]
  | callRaw client .awake => [.pending client]
  | callRaw client .leaving => [.pending client]
  | callOneway client .sending => [.tcpClient client]
  | callOneway client .sent => [.tcpClient client]
  | clientData client .parsing => [.recvBuf client]
  | clientData client .parsed => [.recvBuf client]
  | clientData client .notParsed => [.recvBuf client]
  | clientData client .storing => [.pending client]
  | connect server .locked => [.connBuffers server]
  | disconnect server .locked => [.connBuffers server]
  | serverData server _ .parsing => [.connBuffers server]
  | serverData server _ .parsed => [.connBuffers server]
  | serverData server _ .notParsed => [.connBuffers server]
  | _ => []

section

variable {f : Frame}

theorem follows_either {one other : Frame} (hone : one.holds = f.holds)
    (hother : other.holds = f.holds) : (either one other).Follows Frame.holds f := by
  intro s o s' f' hnext
  cases o <;> simp only [reduceCtorEq] at hnext <;> cases hnext
  · exact hone
  · exact hother

theorem CallRaw.follows (client : ℕ) (phase : CallRaw) :
    (phase.instr client).Follows Frame.holds (.callRaw client phase) := by
  cases phase with
  | checking | awake => exact follows_either rfl rfl
  | sending => exact ⟨rfl, rfl⟩
  | _ => rfl

theorem CallOneway.follows (client : ℕ) (phase : CallOneway) :
    (phase.instr client).Follows Frame.holds (.callOneway client phase) := by
  cases phase with
  | sending => exact ⟨rfl, rfl⟩
  | _ => rfl

theorem ClientData.follows (client : ℕ) (phase : ClientData) :
    (phase.instr client).Follows Frame.holds (.clientData client phase) := by
  cases phase with
  | parsing | handling | frame => exact follows_either rfl rfl
  | _ => rfl

theorem ServerData.follows (server id : ℕ) (phase : ServerData) :
    (phase.instr server id).Follows Frame.holds (.serverData server id phase) := by
  cases phase with
  | parsing | handling | frame | request | notRequest | dispatched => exact follows_either rfl rfl
  | dispatching | responding => exact ⟨rfl, rfl⟩
  | _ => rfl

theorem Frame.follows (f : Frame) : f.instr.Follows Frame.holds f := by
  cases f with
  | event f => exact f.follows.map fun _ => rfl
  | operation f => exact f.follows.map fun _ => rfl
  | callRaw client phase => exact phase.follows client
  | callOneway client phase => exact phase.follows client
  | clientData client phase => exact phase.follows client
  | connect server phase | disconnect server phase => cases phase <;> rfl
  | serverData server id phase => exact phase.follows server id

theorem Call.holds_frame (c : Call) : c.frame.holds = [] := by cases c <;> rfl

theorem Input.holds_frame (i : Input) : i.frame.holds = [] := by
  cases i with
  | net i => exact congrArg (List.map Mutex.net) (Reentry.Input.holds_frame i)
  | callRaw | callOneway => rfl

theorem code_follows : code.Follows Frame.holds := ⟨Frame.follows, Call.holds_frame, Input.holds_frame⟩

/-! ## The order -/

/-- The mutexes of the handlers come last, and that of the TCP client before its stream. -/
def Mutex.layer : Mutex → ℕ
  | net (.listener _) => 0
  | net (.stream _ _) => 1
  | tcpClient _ => 2
  | net (.client _) => 3
  | pending _ => 4
  | recvBuf _ => 4
  | connBuffers _ => 4

/-- The mutexes that a call of the function may lock, with those of the calls that it makes. -/
def Frame.mayLock : Frame → Set Mutex
  | event _ => Set.univ
  | operation f => Mutex.net '' f.mayLock
  | callRaw client _ => {.pending client, .tcpClient client, .net (.client client)}
  | callOneway client _ => {.tcpClient client, .net (.client client)}
  | clientData client _ => {.recvBuf client, .pending client}
  | connect server _ => {.connBuffers server}
  | disconnect server _ => {.connBuffers server}
  | serverData _ _ _ => Set.univ

theorem ordered_either {one other : Frame} (hone : one.mayLock = f.mayLock)
    (hother : other.mayLock = f.mayLock) :
    (either one other).Ordered Frame.holds Frame.mayLock Mutex.layer f := by
  intro s o s' f' hnext
  cases o <;> simp only [reduceCtorEq] at hnext <;> cases hnext
  · exact hone.subset
  · exact hother.subset

theorem CallRaw.ordered (client : ℕ) (phase : CallRaw) :
    (phase.instr client).Ordered Frame.holds Frame.mayLock Mutex.layer (.callRaw client phase) := by
  cases phase with
  | checking | awake => exact ordered_either rfl rfl
  | begun | inserted | forgetting | waiting | woken =>
    exact ⟨⟨by simp [Frame.mayLock], List.forall_mem_nil _⟩, subset_rfl⟩
  | sending => exact ⟨subset_rfl, subset_rfl⟩
  | returned => trivial
  | _ => exact subset_rfl

theorem CallOneway.ordered (client : ℕ) (phase : CallOneway) :
    (phase.instr client).Ordered Frame.holds Frame.mayLock Mutex.layer (.callOneway client phase) := by
  cases phase with
  | begun => exact ⟨⟨by simp [Frame.mayLock], List.forall_mem_nil _⟩, subset_rfl⟩
  | sending => exact ⟨subset_rfl, subset_rfl⟩
  | sent => exact subset_rfl
  | returned => trivial

theorem ClientData.ordered (client : ℕ) (phase : ClientData) :
    (phase.instr client).Ordered Frame.holds Frame.mayLock Mutex.layer (.clientData client phase) := by
  cases phase with
  | parsing | handling | frame => exact ordered_either rfl rfl
  | begun | replying => exact ⟨⟨by simp [Frame.mayLock], List.forall_mem_nil _⟩, subset_rfl⟩
  | returned => trivial
  | _ => exact subset_rfl

theorem ServerData.ordered (server id : ℕ) (phase : ServerData) :
    (phase.instr server id).Ordered Frame.holds Frame.mayLock Mutex.layer
      (.serverData server id phase) := by
  cases phase with
  | parsing | handling | frame | request | notRequest | dispatched => exact ordered_either rfl rfl
  | begun => exact ⟨⟨Set.mem_univ _, List.forall_mem_nil _⟩, subset_rfl⟩
  | dispatching | responding => exact ⟨subset_rfl, subset_rfl⟩
  | returned => trivial
  | _ => exact subset_rfl

theorem net_ordered (f : Reentry.Frame) :
    f.instr.Ordered Reentry.Frame.holds Reentry.Frame.mayLock (fun m => (Mutex.net m).layer) f :=
  f.ordered fun _ _ => Nat.zero_lt_one

theorem Frame.ordered (f : Frame) : f.instr.Ordered Frame.holds Frame.mayLock Mutex.layer f := by
  cases f with
  | event f =>
    exact (net_ordered f).map (fun _ => rfl) (fun _ => rfl) (fun _ _ => Set.mem_univ _)
      fun _ _ => subset_rfl
  | operation f =>
    exact (net_ordered f).map (fun _ => rfl) (fun _ => rfl) (fun _ => Set.mem_image_of_mem _)
      fun _ => Set.image_mono
  | callRaw client phase => exact phase.ordered client
  | callOneway client phase => exact phase.ordered client
  | clientData client phase => exact phase.ordered client
  | connect server phase | disconnect server phase =>
    cases phase with
    | begun => exact ⟨⟨Set.mem_singleton _, List.forall_mem_nil _⟩, subset_rfl⟩
    | locked => exact subset_rfl
    | returned => trivial
  | serverData server id phase => exact phase.ordered server id

end

theorem layer_net_lt (m : Reentry.Mutex) (server : ℕ) :
    (Mutex.net m).layer < (Mutex.connBuffers server).layer := by
  cases m <;> simp [Mutex.layer]

/-- The buffers of a server come after all that a function of the network holds. -/
theorem buffers_above (f : Reentry.Frame) (server : ℕ) : ∀ m ∈ (Frame.event f).holds,
    ∀ m' ∈ ({.connBuffers server} : Set Mutex), m.layer < m'.layer := by
  rintro m hm m' rfl
  obtain ⟨m₀, -, rfl⟩ := List.mem_map.1 hm
  exact layer_net_lt m₀ server

/-- The stream of a client comes after its TCP client. -/
theorem stream_above (client : ℕ) : ∀ m ∈ ([.tcpClient client] : List Mutex),
    ∀ m' ∈ Mutex.net '' {.client client}, m.layer < m'.layer := by
  rintro m hm m' ⟨m₀, rfl, rfl⟩
  obtain rfl := List.mem_singleton.1 hm
  simp [Mutex.layer]

/-- What is called locks above what its caller holds. -/
theorem code_calls : code.Calls Frame.holds Frame.mayLock Mutex.layer Frame.calls := by
  intro f c h
  unfold Frame.calls at h
  split at h
  -- `on_connect` and `on_disconnect` run with mutexes of the network
  · exact ⟨Set.subset_univ _, buffers_above _ _⟩
  · exact ⟨Set.subset_univ _, nofun⟩
  · exact ⟨Set.subset_univ _, buffers_above _ _⟩
  · exact ⟨Set.subset_univ _, nofun⟩
  -- the sends of a client run with its mutex
  · obtain rfl := of_decide_eq_true h
    refine ⟨?_, stream_above _⟩
    rintro m ⟨m₀, rfl, rfl⟩
    simp [Frame.mayLock]
  · obtain rfl := of_decide_eq_true h
    refine ⟨?_, stream_above _⟩
    rintro m ⟨m₀, rfl, rfl⟩
    simp [Frame.mayLock]
  · exact ⟨Set.subset_univ _, nofun⟩
  · exact ⟨Set.subset_univ _, nofun⟩
  · exact ⟨Set.subset_univ _, nofun⟩
  · cases h

/-! ## Runs -/

/-- In every run of RPC clients and servers, with services that may call any client: the waits of
    each thread lead to one that does not wait, so no threads wait for each other. -/
theorem never_deadlocks {as : List Step} {u : State} {t : CallStack Mutex Frame}
    (h : Run system.step (Code.Calling Frame.calls) initial as u) (ht : t ∈ u.threads)
    (hframes : t.frames ≠ []) :
    ∃ t', Relation.ReflTransGen (code.WaitsFor u) t t' ∧ t' ∈ u.threads ∧ t'.frames ≠ [] ∧
      ∀ m ∈ code.awaits t', u.shared.locked m = false :=
  Code.waits_lead_out code_follows Frame.ordered
    (Code.ascending_of_calling code_follows Frame.ordered code_calls h) ht hframes

/-- A service calls client 0, whose mutex a thread of the user holds while it sends. -/
theorem never_deadlocks_calling : ∃ as u t,
    Run system.step (Code.Calling Frame.calls) initial as u ∧ u.threads[1]? = some t ∧
    code.awaits t = some (.tcpClient 0) ∧ u.shared.locked (.tcpClient 0) = true ∧
    ∃ t', Relation.ReflTransGen (code.WaitsFor u) t t' ∧ t' ∈ u.threads ∧ t'.frames ≠ [] ∧
      ∀ m ∈ code.awaits t', u.shared.locked m = false := by
  obtain ⟨u, hrun, ht, htaken⟩ : ∃ u, Run system.step (Code.Calling Frame.calls) initial
      [.env (.callOneway 0), .act 0 .go, .act 0 (.enter (.send 0)),
        .env (.net (.handle 0 1 true false)), .act 1 (.choose .go), .act 1 .go, .act 1 (.choose .go),
        .act 1 .go, .act 1 (.enter (.serverData 0 1)), .act 1 .go, .act 1 (.choose .go),
        .act 1 .go, .act 1 (.choose .go), .act 1 (.choose .go), .act 1 (.choose .go),
        .act 1 (.enter (.callRaw 0)), .act 1 .go, .act 1 .go] u ∧
      (u.threads[1]?.any fun t => code.awaits t = some (.tcpClient 0)) = true ∧
      u.shared.locked (.tcpClient 0) = true := Run.exists_of_exec (by decide +kernel)
  obtain ⟨t, ht, hawaits⟩ := (Option.any_eq_true _ _).1 ht
  have hwaits : code.awaits t = some (.tcpClient 0) := of_decide_eq_true hawaits
  have hframes : t.frames ≠ [] := by
    intro hnil
    rw [Code.awaits, hnil] at hwaits
    cases hwaits
  exact ⟨_, u, t, hrun, ht, hwaits, htaken,
    never_deadlocks hrun (List.mem_of_getElem? ht) hframes⟩

end RpcThreads
