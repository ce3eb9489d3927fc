-- SUMMARY: The receive buffers of the RPC server and client: how much they hold, and how long the server keeps them.
import MillIo.Rpc.Grammar
import MillIo.Rpc.Transport
import MillIo.Server.Callbacks

/-!
# Receive buffers

What `on_data` leaves in a buffer is less than the longest frame, whatever has come.
The buffers of the server are those of its connections, if the callbacks of each
connection come in their order. A callback of the RPC handler takes the lock of
`conn_buffers` once, and the step that calls it stands for what it does there.
-/

open Interleaving Protocol

/-! ## What is left in a buffer -/

/-- Less than the longest frame, with neither a complete frame nor an error in it. -/
structure Settled (buf : List UInt8) : Prop where
  length : buf.length < headerSize + maxPayloadSize.toNat
  quiet : parseFrames buf = .ok ([], 0)

namespace Settled

theorem of_incomplete {bs : List UInt8} (h : Incomplete bs) : Settled bs := by
  constructor
  · rcases h with hshort | ⟨header, hwf, -, hpart⟩
    · exact Nat.lt_add_right _ hshort
    · have hle := UInt32.le_iff_toNat_le.1 hwf.payloadLen
      omega
  · have hmore : reader.parse bs = some ([], bs) := reader.parse_of_more (look_eq_more_iff.2 h)
    rcases parseFrames_spec bs with ⟨fs, rest, hsome, hframes, -⟩ | ⟨hnone, -⟩
    · cases hmore.symm.trans hsome
      rw [hframes, Nat.sub_self]
    · cases hmore.symm.trans hnone

theorem nil : Settled [] :=
  of_incomplete (.inl (by decide))

/-- Whatever the buffer and the data have been. -/
theorem receiveFrames (buf data : List UInt8) : Settled (receiveFrames buf data).2 := by
  rw [receiveFrames_eq, Framing.Reader.receive]
  cases hparse : reader.parse (buf ++ data) with
  | none => exact nil
  | some p => exact of_incomplete (look_eq_more_iff.1 (reader.parse_eq_some_iff.1 hparse).2)

end Settled

namespace RpcClientHandler

/-- The buffer after successive calls of `on_data`. -/
def received (recvBuf : List UInt8) (chunks : List (List UInt8)) : List UInt8 :=
  chunks.foldl (fun buf data => (onData buf data).2) recvBuf

theorem settled_received {recvBuf : List UInt8} (h : Settled recvBuf) (chunks : List (List UInt8)) :
    Settled (received recvBuf chunks) := by
  induction chunks generalizing recvBuf with
  | nil => exact h
  | cons data chunks ih => exact ih (.receiveFrames recvBuf data)

end RpcClientHandler

namespace RpcServerHandler

/-- The handler after successive calls of its callbacks for any connections. -/
def after (s : RpcServerHandler) (events : List (UInt64 × ConnectionEvent)) : RpcServerHandler :=
  events.foldl (fun s event => s.onEvent event.1 event.2) s

/-- All buffers are settled. -/
def AllSettled (s : RpcServerHandler) : Prop :=
  ∀ connId buf, s.connBuffers connId = some buf → Settled buf

/-- A change of one buffer is to be checked at this buffer. -/
theorem AllSettled.update {s : RpcServerHandler} (h : s.AllSettled) {connId : UInt64}
    {entry : Option (List UInt8)} (hentry : ∀ buf, entry = some buf → Settled buf) :
    AllSettled ⟨Function.update s.connBuffers connId entry⟩ := by
  intro id buf hbuf
  by_cases hid : id = connId
  · subst hid
    simp only [Function.update_self] at hbuf
    exact hentry buf hbuf
  · simp only [Function.update_of_ne hid] at hbuf
    exact h id buf hbuf

theorem AllSettled.onEvent {s : RpcServerHandler} (h : s.AllSettled) (connId : UInt64)
    (event : ConnectionEvent) : (s.onEvent connId event).AllSettled := by
  cases event with
  | connect => exact h.update fun buf hbuf => Option.some.inj hbuf ▸ .nil
  | data bytes =>
    exact h.update fun buf hbuf => Option.some.inj hbuf ▸ .receiveFrames (s.buffer connId) bytes
  | disconnect => exact h.update nofun

theorem AllSettled.after {s : RpcServerHandler} (h : s.AllSettled)
    (events : List (UInt64 × ConnectionEvent)) : (s.after events).AllSettled := by
  induction events generalizing s with
  | nil => exact h
  | cons event events ih => exact ih (h.onEvent event.1 event.2)

end RpcServerHandler

/-- Whatever comes, in whatever chunks: after every call of `on_data` of a client the
    buffer is settled, and so are, after every callback, all buffers of a server. -/
theorem buffers_settled :
    (∀ chunks, Settled (RpcClientHandler.received [] chunks)) ∧
    ∀ events connId buf,
      (RpcServerHandler.after ⟨fun _ => none⟩ events).connBuffers connId = some buf → Settled buf :=
  ⟨RpcClientHandler.settled_received .nil,
    RpcServerHandler.AllSettled.after fun _ _ hbuf => nomatch hbuf⟩

/-! ## The buffers of the connections -/

/-- How bytes leave a buffer. -/
inductive Bridge.Fate
  | framed (frames : List Frame)
  /-- The buffer is cleared after an error of `parse_frames`. -/
  | rejected
  /-- `on_connect` puts an empty buffer in the place of theirs. -/
  | overwritten
  /-- `on_disconnect` removes their buffer. -/
  | removed
  deriving DecidableEq

/-- The TCP server and the handler that its callbacks are those of. For each key of
    `conn_buffers`, the bytes passed to `on_data`, and those that have left the buffer,
    piece by piece. -/
structure Bridge where
  tcp : Server.TcpServer
  handler : RpcServerHandler
  passed : UInt64 → List UInt8
  spent : UInt64 → List (List UInt8 × Bridge.Fate)

namespace Bridge

open Server (Thread Choice Input Callback Acts)

/-- `ConnectionId::as_u64`. -/
def asU64 (id : ℕ) : UInt64 := UInt64.ofNat id

/-- The data has come to the buffer of the key, the piece has left it, and the handler is
    the new one. -/
def exchange (s : Bridge) (key : UInt64) (data : List UInt8) (piece : List UInt8 × Fate)
    (handler : RpcServerHandler) : Bridge :=
  { s with
    handler := handler
    passed := Function.update s.passed key (s.passed key ++ data)
    spent := Function.update s.spent key (s.spent key ++ [piece]) }

def onConnect (s : Bridge) (key : UInt64) : Bridge :=
  s.exchange key [] (s.handler.buffer key, .overwritten) (s.handler.onConnect key)

/-- The piece that `on_data` takes off the front of the buffer. -/
def taken (buf : List UInt8) : List UInt8 × Fate :=
  match parseFrames buf with
  | .ok (frames, consumed) => (buf.take consumed, .framed frames)
  | .error _ => (buf, .rejected)

def onData (s : Bridge) (key : UInt64) (data : List UInt8) : Bridge :=
  s.exchange key data (taken (s.handler.buffer key ++ data)) (s.handler.onData key data).2

def onDisconnect (s : Bridge) (key : UInt64) : Bridge :=
  s.exchange key [] (s.handler.buffer key, .removed) (s.handler.onDisconnect key)

/-- What a callback of the RPC handler does. The others do nothing. -/
def callback (s : Bridge) (data : List UInt8) : ℕ × Callback → Bridge
  | (id, .onConnect) => s.onConnect (asU64 id)
  | (id, .onData) => s.onData (asU64 id) data
  | (id, .onDisconnect) => s.onDisconnect (asU64 id)
  | _ => s

/-- The callbacks that have been made, by key. -/
def reported (s : Bridge) : List (UInt64 × Callback) :=
  s.tcp.calls.map fun call => (asU64 call.1, call.2)

/-- Connected and not yet disconnected. -/
def Connected (s : Bridge) (key : UInt64) : Prop :=
  (key, .onConnect) ∈ s.reported ∧ (key, .onDisconnect) ∉ s.reported

instance (s : Bridge) (key : UInt64) : Decidable (s.Connected key) := by
  unfold Connected
  infer_instance

/-- The callback returns an error, which those of the RPC handler do not. -/
def fails : Thread → Choice → Bool
  | .accept (.inOnConnect _), .failed _ => true
  | .handle _ _ _ .inOnData, .failed _ => true
  | .handle _ _ _ .disconnecting, .failed _ => true
  | .handle _ _ _ (.inOnWritable _), .failed _ => true
  | .close _ .disconnecting, .failed _ => true
  | _, _ => false

/-- A step of the TCP server, with the data that it passes on if it calls `on_data`. -/
def act (s : Bridge) (t : Thread) (o : Choice × List UInt8) : Option (Bridge × Thread) :=
  if fails t o.1 then none
  else (Server.system.act s.tcp t o.1).map fun r =>
    ({ (t.makes o.1).elim s (s.callback o.2) with tcp := r.1 }, r.2)

def system : Machine Bridge Thread Input (Choice × List UInt8) where
  env s input := some (s, [input.thread])
  act := act

abbrev State := Config Bridge Thread

abbrev Step := Action Input (Choice × List UInt8)

def initial (max : Option UInt64) : State :=
  ⟨⟨.new max, ⟨fun _ => none⟩, fun _ => [], fun _ => []⟩, []⟩

/-- There is a buffer only while the connection is connected and not yet disconnected,
    and every byte that has been passed to `on_data` is still in the buffer, or has been
    consumed as part of a frame, or has left with a parse error, or was there when
    `on_disconnect` removed the buffer. -/
structure Follows (s : Bridge) (key : UInt64) : Prop where
  connected : (s.handler.connBuffers key).isSome → s.Connected key
  accounted : s.passed key = (s.spent key).flatMap Prod.fst ++ s.handler.buffer key
  framed : ∀ piece ∈ s.spent key, ∀ frames, piece.2 = .framed frames →
    (∀ f ∈ frames, f.WellFormed) ∧ piece.1 = encodeAll frames
  kept : ∀ piece ∈ s.spent key, piece.2 = .overwritten → piece.1 = []

/-- `on_data` is called for a connection that is connected and not yet disconnected, and
    `on_connect` for one that is not disconnected and whose buffer is empty. -/
def Admits (s : Bridge) : ℕ × Callback → Prop
  | (id, .onConnect) =>
    (asU64 id, .onDisconnect) ∉ s.reported ∧ s.handler.buffer (asU64 id) = []
  | (id, .onData) => s.Connected (asU64 id)
  | _ => True

/-- The calls come in this order. -/
def Ordered : State → Step → Prop :=
  Machine.ThreadSteps fun s t o => ∀ call ∈ t.makes o.1, s.shared.Admits call

/-! ## What a callback does -/

section

variable {s s' : Bridge} {key : UInt64} {data : List UInt8}

/-- The rule for the buffers of the other connections. -/
theorem Follows.congr (h : s.Follows key)
    (hentry : s'.handler.connBuffers key = s.handler.connBuffers key)
    (hpassed : s'.passed key = s.passed key) (hspent : s'.spent key = s.spent key)
    (hconnected : s'.Connected key ↔ s.Connected key) : s'.Follows key := by
  have hbuffer : s'.handler.buffer key = s.handler.buffer key := congrArg (Option.getD · []) hentry
  refine ⟨?_, ?_, ?_, ?_⟩
  · rw [hentry, hconnected]
    exact h.connected
  · rw [hpassed, hspent, hbuffer]
    exact h.accounted
  · rw [hspent]
    exact h.framed
  · rw [hspent]
    exact h.kept

/-- The rule for the connection that the data comes to and the piece leaves. -/
theorem follows_exchange {piece : List UInt8 × Fate} {handler : RpcServerHandler}
    (h : s.Follows key) (hbytes : s.handler.buffer key ++ data = piece.1 ++ handler.buffer key)
    (hframed : ∀ frames, piece.2 = .framed frames →
      (∀ f ∈ frames, f.WellFormed) ∧ piece.1 = encodeAll frames) (tcp : Server.TcpServer) :
    Follows { s.exchange key data piece handler with tcp := tcp } key ↔
      ((handler.connBuffers key).isSome → Connected { s with tcp := tcp } key) ∧
      (piece.2 = .overwritten → piece.1 = []) := by
  have hpassed : (s.exchange key data piece handler).passed key = s.passed key ++ data :=
    Function.update_self ..
  have hspent : (s.exchange key data piece handler).spent key = s.spent key ++ [piece] :=
    Function.update_self ..
  constructor
  · intro h'
    refine ⟨h'.connected, h'.kept piece ?_⟩
    rw [hspent]
    exact List.mem_append_right _ (List.mem_singleton_self _)
  · rintro ⟨hconnected, hkept⟩
    refine ⟨hconnected, ?_, ?_, ?_⟩
    · change _ = List.flatMap _ ((s.exchange key data piece handler).spent key) ++ handler.buffer key
      rw [hpassed, hspent, h.accounted, List.append_assoc, hbytes, List.flatMap_append]
      simp
    · rw [hspent]
      exact List.forall_mem_append.2 ⟨h.framed, List.forall_mem_singleton.2 hframed⟩
    · rw [hspent]
      exact List.forall_mem_append.2 ⟨h.kept, List.forall_mem_singleton.2 hkept⟩

theorem taken_append (buf data : List UInt8) :
    (taken (buf ++ data)).1 ++ (receiveFrames buf data).2 = buf ++ data := by
  unfold taken receiveFrames
  cases parseFrames (buf ++ data) with
  | error e => exact List.append_nil _
  | ok p =>
    obtain ⟨frames, consumed⟩ := p
    simp only
    split
    · exact List.take_append_drop consumed _
    · rename_i hconsumed
      rw [Nat.eq_zero_of_not_pos hconsumed]
      rfl

/-- A piece that is taken as frames is their encoding. -/
theorem framed_of_taken {buf : List UInt8} {frames : List Frame} (h : (taken buf).2 = .framed frames) :
    (∀ f ∈ frames, f.WellFormed) ∧ (taken buf).1 = encodeAll frames := by
  unfold taken at h ⊢
  cases hparse : parseFrames buf with
  | error e =>
    rw [hparse] at h
    cases h
  | ok p =>
    obtain ⟨frames', consumed⟩ := p
    rw [hparse] at h
    cases h
    obtain ⟨-, htake, hwf, -⟩ := stream_of_parseFrames hparse
    exact ⟨hwf, htake⟩

theorem taken_ne_overwritten (buf : List UInt8) : (taken buf).2 ≠ .overwritten := by
  unfold taken
  split <;> simp

variable {tcp : Server.TcpServer} {id : ℕ} {callback : Callback}

theorem reported_append (hcalls : tcp.calls = s.tcp.calls ++ [(id, callback)]) :
    reported { s with tcp := tcp } = s.reported ++ [(asU64 id, callback)] := by
  simp [reported, hcalls]

/-- A callback for another connection, or one that is neither `on_connect` nor
    `on_disconnect`, leaves the connection as it is. -/
theorem connected_append (hcalls : tcp.calls = s.tcp.calls ++ [(id, callback)])
    (h : asU64 id ≠ key ∨ callback ≠ .onConnect ∧ callback ≠ .onDisconnect) :
    Connected { s with tcp := tcp } key ↔ s.Connected key := by
  have hother : ∀ c, c = .onConnect ∨ c = .onDisconnect → (key, c) ≠ (asU64 id, callback) := by
    rintro c hc heq
    obtain ⟨hkey, hcallback⟩ := Prod.mk.inj heq
    rcases h with hne | ⟨hconnect, hdisconnect⟩
    · exact hne hkey.symm
    · rcases hc with rfl | rfl
      · exact hconnect hcallback.symm
      · exact hdisconnect hcallback.symm
  unfold Connected
  rw [reported_append hcalls, List.mem_append, List.mem_append, List.mem_singleton,
    List.mem_singleton, or_iff_left (hother _ (.inl rfl)), or_iff_left (hother _ (.inr rfl))]

/-- Of all connections, it remains to look at the one that the callback is for. -/
theorem follows_callback_iff (h : ∀ key, s.Follows key)
    (hcalls : tcp.calls = s.tcp.calls ++ [(id, callback)]) :
    (∀ key, Follows { s.callback data (id, callback) with tcp := tcp } key) ↔
      Follows { s.callback data (id, callback) with tcp := tcp } (asU64 id) := by
  refine ⟨fun hall => hall _, fun hown key => ?_⟩
  by_cases hkey : key = asU64 id
  · exact hkey ▸ hown
  · have hconnected : Connected { s with tcp := tcp } key ↔ s.Connected key :=
      connected_append hcalls (.inl (Ne.symm hkey))
    cases callback with
    | onConnect | onData | onDisconnect =>
      exact (h key).congr (Function.update_of_ne hkey ..) (Function.update_of_ne hkey ..)
        (Function.update_of_ne hkey ..) hconnected
    | _ => exact (h key).congr rfl rfl rfl hconnected

theorem follows_onConnect_iff (h : s.Follows (asU64 id))
    (hcalls : tcp.calls = s.tcp.calls ++ [(id, .onConnect)]) :
    Follows { s.onConnect (asU64 id) with tcp := tcp } (asU64 id) ↔ s.Admits (id, .onConnect) := by
  have hempty : (s.handler.onConnect (asU64 id)).buffer (asU64 id) = [] := by
    simp [RpcServerHandler.onConnect, RpcServerHandler.buffer]
  have hentry : ((s.handler.onConnect (asU64 id)).connBuffers (asU64 id)).isSome := by
    simp [RpcServerHandler.onConnect]
  have hconnected : Connected { s with tcp := tcp } (asU64 id) ↔
      (asU64 id, .onDisconnect) ∉ s.reported := by
    simp [Connected, reported_append hcalls]
  rw [onConnect, follows_exchange h (by rw [hempty]) (by simp), hconnected, Admits]
  simp [hentry]

theorem follows_onData_iff (h : s.Follows (asU64 id))
    (hcalls : tcp.calls = s.tcp.calls ++ [(id, .onData)]) :
    Follows { s.onData (asU64 id) data with tcp := tcp } (asU64 id) ↔ s.Admits (id, .onData) := by
  have hbuffer : (s.handler.onData (asU64 id) data).2.buffer (asU64 id) =
      (receiveFrames (s.handler.buffer (asU64 id)) data).2 := by
    simp [RpcServerHandler.onData, RpcServerHandler.buffer]
  have hentry : ((s.handler.onData (asU64 id) data).2.connBuffers (asU64 id)).isSome := by
    simp [RpcServerHandler.onData]
  have hconnected : Connected { s with tcp := tcp } (asU64 id) ↔ s.Connected (asU64 id) :=
    connected_append hcalls (.inr ⟨by simp, by simp⟩)
  rw [onData, follows_exchange h (by rw [hbuffer, taken_append]) fun _ => framed_of_taken, hconnected,
    Admits]
  simp [hentry, taken_ne_overwritten]

theorem follows_onDisconnect (h : s.Follows (asU64 id)) :
    Follows { s.onDisconnect (asU64 id) with tcp := tcp } (asU64 id) := by
  have hempty : (s.handler.onDisconnect (asU64 id)).buffer (asU64 id) = [] := by
    simp [RpcServerHandler.onDisconnect, RpcServerHandler.buffer]
  refine (follows_exchange h (by rw [hempty]) (by simp) tcp).2
    ⟨fun hentry => ?_, by simp⟩
  simp [RpcServerHandler.onDisconnect] at hentry

/-- A callback keeps the promise if and only if it comes in its order. -/
theorem follows_callback (h : ∀ key, s.Follows key) {call : ℕ × Callback}
    (hcalls : tcp.calls = s.tcp.calls ++ [call]) :
    (∀ key, Follows { s.callback data call with tcp := tcp } key) ↔ s.Admits call := by
  obtain ⟨id, callback⟩ := call
  rw [follows_callback_iff h hcalls]
  cases callback with
  | onConnect => exact follows_onConnect_iff (h _) hcalls
  | onData => exact follows_onData_iff (h _) hcalls
  | onDisconnect => exact iff_of_true (follows_onDisconnect (h _)) trivial
  | _ =>
    have hconnected : Connected { s with tcp := tcp } (asU64 id) ↔ s.Connected (asU64 id) :=
      connected_append hcalls (.inr ⟨by simp, by simp⟩)
    exact iff_of_true ((h _).congr rfl rfl rfl hconnected) trivial

end

/-! ## Whole runs -/

/-- All that a step can do: a thread comes into being, or one thread goes on and makes
    its callback. -/
theorem step_cases {s u : State} {a : Step} (h : system.step s a = some u) :
    (∃ input : Input, a = .env input ∧ u = ⟨s.shared, s.threads ++ [input.thread]⟩) ∨
    (∃ o tcp t t', ∃ l l' : List Thread, a = .act l.length o ∧ s.threads = l ++ t :: l' ∧
      Acts s.shared.tcp t o.1 tcp t' ∧
      u = ⟨{ (t.makes o.1).elim s.shared (s.shared.callback o.2) with tcp := tcp }, l ++ t' :: l'⟩) := by
  rcases Machine.step_cases h with ⟨input, r, rfl, hr, rfl⟩ | ⟨o, t, r, l, l', rfl, hts, hr, rfl⟩
  · cases hr
    exact .inl ⟨input, rfl, rfl⟩
  · change act s.shared t o = some r at hr
    unfold act at hr
    split at hr
    · cases hr
    · obtain ⟨⟨tcp, t'⟩, hact, rfl⟩ := Option.map_eq_some_iff.1 hr
      exact .inr ⟨o, tcp, t, t', l, l', rfl, hts, Server.acts_of_act hact, rfl⟩

/-- In every run the buffers follow their connections, and bytes leave them only as they
    may, in all states of the run, if and only if the callbacks come in their order. -/
theorem follow_iff_ordered {max : Option UInt64} {as : List Step} {s : State}
    (h : Run system.step Unrestricted (initial max) as s) :
    (∀ bs cs v, bs ++ cs = as → Run system.step Unrestricted (initial max) bs v →
      ∀ key, v.shared.Follows key) ↔ Run system.step Ordered (initial max) as s := by
  have hinitial : ∀ key, (initial max).shared.Follows key := fun key => ⟨nofun, rfl, nofun, nofun⟩
  refine h.always_iff hinitial fun bs t a u _ ht hstep => ?_
  rcases step_cases hstep with ⟨input, rfl, rfl⟩ | ⟨o, tcp, t', t'', l, l', rfl, hts, hacts, rfl⟩
  · exact iff_of_true ht trivial
  · obtain ⟨s, ts⟩ := t
    subst hts
    rw [Ordered, Machine.threadSteps_at]
    have hcalls := Server.calls_act hacts
    cases hmakes : t'.makes o.1 with
    | none =>
      rw [hmakes] at hcalls
      have hreported : reported { s with tcp := tcp } = s.reported := by simp [reported, hcalls]
      refine iff_of_true (fun key => (ht key).congr rfl rfl rfl ?_) nofun
      exact iff_of_eq (congrArg (fun r => _ ∈ r ∧ _ ∉ r) hreported)
    | some call =>
      rw [hmakes] at hcalls
      simpa using follows_callback ht hcalls

/-- The steps of the TCP server with the data, if there is any. -/
def steps (as : List Server.Step) (data : List UInt8) : List Step :=
  as.map fun
    | .env input => .env input
    | .act i o => .act i (o, data)

instance : DecidableRel Ordered := by
  unfold Ordered
  have hadmits : ∀ (s : Bridge) call, Decidable (s.Admits call) := by
    intro s call
    unfold Admits
    split <;> infer_instance
  infer_instance

/-- A connection is accepted, and a piece of a frame comes before it ends. -/
theorem follow_iff_ordered_handled :
    ∃ s, Run system.step Ordered (initial none) (steps Server.acceptedAndHandled [0x4D, 0x52]) s ∧
      ∀ bs cs v, bs ++ cs = steps Server.acceptedAndHandled [0x4D, 0x52] →
        Run system.step Unrestricted (initial none) bs v → ∀ key, v.shared.Follows key := by
  obtain ⟨s, hrun, -⟩ : ∃ s, Run system.step Ordered (initial none)
      (steps Server.acceptedAndHandled [0x4D, 0x52]) s ∧ s.shared.passed 1 = [0x4D, 0x52] :=
    Run.exists_of_exec (by decide +kernel)
  exact ⟨s, hrun, (follow_iff_ordered hrun.unrestricted).2 hrun⟩

/-- The first bytes of a frame come between the registration of a connection and
    `on_connect`, which drops them. And a worker that has read bytes passes them to
    `on_data` after another has called `on_disconnect`: their buffer stays. -/
theorem bytes_lost_and_buffer_left :
    (∃ s, Run system.step Unrestricted (initial none)
        (steps [.env .listener, .act 0 (.accepted "peer"), .act 0 .go, .act 0 .go, .act 0 .go,
          .env (.event 1 true false), .act 1 .go, .act 1 .bytes, .act 1 .go, .act 0 .go,
          .act 0 .go, .act 0 .go] [0x4D, 0x52]) s ∧
      s.shared.spent 1 = [([], .framed []), ([0x4D, 0x52], .overwritten)] ∧
      ¬ s.shared.Follows 1) ∧
    ∃ s, Run system.step Unrestricted (initial none)
        (steps [.env .listener, .act 0 (.accepted "peer"), .act 0 .go, .act 0 .go, .act 0 .go,
          .act 0 .go, .act 0 .go, .act 0 .go, .act 0 .go, .env (.event 1 true false),
          .env (.event 1 true false), .act 1 .go, .act 2 .go, .act 1 .bytes, .act 2 .endOfStream,
          .act 2 .go, .act 2 .go, .act 2 .go, .act 2 .go, .act 1 .go] [0x4D, 0x52]) s ∧
      (1, .onDisconnect) ∈ s.shared.reported ∧ (s.shared.handler.connBuffers 1).isSome ∧
      ¬ s.shared.Follows 1 := by
  constructor
  · obtain ⟨s, hrun, hspent⟩ : ∃ s, Run system.step Unrestricted (initial none)
        (steps [.env .listener, .act 0 (.accepted "peer"), .act 0 .go, .act 0 .go, .act 0 .go,
          .env (.event 1 true false), .act 1 .go, .act 1 .bytes, .act 1 .go, .act 0 .go,
          .act 0 .go, .act 0 .go] [0x4D, 0x52]) s ∧
        s.shared.spent 1 = [([], .framed []), ([0x4D, 0x52], .overwritten)] :=
      Run.exists_of_exec (by decide +kernel)
    refine ⟨s, hrun, hspent, fun hfollows => ?_⟩
    have hkept := hfollows.kept ([0x4D, 0x52], .overwritten) (by simp [hspent]) rfl
    cases hkept
  · obtain ⟨s, hrun, hdisconnected, hentry⟩ : ∃ s, Run system.step Unrestricted (initial none)
        (steps [.env .listener, .act 0 (.accepted "peer"), .act 0 .go, .act 0 .go, .act 0 .go,
          .act 0 .go, .act 0 .go, .act 0 .go, .act 0 .go, .env (.event 1 true false),
          .env (.event 1 true false), .act 1 .go, .act 2 .go, .act 1 .bytes, .act 2 .endOfStream,
          .act 2 .go, .act 2 .go, .act 2 .go, .act 2 .go, .act 1 .go] [0x4D, 0x52]) s ∧
        (1, .onDisconnect) ∈ s.shared.reported ∧ (s.shared.handler.connBuffers 1).isSome :=
      Run.exists_of_exec (by decide +kernel)
    exact ⟨s, hrun, hdisconnected, hentry, fun hfollows => (hfollows.connected hentry).2 hdisconnected⟩

end Bridge
