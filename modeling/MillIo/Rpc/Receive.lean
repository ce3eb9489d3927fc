-- SUMMARY: `on_data` of the RPC server and the RPC client: what they make of the bytes of one connection, in any chunking.
import MillIo.Framing.Receiver
import MillIo.Rpc.Protocol
import Mathlib.Logic.Function.Basic

/-!
# Receiving frames

Both handlers keep a buffer of the bytes that no frame has been read from, the
server one for each connection. `on_data` appends the data to it, reads the
complete frames and hands them to `handle_frame`. If `parse_frames` fails, the
buffer is cleared and the connection stays open.
-/

open Protocol

/-- What `on_data` does to a buffer: the frames it hands over, and the bytes that
    are left. -/
def receiveFrames (buf data : List UInt8) : List Frame × List UInt8 :=
  match parseFrames (buf ++ data) with
  | .error _ => ([], [])
  | .ok (frames, consumed) =>
    (frames, if consumed > 0 then (buf ++ data).drop consumed else buf ++ data)

namespace RpcClientHandler

def onData (recvBuf data : List UInt8) : List Frame × List UInt8 := receiveFrames recvBuf data

/-- The frames that successive calls hand over, each with the offset in the
    stream of the connection, and the buffer in the end. The buffer begins at
    `start`. -/
def handled (start : ℕ) (recvBuf : List UInt8) :
    List (List UInt8) → List (ℕ × Frame) × List UInt8
  | [] => ([], recvBuf)
  | data :: chunks =>
    let p := onData recvBuf data
    let q := handled (start + ((recvBuf ++ data).length - p.2.length)) p.2 chunks
    (reader.located start p.1 ++ q.1, q.2)

end RpcClientHandler

/-- The buffers of the connections. -/
structure RpcServerHandler where
  connBuffers : UInt64 → Option (List UInt8)

namespace RpcServerHandler

def buffer (s : RpcServerHandler) (connId : UInt64) : List UInt8 := (s.connBuffers connId).getD []

def onConnect (s : RpcServerHandler) (connId : UInt64) : RpcServerHandler :=
  ⟨Function.update s.connBuffers connId (some [])⟩

def onData (s : RpcServerHandler) (connId : UInt64) (data : List UInt8) :
    List Frame × RpcServerHandler :=
  let p := receiveFrames (s.buffer connId) data
  (p.1, ⟨Function.update s.connBuffers connId (some p.2)⟩)

def onDisconnect (s : RpcServerHandler) (connId : UInt64) : RpcServerHandler :=
  ⟨Function.update s.connBuffers connId none⟩

/-- The frames of one connection that successive calls for any connections hand
    over, each with the offset in the stream of its connection, and the handler
    in the end. -/
def handled (connId : UInt64) (start : ℕ) (s : RpcServerHandler) :
    List (UInt64 × List UInt8) → List (ℕ × Frame) × RpcServerHandler
  | [] => ([], s)
  | (id, data) :: calls =>
    let p := s.onData id data
    if id = connId then
      let q := handled connId
        (start + ((s.buffer connId ++ data).length - (p.2.buffer connId).length)) p.2 calls
      (reader.located start p.1 ++ q.1, q.2)
    else handled connId start p.2 calls

end RpcServerHandler

/-- The data of the calls for one connection. -/
def chunksOf (connId : UInt64) (calls : List (UInt64 × List UInt8)) : List (List UInt8) :=
  (calls.filter fun call => call.1 = connId).map Prod.snd

/-- The chunks of one new connection have been fed in order to `on_data` of the
    client, or to `on_data` of the server among calls for other connections; the
    frames handed over are `frames` (with their offsets) and `buffer` is left. -/
inductive Received (chunks : List (List UInt8)) : List (ℕ × Frame) → List UInt8 → Prop
  | client : Received chunks (RpcClientHandler.handled 0 [] chunks).1
      (RpcClientHandler.handled 0 [] chunks).2
  | server (s : RpcServerHandler) (connId : UInt64) (calls : List (UInt64 × List UInt8)) :
      s.buffer connId = [] → chunksOf connId calls = chunks →
      Received chunks (s.handled connId 0 calls).1 ((s.handled connId 0 calls).2.buffer connId)

/-! ## `on_data` is a receiver of frames -/

theorem receiveFrames_eq (buf data : List UInt8) : receiveFrames buf data = reader.receive buf data := by
  rcases parseFrames_spec (buf ++ data) with ⟨fs, rest, hparse, hframes, hdrop⟩ | ⟨hparse, e, hframes⟩
  · rw [receiveFrames, hframes, Framing.Reader.receive, hparse]
    simp only
    split
    · rw [hdrop]
    · rename_i hconsumed
      have hzero : (buf ++ data).length - rest.length = 0 := by omega
      rw [hzero, List.drop_zero] at hdrop
      rw [hdrop]
  · rw [receiveFrames, hframes, Framing.Reader.receive, hparse]

theorem RpcClientHandler.handled_eq (start : ℕ) (recvBuf : List UInt8) (chunks : List (List UInt8)) :
    RpcClientHandler.handled start recvBuf chunks =
      (reader.deliver start recvBuf chunks, (reader.feed recvBuf chunks).2) := by
  induction chunks generalizing start recvBuf with
  | nil => rfl
  | cons data chunks ih =>
    rw [RpcClientHandler.handled, RpcClientHandler.onData, receiveFrames_eq,
      Framing.Reader.deliver_cons, Framing.Reader.feed]
    simp only [ih]

namespace RpcServerHandler

theorem frames_onData (s : RpcServerHandler) (connId : UInt64) (data : List UInt8) :
    (s.onData connId data).1 = (reader.receive (s.buffer connId) data).1 := by
  rw [onData, receiveFrames_eq]

theorem buffer_onData_self (s : RpcServerHandler) (connId : UInt64) (data : List UInt8) :
    (s.onData connId data).2.buffer connId = (reader.receive (s.buffer connId) data).2 := by
  simp only [onData, receiveFrames_eq]
  simp [buffer]

/-- A call leaves the buffers of all other connections alone. -/
theorem buffer_onData_of_ne {s : RpcServerHandler} {id connId : UInt64} (h : id ≠ connId)
    (data : List UInt8) : (s.onData id data).2.buffer connId = s.buffer connId := by
  simp [onData, buffer, Function.update_of_ne h.symm]

theorem handled_eq (connId : UInt64) (start : ℕ) (s : RpcServerHandler)
    (calls : List (UInt64 × List UInt8)) :
    (s.handled connId start calls).1 =
        reader.deliver start (s.buffer connId) (chunksOf connId calls) ∧
      (s.handled connId start calls).2.buffer connId =
        (reader.feed (s.buffer connId) (chunksOf connId calls)).2 := by
  induction calls generalizing start s with
  | nil => exact ⟨rfl, rfl⟩
  | cons call calls ih =>
    obtain ⟨id, data⟩ := call
    by_cases hid : id = connId
    · subst hid
      have hchunks : chunksOf id ((id, data) :: calls) = data :: chunksOf id calls := by
        simp [chunksOf]
      rw [hchunks, handled, if_pos rfl, Framing.Reader.deliver_cons, Framing.Reader.feed]
      simp only [ih, buffer_onData_self, frames_onData, and_self]
    · have hchunks : chunksOf connId ((id, data) :: calls) = chunksOf connId calls := by
        simp [chunksOf, hid]
      rw [hchunks, handled, if_neg hid, ← buffer_onData_of_ne hid data]
      exact ih start _

end RpcServerHandler

theorem Received.eq {chunks : List (List UInt8)} {handled : List (ℕ × Frame)} {buffer : List UInt8}
    (h : Received chunks handled buffer) :
    handled = reader.deliver 0 [] chunks ∧ buffer = (reader.feed [] chunks).2 := by
  cases h with
  | client => simp [RpcClientHandler.handled_eq]
  | server s connId calls hempty hchunks =>
    obtain ⟨hframes, hbuffer⟩ := s.handled_eq connId 0 calls
    rw [hempty, hchunks] at hframes hbuffer
    exact ⟨hframes, hbuffer⟩
