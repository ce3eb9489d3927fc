-- SUMMARY: The buffers that connection handlers of the TCP server read into: their length does not depend on the configured one.
import MillIo.ObjectPool.Pool

/-!
# Read buffers

`TcpServer::new` makes a pool of 20 buffers of the configured size, and every call of
`handle_read` acquires one of the pool's buffers, reads into it once and drops it. Of
`handle_read` only the use of the buffer is modelled: it ends after a read of nothing
and after any error, and after `on_data` otherwise.
-/

namespace ObjectPool

open Interleaving

/-- The pool of `TcpServer::new`. -/
def bufferPool (bufferSize : ℕ) : Pool (List UInt8) where
  createFn := fun _ => List.replicate bufferSize 0
  reset := resetVec

inductive HandleRead
  /-- About to read from the stream. -/
  | reading
  /-- In `on_data` with the first `n` bytes of the buffer. -/
  | calling (n : ℕ)
  | returned
  deriving DecidableEq

inductive Outcome
  /-- The read returns `Ok` with these bytes. -/
  | ok (data : List UInt8)
  /-- The read would block, or fails. -/
  | err
  /-- `on_data` has returned or panicked. -/
  | handled
  deriving DecidableEq

/-- A read is given the whole buffer and fills it from its start. -/
def HandleRead.use : HandleRead → List UInt8 → Outcome → Option (HandleRead × List UInt8)
  | reading, buffer, .ok data =>
    if data.length ≤ buffer.length then
      some (if data.isEmpty then returned else calling data.length,
        data ++ buffer.drop data.length)
    else none
  | reading, buffer, .err => some (returned, buffer)
  | calling _, buffer, .handled => some (returned, buffer)
  | _, _, _ => none

def handleRead : Holder (List UInt8) HandleRead Outcome where
  start := .reading
  use := HandleRead.use
  finished := fun state => state = .returned

def TcpServer.system (bufferSize : ℕ) :
    Machine (Shared (List UInt8)) (PooledObject (List UInt8) HandleRead) Invocation
      (Choice Outcome) :=
  ObjectPool.system (bufferPool bufferSize) handleRead

def TcpServer.initial (bufferSize : ℕ) : State (List UInt8) HandleRead :=
  ObjectPool.initial (bufferPool bufferSize) 20

/-- A read into the buffer can return any number of bytes up to `n`, and no more. -/
def ReadsUpTo (bufferSize : ℕ) (s : State (List UInt8) HandleRead) (j n : ℕ) : Prop :=
  ∀ data, ((TcpServer.system bufferSize).step s (.act j (.use (.ok data)))).isSome ↔
    data.length ≤ n

section ReadBuffer

variable {b : ℕ} {as : List (Step Outcome)} {s : State (List UInt8) HandleRead}

/-- No use of a buffer in `handle_read` changes its length. -/
theorem HandleRead.length_use {state state' : HandleRead} {v v' : List UInt8} {c : Outcome}
    (h : state.use v c = some (state', v')) : v'.length = v.length := by
  unfold HandleRead.use at h
  split at h
  · split at h
    · rename_i data hle
      cases h
      simp only [List.length_append, List.length_drop]
      omega
    · cases h
  · cases h
    rfl
  · cases h
    rfl
  · cases h

/-- Whatever the configured size, a buffer is as long as `acquire` makes it. -/
theorem length_of_held
    (h : Run (TcpServer.system b).step Unrestricted (TcpServer.initial b) as s)
    {state : HandleRead} {buffer : Object (List UInt8)}
    (ht : .holding state buffer ∈ s.threads) : buffer.value.length = ioBufferSize :=
  held_of_run (P := fun v => v.length = ioBufferSize) length_resetVec
    (fun _ _ _ _ _ huse hlen => (HandleRead.length_use huse).trans hlen) h _ ht _ _ rfl

theorem readsUpTo_length {j : ℕ} {buffer : Object (List UInt8)}
    (ht : s.threads[j]? = some (.holding .reading buffer)) :
    ReadsUpTo b s j buffer.value.length := by
  intro data
  simp only [TcpServer.system, system, Machine.step, ht, Option.bind_some, proceed, handleRead,
    HandleRead.use]
  split
  · rename_i hle
    simp [hle]
  · rename_i hgt
    simp [hgt]

/-- In every history the buffer that a handler is about to read into honours the
    configured size exactly when that is the pool's own. -/
theorem buffer_size_honoured_iff
    (h : Run (TcpServer.system b).step Unrestricted (TcpServer.initial b) as s) {j : ℕ}
    {buffer : Object (List UInt8)} (ht : s.threads[j]? = some (.holding .reading buffer)) :
    (buffer.value.length = b ∧ ReadsUpTo b s j b) ↔ b = ioBufferSize := by
  have hlen := length_of_held h (List.mem_of_getElem? ht)
  constructor
  · rintro ⟨heq, -⟩
    exact heq.symm.trans hlen
  · rintro rfl
    have hreads := readsUpTo_length (b := ioBufferSize) ht
    rw [hlen] at hreads
    exact ⟨hlen, hreads⟩

/-- The default configuration. -/
theorem buffer_size_honoured_default : ∃ s, ∃ buffer : Object (List UInt8),
    Run (TcpServer.system 8192).step Unrestricted (TcpServer.initial 8192)
      [.env .acquire, .act 0 .go, .act 0 .go] s ∧
    s.threads[0]? = some (.holding .reading buffer) ∧ ReadsUpTo 8192 s 0 8192 := by
  obtain ⟨s, buffer, hrun, ht⟩ : ∃ s, ∃ buffer : Object (List UInt8),
      Run (TcpServer.system 8192).step Unrestricted (TcpServer.initial 8192)
        [.env .acquire, .act 0 .go, .act 0 .go] s ∧
      s.threads[0]? = some (.holding .reading buffer) := ⟨_, _, .of_isSome rfl, rfl⟩
  exact ⟨s, buffer, hrun, ht, ((buffer_size_honoured_iff hrun ht).2 rfl).2⟩

/-- With a configured size of one byte a read returns two. -/
theorem buffer_size_exceeded : ∃ s, ∃ buffer : Object (List UInt8),
    Run (TcpServer.system 1).step Unrestricted (TcpServer.initial 1)
      [.env .acquire, .act 0 .go, .act 0 .go] s ∧
    s.threads[0]? = some (.holding .reading buffer) ∧ buffer.value.length ≠ 1 ∧
    ((TcpServer.system 1).step s (.act 0 (.use (.ok [1, 2])))).isSome := by
  obtain ⟨s, buffer, hrun, ht⟩ : ∃ s, ∃ buffer : Object (List UInt8),
      Run (TcpServer.system 1).step Unrestricted (TcpServer.initial 1)
        [.env .acquire, .act 0 .go, .act 0 .go] s ∧
      s.threads[0]? = some (.holding .reading buffer) := ⟨_, _, .of_isSome rfl, rfl⟩
  have hlen := length_of_held hrun (List.mem_of_getElem? ht)
  refine ⟨s, buffer, hrun, ht, by rw [hlen]; decide, (readsUpTo_length ht [1, 2]).2 ?_⟩
  rw [hlen]
  decide

end ReadBuffer

end ObjectPool
