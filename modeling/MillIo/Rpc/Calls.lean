-- SUMMARY: The RPC client of `mill-rpc/src/client.rs`: callers in `call_raw` and replies in `handle_frame`, interleaved at the pending lock.
import MillIo.Rpc.Protocol
import MillIo.Interleaving.Machine
import Mathlib.Logic.Function.Basic

/-!
# Calls of the RPC client

A thread is one `call_raw` or `call_oneway` in progress. Its steps are what it
does under one acquisition of the `pending` lock, and the sending of its frame.
`wait_timeout` gives the lock up and takes it again, whether or not it reports a
timeout. How a send ends, and what the clock shows, is left open. Frames come from
the peer in any order, and `handle_frame` has one critical section.
-/

open Protocol

/-- Pending request waiting for a response. -/
structure PendingRequest where
  completed : Bool
  result : Option (Except RpcError (List UInt8))
  deriving DecidableEq

/-- `RpcClient` with its `ClientShared`. Its `TcpClient` has a stream or not, and
    has written the bytes `sent` so far. The frames `arrived` have reached
    `handle_frame` so far. -/
structure RpcClient where
  pending : UInt64 → Option PendingRequest
  nextRequestId : UInt64
  timeout : UInt64
  connected : Bool
  sent : List UInt8
  arrived : List Frame

namespace RpcClient

open Interleaving

/-- Why a call ends. -/
inductive Outcome
  | completed (result : Except RpcError (List UInt8))
  | sendFailed (error : String)
  | disappeared
  | deadlineExceeded (timeout : UInt64)
  /-- `unwrap` of a result that is not there. -/
  | panicked
  deriving DecidableEq

/-- What the caller gets, if the call does not panic. -/
def Outcome.result (requestId : UInt64) : Outcome → Option (Except RpcError (List UInt8))
  | completed result => some result
  | sendFailed error => some (.error (RpcError.unavailable s!"Send failed: {error}"))
  | disappeared => some (.error (RpcError.internal "Pending request disappeared"))
  | deadlineExceeded timeout =>
    some (.error (RpcError.deadlineExceeded s!"Request {requestId} timed out after {timeout}"))
  | panicked => none

structure Request where
  serviceId : UInt16
  methodId : UInt16
  payload : List UInt8
  deriving DecidableEq

def Request.frame (r : Request) (requestId : UInt64) (oneWay : Bool) : Frame :=
  Frame.request requestId r.serviceId r.methodId r.payload oneWay

/-- A call by what it has still to do. `since` is the number of frames that had
    arrived when the call registered, and `found` the entry of the call when it
    took the lock for the last time. -/
inductive Call
  /-- Has drawn its id. -/
  | registering (id : UInt64) (request : Request)
  | sending (id : UInt64) (request : Request) (since : ℕ)
  /-- About to take the lock after a send that failed. -/
  | failed (id : UInt64) (since : ℕ) (error : String)
  /-- About to take the lock for the loop. -/
  | locking (id : UInt64) (since : ℕ)
  /-- In `wait_timeout`. -/
  | waiting (id : UInt64) (since : ℕ)
  | returned (id : UInt64) (since : ℕ) (outcome : Outcome) (found : Option PendingRequest)
  /-- A one-way call that has drawn its id. -/
  | oneWay (id : UInt64) (request : Request)
  | oneWayReturned (id : UInt64) (result : Except RpcError Unit)
  deriving DecidableEq

/-- What is left open in the steps of a call. -/
inductive Choice
  | go
  | sent
  /-- The send reports an error when the socket has taken some of the bytes. -/
  | notSent (error : String) (written : ℕ)
  /-- The lock is taken; the deadline has passed or not. -/
  | lock (expired : Bool)
  /-- The lock is taken again; the wait reports a timeout or not. -/
  | wake (timedOut expired : Bool)
  deriving DecidableEq

/-- What comes from outside of the calls in progress. -/
inductive Input
  | call (request : Request)
  | callOneway (request : Request)
  | setTimeout (millis : UInt64)
  /-- The stream of the `TcpClient` is dropped. -/
  | disconnect
  | frame (f : Frame)

/-! ## The critical sections -/

def register (c : RpcClient) (id : UInt64) : RpcClient :=
  { c with pending := Function.update c.pending id (some ⟨false, none⟩) }

def remove (c : RpcClient) (id : UInt64) : RpcClient :=
  { c with pending := Function.update c.pending id none }

/-- The bytes that the socket takes of a send. Without a stream nothing is sent. -/
def send (c : RpcClient) (bytes : List UInt8) : RpcClient :=
  if c.connected then { c with sent := c.sent ++ bytes } else c

/-- One turn of the loop of `call_raw`, up to its return or its wait. -/
def check (c : RpcClient) (id : UInt64) (expired : Bool) : RpcClient × Option Outcome :=
  match c.pending id with
  | none => (c, some .disappeared)
  | some req =>
    if req.completed then
      (c.remove id, some (req.result.elim .panicked .completed))
    else if expired then (c.remove id, some (.deadlineExceeded c.timeout))
    else (c, none)

/-- The rest of the loop after the wait. -/
def wakeUp (c : RpcClient) (id : UInt64) (timedOut expired : Bool) : RpcClient × Option Outcome :=
  if timedOut then (c.remove id, some (.deadlineExceeded c.timeout)) else c.check id expired

/-- Where a turn of the loop leaves the call. -/
def afterTurn (c : RpcClient) (id : UInt64) (since : ℕ) (r : RpcClient × Option Outcome) :
    RpcClient × Call :=
  match r.2 with
  | some outcome => (r.1, .returned id since outcome (c.pending id))
  | none => (r.1, .waiting id since)

/-- The reply is stored if the request is pending. -/
def complete (c : RpcClient) (id : UInt64) (result : Except RpcError (List UInt8)) : RpcClient :=
  match c.pending id with
  | some _ => { c with pending := Function.update c.pending id (some ⟨true, some result⟩) }
  | none => c

section

-- `bincode::deserialize` at `RpcError`.
variable (deserialize : List UInt8 → Option RpcError)

def readError (errData : List UInt8) : RpcError :=
  (deserialize errData).getD (RpcError.internal (fromUtf8Lossy errData))

/-- The reply that a frame carries: the request and its result. Frames of the other
    types, and replies whose payload is too short, carry none. -/
def replyOf (f : Frame) : Option (UInt64 × Except RpcError (List UInt8)) :=
  match f.header.messageType, f.parseResponsePayload with
  | .response, .ok (id, data) => some (id, .ok data)
  | .error, .ok (id, errData) => some (id, .error (readError deserialize errData))
  | _, _ => none

def handleFrame (c : RpcClient) (f : Frame) : RpcClient :=
  match replyOf deserialize f with
  | some (id, result) => c.complete id result
  | none => c

/-! ## The system -/

def enter (c : RpcClient) : Input → RpcClient × List Call
  | .call request =>
    ({ c with nextRequestId := c.nextRequestId + 1 }, [.registering c.nextRequestId request])
  | .callOneway request =>
    ({ c with nextRequestId := c.nextRequestId + 1 }, [.oneWay c.nextRequestId request])
  | .setTimeout millis => ({ c with timeout := millis }, [])
  | .disconnect => ({ c with connected := false }, [])
  | .frame f => ({ c.handleFrame deserialize f with arrived := c.arrived ++ [f] }, [])

def proceed (c : RpcClient) : Call → Choice → Option (RpcClient × Call)
  | .registering id request, .go => some (c.register id, .sending id request c.arrived.length)
  | .sending id request since, .sent =>
    some (c.send (request.frame id false).encode, .locking id since)
  | .sending id request since, .notSent error written =>
    some (c.send ((request.frame id false).encode.take written), .failed id since error)
  | .failed id since error, .go =>
    some (c.remove id, .returned id since (.sendFailed error) (c.pending id))
  | .locking id since, .lock expired => some (c.afterTurn id since (c.check id expired))
  | .waiting id since, .wake timedOut expired =>
    some (c.afterTurn id since (c.wakeUp id timedOut expired))
  | .oneWay id request, .sent =>
    some (c.send (request.frame id true).encode, .oneWayReturned id (.ok ()))
  | .oneWay id request, .notSent error written =>
    some (c.send ((request.frame id true).encode.take written),
      .oneWayReturned id (.error (RpcError.unavailable s!"Send failed: {error}")))
  | _, _ => none

def system : Machine RpcClient Call Input Choice where
  env c input := some (enter deserialize c input)
  act := proceed

end

abbrev State := Config RpcClient Call

abbrev Step := Action Input Choice

/-- A client that has just connected. -/
def initial : State := ⟨⟨fun _ => none, 1, 30 * 1000, true, [], []⟩, []⟩

/-! ## What a call can do -/

inductive Acts (c : RpcClient) : Call → RpcClient → Call → Prop
  | register (id : UInt64) (request : Request) :
      Acts c (.registering id request) (c.register id) (.sending id request c.arrived.length)
  | sent (id : UInt64) (request : Request) (since : ℕ) :
      Acts c (.sending id request since) (c.send (request.frame id false).encode)
        (.locking id since)
  | notSent (id : UInt64) (request : Request) (since : ℕ) (error : String) (written : ℕ) :
      Acts c (.sending id request since) (c.send ((request.frame id false).encode.take written))
        (.failed id since error)
  | fail (id : UInt64) (since : ℕ) (error : String) :
      Acts c (.failed id since error) (c.remove id)
        (.returned id since (.sendFailed error) (c.pending id))
  | lock (id : UInt64) (since : ℕ) (expired : Bool) :
      Acts c (.locking id since) (c.afterTurn id since (c.check id expired)).1
        (c.afterTurn id since (c.check id expired)).2
  | wake (id : UInt64) (since : ℕ) (timedOut expired : Bool) :
      Acts c (.waiting id since) (c.afterTurn id since (c.wakeUp id timedOut expired)).1
        (c.afterTurn id since (c.wakeUp id timedOut expired)).2
  | sentOneWay (id : UInt64) (request : Request) :
      Acts c (.oneWay id request) (c.send (request.frame id true).encode)
        (.oneWayReturned id (.ok ()))
  | notSentOneWay (id : UInt64) (request : Request) (error : String) (written : ℕ) :
      Acts c (.oneWay id request) (c.send ((request.frame id true).encode.take written))
        (.oneWayReturned id (.error (RpcError.unavailable s!"Send failed: {error}")))

theorem acts_of_proceed {c c' : RpcClient} {t t' : Call} {o : Choice}
    (h : proceed c t o = some (c', t')) : Acts c t c' t' := by
  unfold proceed at h
  split at h
  · cases h
    exact .register _ _
  · cases h
    exact .sent _ _ _
  · cases h
    exact .notSent _ _ _ _ _
  · cases h
    exact .fail _ _ _
  · obtain ⟨rfl, rfl⟩ := Prod.mk.inj (Option.some.inj h)
    exact .lock _ _ _
  · obtain ⟨rfl, rfl⟩ := Prod.mk.inj (Option.some.inj h)
    exact .wake _ _ _ _
  · cases h
    exact .sentOneWay _ _
  · cases h
    exact .notSentOneWay _ _ _ _
  · cases h

/-- What one turn of the loop does to the call: it goes on to wait and changes
    nothing, or it returns and its entry is gone. -/
inductive Turn (c : RpcClient) (id : UInt64) (since : ℕ) : RpcClient → Call → Prop
  | wait (req : PendingRequest) : c.pending id = some req → req.completed = false →
      Turn c id since c (.waiting id since)
  | disappeared : c.pending id = none →
      Turn c id since c (.returned id since .disappeared none)
  | completed (req : PendingRequest) : c.pending id = some req → req.completed = true →
      Turn c id since (c.remove id)
        (.returned id since (req.result.elim .panicked .completed) (some req))
  | deadline (found : Option PendingRequest) : c.pending id = found →
      Turn c id since (c.remove id) (.returned id since (.deadlineExceeded c.timeout) found)

theorem turn_check (c : RpcClient) (id : UInt64) (since : ℕ) (expired : Bool) :
    Turn c id since (c.afterTurn id since (c.check id expired)).1
      (c.afterTurn id since (c.check id expired)).2 := by
  cases hreq : c.pending id with
  | none =>
    simp only [check, afterTurn, hreq]
    exact .disappeared hreq
  | some req =>
    cases hdone : req.completed with
    | true =>
      simp only [check, afterTurn, hreq, hdone, if_true]
      exact .completed req hreq hdone
    | false =>
      cases expired with
      | true =>
        simp only [check, afterTurn, hreq, hdone, if_true, Bool.false_eq_true, if_false]
        exact .deadline _ hreq
      | false =>
        simp only [check, afterTurn, hreq, hdone, Bool.false_eq_true, if_false]
        exact .wait req hreq hdone

theorem turn_wakeUp (c : RpcClient) (id : UInt64) (since : ℕ) (timedOut expired : Bool) :
    Turn c id since (c.afterTurn id since (c.wakeUp id timedOut expired)).1
      (c.afterTurn id since (c.wakeUp id timedOut expired)).2 := by
  cases timedOut with
  | true => exact .deadline _ rfl
  | false => exact turn_check c id since expired

/-- All that a step can do: something comes from outside, or one call goes on. -/
theorem system_step_cases {deserialize : List UInt8 → Option RpcError} {s u : State} {a : Step}
    (h : (system deserialize).step s a = some u) :
    (∃ e, a = .env e ∧ u = ⟨(enter deserialize s.shared e).1,
      s.threads ++ (enter deserialize s.shared e).2⟩) ∨
    (∃ o c' t t', ∃ l l' : List Call, a = .act l.length o ∧ s.threads = l ++ t :: l' ∧
      proceed s.shared t o = some (c', t') ∧ u = ⟨c', l ++ t' :: l'⟩) := by
  rcases Machine.step_cases h with ⟨e, r, rfl, hr, rfl⟩ | ⟨o, t, ⟨c', t'⟩, l, l', rfl, hts, hr, rfl⟩
  · cases hr
    exact .inl ⟨e, rfl, rfl⟩
  · exact .inr ⟨o, c', t, t', l, l', rfl, hts, hr, rfl⟩

end RpcClient
