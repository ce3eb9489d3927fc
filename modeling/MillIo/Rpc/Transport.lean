-- SUMMARY: An RPC client and the RPC server over one connection: both byte streams, cut into chunks anywhere, and the callers.
import MillIo.Rpc.Dispatch
import MillIo.Rpc.Receive
import MillIo.Rpc.Wakeup

/-!
# The RPC transport

The client's calls are those of `RpcClient`. What the client has written reaches
`on_data` of the server in chunks, and what the server has written reaches
`on_data` of the client. Chunks of the connection come one at a time: the next one
only when the frames of the last one have been handled. Other connections of the
server go on in between.
-/

open Interleaving Protocol

/-- The id of the connection, the registered services, and `bincode` at `RpcError`. -/
structure Setup where
  connId : UInt64
  services : UInt16 → Bool
  serialize : RpcError → Option (List UInt8)
  deserialize : List UInt8 → Option RpcError

/-- Both ends of the connection. Of the bytes in `client.sent` the server has been
    given `received`, and of its own `replies` the client has been given `returned`.
    The frames in `requests` and `responses` have been read and are still to be
    handled. The last three fields record the calls that were made, the requests
    that were sent and those that were dispatched. -/
structure Transport where
  client : RpcClient
  server : RpcServerHandler
  received : ℕ
  requests : List Frame
  replies : List UInt8
  returned : ℕ
  recvBuf : List UInt8
  responses : List Frame
  made : List Invocation
  sent : List Invocation
  dispatched : List Dispatch

/-- What happens on another connection of the server. -/
inductive ConnectionEvent
  | connect
  | data (bytes : List UInt8)
  | disconnect

def RpcServerHandler.onEvent (s : RpcServerHandler) (connId : UInt64) :
    ConnectionEvent → RpcServerHandler
  | .connect => s.onConnect connId
  | .data bytes => (s.onData connId bytes).2
  | .disconnect => s.onDisconnect connId

namespace RpcClient

def Request.invocation (r : Request) (requestId : UInt64) (oneWay : Bool) : Invocation :=
  ⟨requestId, r.serviceId, r.methodId, r.payload, oneWay⟩

/-- The request that a call has still to send. -/
def Call.unsent : Call → Option Invocation
  | registering id request => some (request.invocation id false)
  | sending id request _ => some (request.invocation id false)
  | oneWay id request => some (request.invocation id true)
  | _ => none

def Call.isOneWay : Call → Bool
  | oneWay _ _ => true
  | oneWayReturned _ _ => true
  | _ => false

/-- The request that a step sends. -/
def Call.sends (t : Call) : Choice → List Invocation
  | .sent => t.unsent.toList
  | _ => []

end RpcClient

namespace Transport

/-- What is not a step of a call in progress. -/
inductive Input
  | call (request : RpcClient.Request)
  | callOneway (request : RpcClient.Request)
  | setTimeout (millis : UInt64)
  /-- `on_data` of the server with the next bytes. -/
  | serverData (n : ℕ)
  /-- `handle_frame` of the server; the dispatcher, if it is called, returns `answer`. -/
  | serverFrame (answer : Except RpcError (List UInt8))
  /-- `on_data` of the client with the next bytes. -/
  | clientData (n : ℕ)
  /-- `handle_frame` of the client. -/
  | clientFrame
  | other (connId : UInt64) (event : ConnectionEvent)

/-! ## Steps -/

/-- A call begins and draws its id. -/
def invoke (x : Transport) (request : RpcClient.Request) (oneWay : Bool) : Transport :=
  { x with
    client := { x.client with nextRequestId := x.client.nextRequestId + 1 }
    made := x.made ++ [request.invocation x.client.nextRequestId oneWay] }

def serverData (p : Setup) (x : Transport) (n : ℕ) : Transport :=
  let r := x.server.onData p.connId ((x.client.sent.drop x.received).take n)
  { x with server := r.2, requests := r.1, received := x.received + n }

/-- The server handles the frame `f`, and the frames `fs` after it are left. -/
def serverFrame (p : Setup) (x : Transport) (f : Frame) (fs : List Frame)
    (answer : Except RpcError (List UInt8)) : Transport :=
  let r := RpcServerHandler.handleFrame p.services p.serialize f answer
  { x with
    requests := fs
    dispatched := x.dispatched ++ r.1.toList
    replies := x.replies ++ (r.2.map Frame.encode).getD [] }

def clientData (x : Transport) (n : ℕ) : Transport :=
  let r := RpcClientHandler.onData x.recvBuf ((x.replies.drop x.returned).take n)
  { x with recvBuf := r.2, responses := r.1, returned := x.returned + n }

/-- The client handles the frame `f`, and the frames `fs` after it are left. -/
def clientFrame (p : Setup) (x : Transport) (f : Frame) (fs : List Frame) : Transport :=
  { x with
    client := (x.client.enter p.deserialize (.frame f)).1
    responses := fs }

def env (p : Setup) (x : Transport) : Input → Option (Transport × List RpcClient.Call)
  | .call request => some (x.invoke request false, [.registering x.client.nextRequestId request])
  | .callOneway request => some (x.invoke request true, [.oneWay x.client.nextRequestId request])
  | .setTimeout millis => some ({ x with client := { x.client with timeout := millis } }, [])
  | .serverData n =>
    if x.requests = [] ∧ 0 < n ∧ x.received + n ≤ x.client.sent.length then
      some (x.serverData p n, [])
    else none
  | .serverFrame answer =>
    match x.requests with
    | [] => none
    | f :: fs => some (x.serverFrame p f fs answer, [])
  | .clientData n =>
    if x.responses = [] ∧ 0 < n ∧ x.returned + n ≤ x.replies.length then
      some (x.clientData n, [])
    else none
  | .clientFrame =>
    match x.responses with
    | [] => none
    | f :: fs => some (x.clientFrame p f fs, [])
  | .other connId event =>
    if connId ≠ p.connId then some ({ x with server := x.server.onEvent connId event }, [])
    else none

def act (x : Transport) (t : RpcClient.Call) (o : RpcClient.Choice) :
    Option (Transport × RpcClient.Call) :=
  (x.client.proceed t o).map fun r => ({ x with client := r.1, sent := x.sent ++ t.sends o }, r.2)

def system (p : Setup) : Machine Transport RpcClient.Call Input RpcClient.Choice where
  env := env p
  act := act

abbrev State := Config Transport RpcClient.Call

abbrev Step := Action Input RpcClient.Choice

/-- A client that has just connected to a server, which has run `on_connect`. -/
def initial (p : Setup) (server : RpcServerHandler) : State where
  shared :=
    { client := RpcClient.initial.shared, server := server.onConnect p.connId
      received := 0, requests := [], replies := [], returned := 0, recvBuf := [], responses := []
      made := [], sent := [], dispatched := [] }
  threads := []

/-- The channel takes all that is written, the payloads fit, and no timeout expires. -/
def Lossless (p : Setup) (s : State) : Step → Prop
  | .env (.call request) => (request.invocation s.shared.client.nextRequestId false).Fits
  | .env (.callOneway request) => (request.invocation s.shared.client.nextRequestId true).Fits
  | .env (.serverFrame answer) =>
    ∀ f ∈ s.shared.requests.head?,
      ∀ g ∈ (RpcServerHandler.handleFrame p.services p.serialize f answer).2,
        g.payload.length ≤ maxPayloadSize.toNat
  | .env _ => True
  | .act _ (.notSent _ _) => False
  | .act _ (.lock expired) => expired = false
  | .act _ (.wake timedOut expired) => timedOut = false ∧ expired = false
  | .act _ _ => True

instance (p : Setup) : DecidableRel (Lossless p)
  | _, .env (.call _) => inferInstanceAs (Decidable (Invocation.Fits _))
  | _, .env (.callOneway _) => inferInstanceAs (Decidable (Invocation.Fits _))
  | s, .env (.serverFrame answer) =>
    inferInstanceAs (Decidable (∀ f ∈ s.shared.requests.head?,
      ∀ g ∈ (RpcServerHandler.handleFrame p.services p.serialize f answer).2,
        g.payload.length ≤ maxPayloadSize.toNat))
  | _, .env (.setTimeout _) => .isTrue trivial
  | _, .env (.serverData _) => .isTrue trivial
  | _, .env (.clientData _) => .isTrue trivial
  | _, .env .clientFrame => .isTrue trivial
  | _, .env (.other _ _) => .isTrue trivial
  | _, .act _ (.notSent _ _) => .isFalse fun h => h
  | _, .act _ (.lock expired) => inferInstanceAs (Decidable (expired = false))
  | _, .act _ (.wake timedOut expired) =>
    inferInstanceAs (Decidable (timedOut = false ∧ expired = false))
  | _, .act _ .go => .isTrue trivial
  | _, .act _ .sent => .isTrue trivial

/-- A step that takes a call, a request or a reply further, and not one that brings
    in something new. -/
def Internal : Step → Prop
  | .env (.serverData _) => True
  | .env (.serverFrame _) => True
  | .env (.clientData _) => True
  | .env .clientFrame => True
  | .env _ => False
  | .act _ _ => True

/-- A call wakes up from its wait when `handle_frame` has stored its reply, and so has
    notified it (`RpcClient.notified_of_stored`). -/
def Notified (s : State) : Step → Prop
  | .act i (.wake _ _) => RpcClient.replyStored ⟨s.shared.client, s.threads⟩ i = true
  | _ => True

/-- The transport can go on from `s` to `u`. A wait that ends early is not going on. -/
def Advances (p : Setup) (s u : State) : Prop :=
  ∃ a, Internal a ∧ Notified s a ∧ Lossless p s a ∧ (system p).step s a = some u ∧ u ≠ s

/-! ## What a step can do -/

inductive Enters (p : Setup) (x : Transport) : Input → Transport → List RpcClient.Call → Prop
  | call (request : RpcClient.Request) :
      Enters p x (.call request) (x.invoke request false)
        [.registering x.client.nextRequestId request]
  | callOneway (request : RpcClient.Request) :
      Enters p x (.callOneway request) (x.invoke request true)
        [.oneWay x.client.nextRequestId request]
  | setTimeout (millis : UInt64) :
      Enters p x (.setTimeout millis) { x with client := { x.client with timeout := millis } } []
  | serverData (n : ℕ) : x.requests = [] → 0 < n → x.received + n ≤ x.client.sent.length →
      Enters p x (.serverData n) (x.serverData p n) []
  | serverFrame (f : Frame) (fs : List Frame) (answer : Except RpcError (List UInt8)) :
      x.requests = f :: fs → Enters p x (.serverFrame answer) (x.serverFrame p f fs answer) []
  | clientData (n : ℕ) : x.responses = [] → 0 < n → x.returned + n ≤ x.replies.length →
      Enters p x (.clientData n) (x.clientData n) []
  | clientFrame (f : Frame) (fs : List Frame) :
      x.responses = f :: fs → Enters p x .clientFrame (x.clientFrame p f fs) []
  | other (connId : UInt64) (event : ConnectionEvent) : connId ≠ p.connId →
      Enters p x (.other connId event) { x with server := x.server.onEvent connId event } []

variable {p : Setup} {s u : State} {a : Step} {x : Transport}

theorem enters_of_env {e : Input} {r : Transport × List RpcClient.Call}
    (h : env p x e = some r) : Enters p x e r.1 r.2 := by
  unfold env at h
  split at h
  · cases h
    exact .call _
  · cases h
    exact .callOneway _
  · cases h
    exact .setTimeout _
  · split at h
    · rename_i hn
      cases h
      exact .serverData _ hn.1 hn.2.1 hn.2.2
    · cases h
  · split at h
    · cases h
    · rename_i hrequests
      cases h
      exact .serverFrame _ _ _ hrequests
  · split at h
    · rename_i hn
      cases h
      exact .clientData _ hn.1 hn.2.1 hn.2.2
    · cases h
  · split at h
    · cases h
    · rename_i hresponses
      cases h
      exact .clientFrame _ _ hresponses
  · split at h
    · rename_i hid
      cases h
      exact .other _ _ hid
    · cases h

theorem env_of_enters {e : Input} {y : Transport} {ts : List RpcClient.Call}
    (h : Enters p x e y ts) : env p x e = some (y, ts) := by
  cases h with
  | call request => rfl
  | callOneway request => rfl
  | setTimeout millis => rfl
  | serverData n hempty hpos hle => exact if_pos ⟨hempty, hpos, hle⟩
  | serverFrame f fs answer hrequests => simp only [env, hrequests]
  | clientData n hempty hpos hle => exact if_pos ⟨hempty, hpos, hle⟩
  | clientFrame f fs hresponses => simp only [env, hresponses]
  | other connId event hid => exact if_pos hid

/-- All that a step can do: one of the inputs comes, or one call goes on. -/
theorem step_cases (h : (system p).step s a = some u) :
    (∃ e y ts, a = .env e ∧ Enters p s.shared e y ts ∧ u = ⟨y, s.threads ++ ts⟩) ∨
    (∃ o c' t t', ∃ l l' : List RpcClient.Call, a = .act l.length o ∧ s.threads = l ++ t :: l' ∧
      s.shared.client.proceed t o = some (c', t') ∧
      u = ⟨{ s.shared with client := c', sent := s.shared.sent ++ t.sends o }, l ++ t' :: l'⟩) := by
  rcases Machine.step_cases h with ⟨e, r, rfl, hr, rfl⟩ | ⟨o, t, r, l, l', rfl, hts, hr, rfl⟩
  · exact .inl ⟨e, r.1, r.2, rfl, enters_of_env hr, rfl⟩
  · obtain ⟨⟨c', t'⟩, hact, rfl⟩ := Option.map_eq_some_iff.1 hr
    exact .inr ⟨o, c', t, t', l, l', rfl, hts, hact, rfl⟩

/-! ## The client's part -/

/-- The state of the client and its calls. -/
def clientPart (s : State) : RpcClient.State := ⟨s.shared.client, s.threads⟩

/-- To the client every step is one of its own or none. -/
theorem clientPart_step (h : (system p).step s a = some u) :
    clientPart u = clientPart s ∨
      ∃ b, (RpcClient.system p.deserialize).step (clientPart s) b = some (clientPart u) := by
  have hinput : ∀ e, (RpcClient.system p.deserialize).step (clientPart s) (.env e) =
      some ⟨(s.shared.client.enter p.deserialize e).1,
        s.threads ++ (s.shared.client.enter p.deserialize e).2⟩ := fun e => rfl
  rcases step_cases h with ⟨e, y, ts, rfl, he, rfl⟩ | ⟨o, c', t, t', l, l', rfl, hts, hact, rfl⟩
  · cases he with
    | call request => exact .inr ⟨_, hinput (.call request)⟩
    | callOneway request => exact .inr ⟨_, hinput (.callOneway request)⟩
    | setTimeout millis => exact .inr ⟨_, hinput (.setTimeout millis)⟩
    | clientFrame f fs _ => exact .inr ⟨_, hinput (.frame f)⟩
    | _ => exact .inl (by simp [clientPart, Transport.serverData, Transport.serverFrame,
        Transport.clientData])
  · exact .inr ⟨_, Machine.step_act_at (m := RpcClient.system p.deserialize) (s := clientPart s) hts hact⟩

theorem run_clientPart {ok : State → Step → Prop} {server : RpcServerHandler} {as : List Step}
    (h : Run (system p).step ok (initial p server) as s) :
    ∃ bs, Run (RpcClient.system p.deserialize).step Unrestricted RpcClient.initial bs
      (clientPart s) := by
  induction h with
  | refl => exact ⟨[], .refl⟩
  | snoc _ _ hs ih =>
    obtain ⟨bs, hbs⟩ := ih
    rcases clientPart_step hs with heq | ⟨b, hb⟩
    · rw [heq]
      exact ⟨bs, hbs⟩
    · exact ⟨bs ++ [b], hbs.snoc trivial hb⟩

end Transport
