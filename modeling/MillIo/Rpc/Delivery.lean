-- SUMMARY: On a lossless channel, requests are dispatched and replies handled in the order they were sent, each once and unchanged.
import MillIo.Framing.Channel
import MillIo.Rpc.Matching
import MillIo.Rpc.Transport

/-!
# What is in transit

Each direction of the connection carries frames: the requests that were sent, of
which those that have been dispatched are taken, and the replies, of which those
that have arrived are taken. The calls that were made are the requests that were
sent and those that some call has still to send.
-/

open Interleaving Protocol

namespace RpcClient

variable {deserialize : List UInt8 → Option RpcError} {c c' : RpcClient} {t t' : Call} {o : Choice}

/-- A reply changes nothing but the entries. -/
theorem handleFrame_eq (c : RpcClient) (f : Frame) :
    ∃ pending, c.handleFrame deserialize f = { c with pending := pending } := by
  unfold handleFrame
  split
  · unfold complete
    split
    · exact ⟨_, rfl⟩
    · exact ⟨c.pending, rfl⟩
  · exact ⟨c.pending, rfl⟩

theorem Turn.client_eq {id : UInt64} {n : ℕ} (h : Turn c id n c' t') :
    ∃ pending, c' = { c with pending := pending } := by
  cases h with
  | wait => exact ⟨c.pending, rfl⟩
  | disappeared => exact ⟨c.pending, rfl⟩
  | completed => exact ⟨_, rfl⟩
  | deadline => exact ⟨_, rfl⟩

theorem Turn.unsent_eq {id : UInt64} {n : ℕ} (h : Turn c id n c' t') :
    t'.unsent = none ∧ t'.isOneWay = false := by
  cases h <;> exact ⟨rfl, rfl⟩

/-- A step that does not fail sends the whole request of the call, or sends nothing. -/
theorem sends_cases (hnot : ∀ error written, o ≠ .notSent error written)
    (h : c.proceed t o = some (c', t')) :
    (∃ i, t.unsent = some i ∧ t'.unsent = none ∧ t.sends o = [i] ∧ c' = c.send i.frame.encode) ∨
    (t'.unsent = t.unsent ∧ t.sends o = [] ∧
      ∃ pending, c' = { c with pending := pending }) := by
  unfold proceed at h
  split at h
  · cases h
    exact .inr ⟨rfl, rfl, _, rfl⟩
  · cases h
    exact .inl ⟨_, rfl, rfl, rfl, rfl⟩
  · exact absurd rfl (hnot _ _)
  · cases h
    exact .inr ⟨rfl, rfl, _, rfl⟩
  · rename_i id n expired
    obtain ⟨rfl, rfl⟩ := Prod.mk.inj (Option.some.inj h)
    have hturn := turn_check c id n expired
    exact .inr ⟨hturn.unsent_eq.1, rfl, hturn.client_eq⟩
  · rename_i id n timedOut expired
    obtain ⟨rfl, rfl⟩ := Prod.mk.inj (Option.some.inj h)
    have hturn := turn_wakeUp c id n timedOut expired
    exact .inr ⟨hturn.unsent_eq.1, rfl, hturn.client_eq⟩
  · cases h
    exact .inl ⟨_, rfl, rfl, rfl, rfl⟩
  · exact absurd rfl (hnot _ _)
  · cases h

theorem isOneWay_of_proceed (h : c.proceed t o = some (c', t')) : t'.isOneWay = t.isOneWay := by
  cases acts_of_proceed h with
  | lock id n expired => exact (turn_check c id n expired).unsent_eq.2
  | wake id n timedOut expired => exact (turn_wakeUp c id n timedOut expired).unsent_eq.2
  | _ => rfl

end RpcClient

namespace RpcServerHandler

@[simp] theorem buffer_onConnect_self (s : RpcServerHandler) (connId : UInt64) :
    (s.onConnect connId).buffer connId = [] := by
  simp [onConnect, buffer]

/-- Other connections leave the buffer alone. -/
theorem buffer_onEvent_of_ne {s : RpcServerHandler} {id connId : UInt64} (h : id ≠ connId)
    (event : ConnectionEvent) : (s.onEvent id event).buffer connId = s.buffer connId := by
  cases event with
  | connect => simp [onEvent, onConnect, buffer, Function.update_of_ne h.symm]
  | data bytes => exact buffer_onData_of_ne h bytes
  | disconnect => simp [onEvent, onDisconnect, buffer, Function.update_of_ne h.symm]

end RpcServerHandler

namespace Transport

variable {p : Setup} {s u : State} {a : Step} {x y : Transport}

/-! ## The two directions -/

structure Wired (p : Setup) (x : Transport) : Prop where
  connected : x.client.connected = true
  requests : reader.Carries (x.sent.map Invocation.frame)
    (x.dispatched.map fun d => d.toInvocation.frame) x.client.sent x.received
    (x.server.buffer p.connId) x.requests
  replies : reader.Carries (x.dispatched.filterMap (RpcServerHandler.responseFrame p.serialize))
    x.client.arrived x.replies x.returned x.recvBuf x.responses

namespace Wired

theorem serverData {n : ℕ} (h : Wired p x) (hempty : x.requests = [])
    (hle : x.received + n ≤ x.client.sent.length) : Wired p (x.serverData p n) := by
  have hreceive := h.requests
  rw [hempty] at hreceive
  replace hreceive := hreceive.receive hle
  rw [← RpcServerHandler.frames_onData, ← RpcServerHandler.buffer_onData_self] at hreceive
  exact ⟨h.connected, hreceive, h.replies⟩

/-- What the server handles is a request that was sent. -/
theorem request_sent {f : Frame} {fs : List Frame} (h : Wired p x) (hrequests : x.requests = f :: fs) :
    ∃ i ∈ x.sent, i.frame = f := by
  have hbegin := h.requests.isPrefix
  rw [hrequests] at hbegin
  exact List.mem_map.1 (hbegin.subset (by simp))

theorem serverFrame {f : Frame} {fs : List Frame} {answer : Except RpcError (List UInt8)}
    (h : Wired p x) (hrequests : x.requests = f :: fs)
    (hfits : ∀ g ∈ (RpcServerHandler.handleFrame p.services p.serialize f answer).2,
      g.payload.length ≤ maxPayloadSize.toNat) : Wired p (x.serverFrame p f fs answer) := by
  obtain ⟨i, -, rfl⟩ := h.request_sent hrequests
  obtain ⟨d, rfl, hhandle, -⟩ :=
    @RpcServerHandler.handleFrame_frame p.services p.serialize i answer
  have htake := h.requests
  rw [hrequests] at htake
  rw [hhandle] at hfits
  refine ⟨h.connected, ?_, ?_⟩
  · simp only [Transport.serverFrame, hhandle, Option.toList_some, List.map_append, List.map_singleton]
    exact htake.take
  · simp only [Transport.serverFrame, hhandle, Option.toList_some, List.filterMap_append]
    cases hresponse : RpcServerHandler.responseFrame p.serialize d with
    | none => simpa [hresponse] using h.replies
    | some g =>
      have hwf := RpcServerHandler.wellFormed_responseFrame hresponse (hfits g hresponse)
      simpa [hresponse] using h.replies.write (reads_frame hwf)

theorem clientData {n : ℕ} (h : Wired p x) (hempty : x.responses = [])
    (hle : x.returned + n ≤ x.replies.length) : Wired p (x.clientData n) := by
  have hreceive := h.replies
  rw [hempty] at hreceive
  replace hreceive := hreceive.receive hle
  rw [← receiveFrames_eq] at hreceive
  exact ⟨h.connected, h.requests, hreceive⟩

theorem clientFrame {f : Frame} {fs : List Frame} (h : Wired p x)
    (hresponses : x.responses = f :: fs) : Wired p (x.clientFrame p f fs) := by
  have htake := h.replies
  rw [hresponses] at htake
  obtain ⟨pending, heq⟩ := @RpcClient.handleFrame_eq p.deserialize x.client f
  simp only [Transport.clientFrame, RpcClient.enter, heq]
  exact ⟨h.connected, h.requests, htake.take⟩

theorem enters {e : Input} {ts : List RpcClient.Call} (h : Wired p s.shared)
    (hok : Lossless p s (.env e)) (he : Enters p s.shared e y ts) : Wired p y := by
  cases he with
  | call request => exact ⟨h.connected, h.requests, h.replies⟩
  | callOneway request => exact ⟨h.connected, h.requests, h.replies⟩
  | setTimeout millis => exact ⟨h.connected, h.requests, h.replies⟩
  | serverData n hempty _ hle => exact h.serverData hempty hle
  | serverFrame f fs answer hrequests => exact h.serverFrame hrequests (hok f (by rw [hrequests]; rfl))
  | clientData n hempty _ hle => exact h.clientData hempty hle
  | clientFrame f fs hresponses => exact h.clientFrame hresponses
  | other connId event hne =>
    refine ⟨h.connected, ?_, h.replies⟩
    rw [RpcServerHandler.buffer_onEvent_of_ne hne]
    exact h.requests

/-- The client writes a whole request. -/
theorem send {i : Invocation} (h : Wired p x) (hfits : i.Fits) :
    Wired p { x with client := x.client.send i.frame.encode, sent := x.sent ++ [i] } := by
  have hwrite := h.requests.write (reads_frame hfits.wellFormed)
  rw [RpcClient.send, if_pos h.connected]
  refine ⟨h.connected, ?_, h.replies⟩
  rw [List.map_append]
  exact hwrite

end Wired

/-! ## The calls -/

structure Accounted (s : State) : Prop where
  made : (s.shared.sent ++ s.threads.filterMap RpcClient.Call.unsent).Perm s.shared.made
  calls : s.shared.made.map (fun i => (i.requestId, i.oneWay)) =
    s.threads.map fun t => (t.id, t.isOneWay)
  fits : ∀ i ∈ s.shared.made, i.Fits

namespace Accounted

/-- A new call has its request still to send. -/
theorem invoke {request : RpcClient.Request} {oneWay : Bool} {t : RpcClient.Call}
    (h : Accounted s) (hid : t.id = s.shared.client.nextRequestId) (hflag : t.isOneWay = oneWay)
    (hunsent : t.unsent = some (request.invocation s.shared.client.nextRequestId oneWay))
    (hfits : (request.invocation s.shared.client.nextRequestId oneWay).Fits) :
    Accounted ⟨s.shared.invoke request oneWay, s.threads ++ [t]⟩ := by
  refine ⟨?_, ?_, ?_⟩
  · have hmade := h.made.append_right [request.invocation s.shared.client.nextRequestId oneWay]
    simpa [Transport.invoke, hunsent] using hmade
  · have hcalls := h.calls
    simp [Transport.invoke, hcalls, hid, hflag, RpcClient.Request.invocation]
  · intro i hi
    rcases List.mem_append.1 hi with hi | hi
    · exact h.fits i hi
    · rw [List.mem_singleton.1 hi]
      exact hfits

theorem enters {e : Input} {ts : List RpcClient.Call} (h : Accounted s)
    (hok : Lossless p s (.env e)) (he : Enters p s.shared e y ts) :
    Accounted ⟨y, s.threads ++ ts⟩ := by
  have hkeep : ∀ y : Transport, y.sent = s.shared.sent → y.made = s.shared.made →
      Accounted ⟨y, s.threads ++ []⟩ := by
    intro y hsent hmade
    rw [List.append_nil]
    exact ⟨by rw [hsent, hmade]; exact h.made, by rw [hmade]; exact h.calls,
      by rw [hmade]; exact h.fits⟩
  cases he with
  | call request => exact h.invoke rfl rfl rfl hok
  | callOneway request => exact h.invoke rfl rfl rfl hok
  | setTimeout millis => exact hkeep _ rfl rfl
  | serverData n => exact hkeep _ rfl rfl
  | serverFrame f fs answer => exact hkeep _ rfl rfl
  | clientData n => exact hkeep _ rfl rfl
  | clientFrame f fs => exact hkeep _ rfl rfl
  | other connId event => exact hkeep _ rfl rfl

variable {l l' : List RpcClient.Call} {t t' : RpcClient.Call} {o : RpcClient.Choice}
  {c' : RpcClient}

/-- The request that a call has still to send is one that was made. -/
theorem mem_made {i : Invocation} (h : Accounted ⟨x, l ++ t :: l'⟩) (hunsent : t.unsent = some i) :
    i ∈ x.made :=
  h.made.subset (List.mem_append_right _ (List.mem_filterMap.2 ⟨t, by simp, hunsent⟩))

theorem act (h : Accounted ⟨x, l ++ t :: l'⟩) (hnot : ∀ error written, o ≠ .notSent error written)
    (hact : x.client.proceed t o = some (c', t')) :
    Accounted ⟨{ x with client := c', sent := x.sent ++ t.sends o }, l ++ t' :: l'⟩ := by
  refine ⟨?_, ?_, h.fits⟩
  · have hmade := h.made
    rcases RpcClient.sends_cases hnot hact with
      ⟨i, hunsent, hunsent', hsends, -⟩ | ⟨hunsent, hsends, -⟩
    · rw [hsends]
      simp only [List.filterMap_append, List.filterMap_cons, hunsent] at hmade
      simp only [List.filterMap_append, List.filterMap_cons, hunsent', List.append_assoc,
        List.singleton_append]
      exact (List.perm_middle.symm.append_left x.sent).trans hmade
    · rw [hsends, List.append_nil]
      simp only [List.filterMap_append, List.filterMap_cons, hunsent] at hmade ⊢
      exact hmade
  · have hcalls := h.calls
    have hid := (RpcClient.proceed_id hact).2
    have hflag := RpcClient.isOneWay_of_proceed hact
    simpa [hid, hflag] using hcalls

end Accounted

/-! ## Whole runs -/

theorem Wired.act {l l' : List RpcClient.Call} {t t' : RpcClient.Call} {o : RpcClient.Choice}
    {c' : RpcClient} (h : Wired p x) (hcalls : Accounted ⟨x, l ++ t :: l'⟩)
    (hnot : ∀ error written, o ≠ .notSent error written)
    (hact : x.client.proceed t o = some (c', t')) :
    Wired p { x with client := c', sent := x.sent ++ t.sends o } := by
  rcases RpcClient.sends_cases hnot hact with
    ⟨i, hunsent, -, hsends, rfl⟩ | ⟨-, hsends, pending, rfl⟩
  · rw [hsends]
    exact h.send (hcalls.fits i (hcalls.mem_made hunsent))
  · rw [hsends, List.append_nil]
    exact ⟨h.connected, h.requests, h.replies⟩

theorem Lossless.not_notSent {i : ℕ} {o : RpcClient.Choice} (h : Lossless p s (.act i o)) :
    ∀ error written, o ≠ .notSent error written := by
  rintro error written rfl
  exact h

/-- Nothing that was made, sent, dispatched or returned is lost. -/
structure Delivers (p : Setup) (s : State) : Prop where
  wired : Wired p s.shared
  accounted : Accounted s

theorem Delivers.step (h : Delivers p s) (hok : Lossless p s a)
    (hs : (system p).step s a = some u) : Delivers p u := by
  rcases step_cases hs with ⟨e, y, ts, rfl, he, rfl⟩ | ⟨o, c', t, t', l, l', rfl, hts, hact, rfl⟩
  · exact ⟨h.wired.enters hok he, h.accounted.enters hok he⟩
  · obtain ⟨x, ts⟩ := s
    subst hts
    exact ⟨h.wired.act h.accounted hok.not_notSent hact, h.accounted.act hok.not_notSent hact⟩

theorem delivers_initial (p : Setup) (server : RpcServerHandler) : Delivers p (initial p server) := by
  refine ⟨⟨rfl, ?_, Framing.Reader.carries_nil⟩, ⟨.nil, rfl, fun i hi => by cases hi⟩⟩
  simp only [initial, RpcServerHandler.buffer_onConnect_self]
  exact Framing.Reader.carries_nil

theorem delivers_of_run {server : RpcServerHandler} {as : List Step}
    (h : Run (system p).step (Lossless p) (initial p server) as s) : Delivers p s :=
  h.invariant (delivers_initial p server) fun _ _ _ ht hok hs => ht.step hok hs

end Transport
