-- SUMMARY: `handle_frame` of the RPC server in `mill-rpc/src/server.rs`: how a request is dispatched, and the reply it gets.
import MillIo.Rpc.Calls

/-!
# Dispatching requests

`handle_request` reads the request, asks the service for the result and sends a
reply unless the request is one-way. The service map does not change once the
server is built. What a dispatcher returns is left open: it may depend on the
request and on everything that the services keep.
-/

open Protocol

/-- What a request frame says. -/
structure Invocation where
  requestId : UInt64
  serviceId : UInt16
  methodId : UInt16
  args : List UInt8
  oneWay : Bool
  deriving DecidableEq

/-- A request that has been dispatched, and its result. -/
structure Dispatch extends Invocation where
  result : Except RpcError (List UInt8)
  deriving DecidableEq

namespace Invocation

def frame (i : Invocation) : Frame :=
  Frame.request i.requestId i.serviceId i.methodId i.args i.oneWay

/-- The payload of the request is not too large. -/
def Fits (i : Invocation) : Prop := i.frame.payload.length ≤ maxPayloadSize.toNat

instance (i : Invocation) : Decidable i.Fits :=
  inferInstanceAs (Decidable (_ ≤ _))

theorem Fits.wellFormed {i : Invocation} (h : i.Fits) : i.frame.WellFormed :=
  Frame.wellFormed_ofPayload h

end Invocation

namespace RpcServerHandler

section

-- The ids of the registered services, and `codec.serialize` at `RpcError`.
variable (services : UInt16 → Bool) (serialize : RpcError → Option (List UInt8))

/-- `handle_request` up to the result. If there is a dispatcher for the service, it
    returns `answer`. -/
def dispatch (f : Frame) (answer : Except RpcError (List UInt8)) : Option Dispatch :=
  match f.parseRequestPayload with
  | .error _ => none
  | .ok (requestId, serviceId, methodId, args) =>
    some ⟨⟨requestId, serviceId, methodId, args, f.header.flags.isOneWay⟩,
      if services serviceId then answer else .error (RpcError.serviceNotFound serviceId)⟩

/-- The rest of `handle_request`: the frame that is sent back. -/
def responseFrame (d : Dispatch) : Option Frame :=
  if d.oneWay then none
  else match d.result with
    | .ok respBytes => some (Frame.response d.requestId respBytes)
    | .error rpcErr => (serialize rpcErr).map (Frame.error d.requestId)

/-- What a frame makes the server dispatch, and the frame it makes it send. -/
def handleFrame (f : Frame) (answer : Except RpcError (List UInt8)) :
    Option Dispatch × Option Frame :=
  match f.header.messageType with
  | .request =>
    let d := dispatch services f answer
    (d, d.bind (responseFrame serialize))
  | .ping => (none, some Frame.pong)
  | _ => (none, none)

end

variable {services : UInt16 → Bool} {serialize : RpcError → Option (List UInt8)}
  {deserialize : List UInt8 → Option RpcError} {d : Dispatch} {f : Frame}

/-! ## Requests -/

/-- A request is dispatched as it was made. -/
theorem dispatch_frame (i : Invocation) (answer : Except RpcError (List UInt8)) :
    dispatch services i.frame answer =
      some ⟨i, if services i.serviceId then answer
        else .error (RpcError.serviceNotFound i.serviceId)⟩ := by
  have hparse := Frame.parseRequestPayload_request i.requestId i.serviceId i.methodId i.args i.oneWay
  have hflag := Frame.isOneWay_request i.requestId i.serviceId i.methodId i.args i.oneWay
  unfold dispatch Invocation.frame
  rw [hparse, hflag]

theorem frame_injective : Function.Injective Invocation.frame := by
  intro i j h
  have hdispatch := @dispatch_frame (fun _ => true) i (.ok [])
  rw [h, dispatch_frame] at hdispatch
  exact (congrArg Dispatch.toInvocation (Option.some.inj hdispatch)).symm

theorem handleFrame_frame (i : Invocation) (answer : Except RpcError (List UInt8)) :
    ∃ d : Dispatch, d.toInvocation = i ∧
      handleFrame services serialize i.frame answer = (some d, responseFrame serialize d) ∧
      d.result = if services i.serviceId then answer
        else .error (RpcError.serviceNotFound i.serviceId) := by
  refine ⟨⟨i, if services i.serviceId then answer
    else .error (RpcError.serviceNotFound i.serviceId)⟩, rfl, ?_, rfl⟩
  have htype : i.frame.header.messageType = .request := rfl
  simp only [handleFrame, htype, dispatch_frame, Option.bind_some]

/-! ## Replies -/

/-- A one-way request gets no reply, and every other one does if its error can be
    written. -/
theorem responseFrame_eq_none_iff (hwrite : ∀ e, (serialize e).isSome) :
    responseFrame serialize d = none ↔ d.oneWay = true := by
  unfold responseFrame
  split
  · rename_i hoff
    simp [hoff]
  · rename_i hoff
    split
    · simp [hoff]
    · rename_i e _
      obtain ⟨b, hb⟩ := Option.isSome_iff_exists.1 (hwrite e)
      simp [hoff, hb]

/-- The reply says what the dispatcher returned, if errors are read as they were
    written. -/
theorem replyOf_responseFrame (hread : ∀ e b, serialize e = some b → deserialize b = some e)
    (h : responseFrame serialize d = some f) :
    RpcClient.replyOf deserialize f = some (d.requestId, d.result) := by
  unfold responseFrame at h
  split at h
  · cases h
  split at h
  · rename_i respBytes hresult
    cases h
    rw [hresult, RpcClient.replyOf, Frame.response, Frame.parseResponsePayload_ofPayload]
    rfl
  · rename_i rpcErr hresult
    obtain ⟨b, hb, rfl⟩ := Option.map_eq_some_iff.1 h
    rw [hresult, RpcClient.replyOf, Frame.error, Frame.parseResponsePayload_ofPayload]
    simp [Frame.ofPayload, RpcClient.readError, hread rpcErr b hb]

theorem wellFormed_responseFrame (h : responseFrame serialize d = some f)
    (hfits : f.payload.length ≤ maxPayloadSize.toNat) : f.WellFormed := by
  unfold responseFrame at h
  split at h
  · cases h
  split at h
  · cases h
    exact Frame.wellFormed_ofPayload hfits
  · obtain ⟨b, -, rfl⟩ := Option.map_eq_some_iff.1 h
    exact Frame.wellFormed_ofPayload hfits

end RpcServerHandler
