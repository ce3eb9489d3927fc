-- SUMMARY: A service that `service!` generates behind the RPC server: whatever any number of clients do at once, they see the calls of its methods one after the other.
import MillIo.Rpc.Calls
import MillIo.Rpc.Service
import MillIo.Server.Lifecycle

/-!
# Hosted services

The generated client is on top of the RPC client, and the generated dispatcher behind the RPC
server, whose answers are no longer left open. What the callers see is an object: there is one
order of the calls in which each method returns to its caller what it returns there.
-/

variable {τ ν σ : Type}

/-- Context available to RPC handlers. -/
structure RpcContext where
  requestId : UInt64
  peerAddr : Option Server.SocketAddr
  serviceId : UInt16
  methodId : UInt16

def RpcContext.new (requestId : UInt64) (serviceId methodId : UInt16) : RpcContext :=
  ⟨requestId, none, serviceId, methodId⟩

namespace ServiceMacro

/-! ## The two halves of a client method -/

/-- A method of the generated client up to `RpcTransport::call`. -/
def ClientMethod.request (g : Module τ) (c : Codec τ ν) (serviceId : UInt16) (m : ClientMethod τ)
    (values : List ν) : Option (Except RpcError RpcClient.Request) :=
  (g.types.lookup m.reqName).bind fun reqDef =>
    (g.methods.lookup m.constName).bind fun id =>
      (m.construct.eval ((m.args.map Prod.fst).zip values)).map fun req =>
        (c.serialize reqDef req).map fun payload => ⟨serviceId, id, payload⟩

/-- The rest of it, with what `RpcTransport::call` has returned. -/
def ClientMethod.response (g : Module τ) (c : Codec τ ν) (m : ClientMethod τ) :
    Except RpcError (List UInt8) → Option (Except RpcError ν)
  | .error e => some (.error e)
  | .ok respBytes =>
    (g.types.lookup m.respName).bind fun respDef =>
      match c.deserialize respDef respBytes with
      | .error e => some (.error e)
      | .ok resp => resp.inner.map .ok

/-- The two halves around the transport are the method. -/
theorem ClientMethod.call_eq_bind {g : Module τ} {c : Codec τ ν} {m : ClientMethod τ}
    {respDef : TypeDef τ} (h : g.types.lookup m.respName = some respDef) (transport : Transport σ)
    (serviceId : UInt16) (values : List ν) (s : σ) :
    m.call g c transport serviceId values s =
      (m.request g c serviceId values).bind fun
        | .error e => some (.error e, s)
        | .ok r => (transport r.serviceId r.methodId r.payload s).bind fun p =>
          (m.response g c p.1).map fun value => (value, p.2) := by
  unfold ClientMethod.call ClientMethod.request
  cases g.types.lookup m.reqName with
  | none => rfl
  | some reqDef =>
    simp only [h, Option.bind_some]
    cases g.methods.lookup m.constName with
    | none => rfl
    | some id =>
      simp only [Option.bind_some]
      cases m.construct.eval ((m.args.map Prod.fst).zip values) with
      | none => rfl
      | some req =>
        simp only [Option.bind_some, Option.map_some]
        cases c.serialize reqDef req with
        | error e => rfl
        | ok payload =>
          simp only [Except.map]
          refine Option.bind_congr fun p _ => ?_
          obtain ⟨result, s'⟩ := p
          cases result with
          | error e => rfl
          | ok respBytes =>
            simp only [ClientMethod.response, h, Option.bind_some]
            cases c.deserialize respDef respBytes with
            | error e => rfl
            | ok resp => cases resp <;> rfl

/-! ## Hosted services -/

/-- A service expanded for a server, where it has an id and an implementation, and for its
    clients, which use the same codec and the same id. -/
structure Hosting (τ ν σ : Type) where
  case : CaseMap
  served : ServiceDef τ
  called : ServiceDef τ
  codec : Codec τ ν
  svc : Service RpcContext ν σ
  serviceId : UInt16
  HasType : τ → ν → Prop
  /-- Both are expansions of one declaration. -/
  methods_eq : called.methods = served.methods
  count : served.methods.length ≤ 65536
  names : WellNamed case served.methods
  requests : ∀ m ∈ served.methods, codec.RoundTrips HasType m.request
  responses : ∀ m ∈ served.methods, codec.RoundTrips HasType m.response
  typed : WellTyped HasType svc served.methods

namespace Hosting

variable (h : Hosting τ ν σ)

/-- `ServiceDispatch::dispatch` of the generated dispatcher. -/
def dispatch (ctx : RpcContext) (args : List UInt8) (s : σ) :
    Option (Except RpcError (List UInt8) × σ) :=
  (generate h.case h.served).server.bind fun server =>
    ServiceMacro.dispatch (generate h.case h.served) h.codec h.svc ctx ctx.methodId args s server.arms

/-- The method of the generated client that has a name. -/
def method (name : String) : Option (ClientMethod τ) :=
  (generate h.case h.called).client.bind fun client => clientFn client name

def request (name : String) (values : List ν) : Option (Except RpcError RpcClient.Request) :=
  (h.method name).bind fun fn =>
    fn.request (generate h.case h.called) h.codec h.serviceId values

def response (name : String) (result : Except RpcError (List UInt8)) : Option (Except RpcError ν) :=
  (h.method name).bind fun fn => fn.response (generate h.case h.called) h.codec result

variable {h} {m m' : MethodDef τ} {values values' : List ν} {r : RpcClient.Request}

theorem method_eq (hm : m ∈ h.served.methods) {fn : ClientMethod τ} (hfn : h.method m.name = some fn) :
    fn = m.clientMethod h.case := by
  obtain ⟨client, hclient, hfind⟩ := Option.bind_eq_some_iff.1 hfn
  rw [client_eq hclient, h.methods_eq, clientFn_eq h.names.names_nodup hm] at hfind
  exact (Option.some.inj hfind).symm

/-- A request names its method by the place in the declaration, and its payload is read as the
    arguments. -/
theorem request_spec {i : ℕ} (hi : h.served.methods[i]? = some m) (hvalues : m.Accepts h.HasType values)
    (hr : h.request m.name values = some (.ok r)) :
    r.methodId = UInt16.ofNat i ∧ r.serviceId = h.serviceId ∧
      ∃ req, h.codec.deserialize m.request r.payload = .ok req ∧
        (m.arm h.case).callArgs.mapM req.field = some values := by
  have hm := List.mem_of_getElem? hi
  obtain ⟨fn, hfn, hr⟩ := Option.bind_eq_some_iff.1 hr
  obtain rfl := method_eq hm hfn
  obtain ⟨req, payload, hconstruct, hserialize, hdeserialize, hargs⟩ :=
    request_round h.case (h.requests m hm) (h.names.args m hm) hvalues
  have hreqName : (generate h.case h.called).types.lookup (m.clientMethod h.case).reqName =
      some m.request := by
    simp only [generate, h.methods_eq]
    exact lookup_reqName h.names hm
  have hconstName : (generate h.case h.called).methods.lookup (m.clientMethod h.case).constName =
      some (UInt16.ofNat i) := by
    simp only [generate, h.methods_eq]
    exact lookup_constName h.names hi
  rw [ClientMethod.request, hreqName, Option.bind_some, hconstName, Option.bind_some] at hr
  change ((m.clientMethod h.case).construct.eval (m.argNames.zip values)).map _ = _ at hr
  rw [hconstruct, Option.map_some, hserialize] at hr
  cases hr
  exact ⟨rfl, rfl, req, hdeserialize, hargs⟩

/-- No two methods, and no two lists of arguments, make the same request. -/
theorem request_inj (hm : m ∈ h.served.methods) (hm' : m' ∈ h.served.methods)
    (hvalues : m.Accepts h.HasType values) (hvalues' : m'.Accepts h.HasType values')
    (hr : h.request m.name values = some (.ok r)) (hr' : h.request m'.name values' = some (.ok r)) :
    m = m' ∧ values = values' := by
  obtain ⟨i, hi⟩ := List.getElem?_of_mem hm
  obtain ⟨j, hj⟩ := List.getElem?_of_mem hm'
  obtain ⟨hid, -, req, hreq, hargs⟩ := request_spec hi hvalues hr
  obtain ⟨hid', -, req', hreq', hargs'⟩ := request_spec hj hvalues' hr'
  obtain rfl : i = j := by
    have hcount := h.count
    have hlt := (List.getElem?_eq_some_iff.1 hi).1
    have hlt' := (List.getElem?_eq_some_iff.1 hj).1
    have hnat := congrArg UInt16.toNat (hid.symm.trans hid')
    rw [UInt16.toNat_ofNat', UInt16.toNat_ofNat'] at hnat
    omega
  obtain rfl : m = m' := Option.some.inj (hi.symm.trans hj)
  obtain rfl : req = req' := Except.ok.inj (hreq.symm.trans hreq')
  exact ⟨rfl, Option.some.inj (hargs.symm.trans hargs')⟩

/-- The dispatcher answers the request of a method with what the service returns, and the
    client reads it. -/
theorem dispatch_request (hm : m ∈ h.served.methods) (hvalues : m.Accepts h.HasType values)
    (hr : h.request m.name values = some (.ok r)) {requestId : UInt64} {s s' : σ}
    {result : Except RpcError (List UInt8)}
    (hdispatch : h.dispatch (.new requestId r.serviceId r.methodId) r.payload s = some (result, s')) :
    h.response m.name result =
        some (.ok (h.svc m.name (.new requestId r.serviceId r.methodId) values s).1) ∧
      s' = (h.svc m.name (.new requestId r.serviceId r.methodId) values s).2 := by
  obtain ⟨fn, hfn, hr⟩ := Option.bind_eq_some_iff.1 hr
  obtain rfl := method_eq hm hfn
  obtain ⟨server, hserver, hdispatch⟩ := Option.bind_eq_some_iff.1 hdispatch
  rw [arms_eq hserver] at hdispatch
  have hrespName : (generate h.case h.called).types.lookup (m.clientMethod h.case).respName =
      some m.response := by
    simp only [generate, h.methods_eq]
    exact lookup_respName h.names hm
  have hcall := @call_eq _ _ _ _ h.case h.served h.called m h.codec h.HasType h.svc
    (.new requestId r.serviceId r.methodId) values s h.methods_eq h.count h.names hm
    (h.requests m hm) (h.responses m hm) h.typed hvalues h.serviceId
  rw [ClientMethod.call_eq_bind hrespName, hr] at hcall
  change (ServiceMacro.dispatch _ _ _ _ (RpcContext.new requestId r.serviceId r.methodId).methodId
    r.payload s _).bind _ = _ at hcall
  rw [hdispatch, Option.bind_some, Option.map_eq_some_iff] at hcall
  obtain ⟨value, hvalue, heq⟩ := hcall
  obtain ⟨rfl, rfl⟩ := Prod.mk.inj heq
  refine ⟨?_, rfl⟩
  rw [response, hfn, Option.bind_some, hvalue]

end Hosting

end ServiceMacro
