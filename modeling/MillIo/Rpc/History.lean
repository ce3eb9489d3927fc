-- SUMMARY: What any number of clients do at once to a hosted service is a history of the calls of its methods, one after the other, in an order that agrees with the time.
import MillIo.Rpc.Hosting
import MillIo.Rpc.Clients
import MillIo.Interleaving.View

/-!
# The history of a hosted service

The server dispatches the requests of all connections in one order. A call is dispatched after it
has been made and before it returns, so this order agrees with the time.
-/

open Interleaving Protocol

variable {τ ν σ : Type}

/-! ## What the server dispatches -/

/-- The request that a step of the transport dispatches. -/
def Transport.dispatches (p : Setup) (x : Transport.State) : Transport.Step → Option Dispatch
  | .env (.serverFrame answer) => x.shared.requests.head?.bind fun f =>
    (RpcServerHandler.handleFrame p.services p.serialize f answer).1
  | _ => none

theorem Transport.dispatched_of_step {p : Setup} {x y : Transport.State} {a : Transport.Step}
    (h : (Transport.system p).step x a = some y) :
    y.shared.dispatched = x.shared.dispatched ++ (dispatches p x a).toList := by
  rcases step_cases h with ⟨e, z, ts, rfl, he, rfl⟩ | ⟨o, c', t, t', l, l', rfl, hts, hact, rfl⟩
  · cases he with
    | serverFrame f fs answer hrequests =>
      simp [dispatches, hrequests, Transport.serverFrame]
    | _ => simp [dispatches, Transport.invoke, Transport.serverData, Transport.clientData,
        Transport.clientFrame]
  · simp [dispatches]

namespace Clients

/-- The request that a step dispatches, and its connection. -/
def dispatches (p : Setup) (s : Clients) : Step → Option (ℕ × Dispatch)
  | .within k a => s.ends[k]?.join.bind fun x => (Transport.dispatches (setup p k) x a).map (k, ·)
  | _ => none

/-- What a run dispatches, in order. -/
def log (p : Setup) (as : List Step) : List (ℕ × Dispatch) := outputs (step p) (dispatches p) initial as

/-- Of the requests those of one connection. -/
def ofConnection (k : ℕ) (e : ℕ × Dispatch) : Option Dispatch := if e.1 = k then some e.2 else none

variable {p : Setup} {s u : Clients} {as bs : List Step} {b : Step} {x y : Transport.State} {k : ℕ}

/-- The requests that have been dispatched are calls that have been made, none of them twice. Those
    of the open connections are known there. -/
structure Logged (as : List Step) (s : Clients) (past : List (ℕ × Dispatch)) : Prop where
  born : ∀ e ∈ past, e.1 < s.ends.length
  current : ∀ k x, s.ends[k]? = some (some x) → past.filterMap (ofConnection k) = x.shared.dispatched
  made : ∀ e ∈ past, e.2.toInvocation ∈ invoked e.1 as
  once : (past.map fun e => (e.1, e.2.requestId)).Nodup

theorem invoked_prefix : invoked k as <+: invoked k (as ++ bs) := by
  unfold invoked Transport.invoked Transport.invocations
  rw [List.filterMap_append, List.filterMap_append, List.mapIdx_append]
  exact List.prefix_append _ _

/-- What a connection that is open knows of its calls. -/
theorem known_of_run (hcodec : p.RoundTrips) (h : Run (step p) (Lossless p) initial as s)
    (hfew : s.ends.length < 2 ^ 64) (hcalls : (invoked k as).length ≤ 2 ^ 64)
    (hx : s.ends[k]? = some (some x)) :
    ((invoked k as).map Invocation.requestId).Nodup ∧
      Transport.Faithful (setup p k) (invoked k as) (seen s.server x) := by
  obtain ⟨server, bs, hinvoked, hbs⟩ := transport_of_run h hfew hx
  rw [← hinvoked, Transport.length_invoked hbs] at hcalls
  rw [← hinvoked]
  refine ⟨?_, Transport.faithful_of_run hcodec hbs hcalls⟩
  rw [← Transport.made_eq_invoked hbs]
  exact Transport.ids_nodup hbs hcalls

/-- The requests that one connection has dispatched have different ids. -/
theorem nodup_dispatched {calls : List Invocation} (hnodup : (calls.map Invocation.requestId).Nodup)
    (h : Transport.Faithful p calls x) : (x.shared.dispatched.map fun d => d.requestId).Nodup := by
  obtain ⟨l, hperm, hsub⟩ := h.dispatched
  have hids := (hperm.map Invocation.requestId).nodup_iff.1 ((hsub.map _).nodup hnodup)
  rwa [List.map_map] at hids

theorem dispatches_seen (server : RpcServerHandler) (a : Transport.Step) :
    Transport.dispatches p (seen server x) a = Transport.dispatches p x a := by
  cases a with
  | env e => cases e <;> rfl
  | act i o => rfl

theorem mem_ofConnection {past : List (ℕ × Dispatch)} {d : Dispatch} :
    d ∈ past.filterMap (ofConnection k) ↔ (k, d) ∈ past := by
  rw [List.mem_filterMap]
  constructor
  · rintro ⟨⟨j, d'⟩, hmem, h⟩
    unfold ofConnection at h
    split at h
    · rename_i heq
      cases h
      rwa [← heq]
    · cases h
  · exact fun hmem => ⟨(k, d), hmem, if_pos rfl⟩

variable {past : List (ℕ × Dispatch)} {a : Transport.Step} {o : Option Dispatch}

/-- Nothing is dispatched, and a connection that is new has dispatched nothing. -/
theorem Logged.silent (h : Logged as s past) (hle : s.ends.length ≤ u.ends.length)
    (hopen : ∀ k x, u.ends[k]? = some (some x) →
      s.ends[k]? = some (some x) ∨ s.ends.length ≤ k ∧ x.shared.dispatched = []) :
    Logged (as ++ [b]) u past where
  born e he := (h.born e he).trans_le hle
  current k x hx := by
    rcases hopen k x hx with hold | ⟨hnew, hnone⟩
    · exact h.current k x hold
    · rw [hnone, List.filterMap_eq_nil_iff]
      intro e he
      exact if_neg (Nat.ne_of_lt ((h.born e he).trans_le hnew))
  made e he := invoked_prefix.subset (h.made e he)
  once := h.once

/-- A step of a connection dispatches what it adds to the dispatches there. -/
theorem Logged.within (h : Logged as s past) (hx : s.ends[k]? = some (some x))
    (hdispatched : y.shared.dispatched = x.shared.dispatched ++ o.toList)
    (hnodup : ((invoked k (as ++ [.within k a])).map Invocation.requestId).Nodup)
    (hy : Transport.Faithful (setup p k) (invoked k (as ++ [.within k a])) y) {server : RpcServerHandler} :
    Logged (as ++ [.within k a]) ⟨server, s.ends.set k (some y)⟩
      (past ++ (o.map (k, ·)).toList) where
  born := by
    have hk : k < s.ends.length := (List.getElem?_eq_some_iff.1 hx).1
    simp only [List.length_set]
    cases o with
    | none => simpa using h.born
    | some d =>
      refine List.forall_mem_append.2 ⟨h.born, ?_⟩
      simpa using hk
  current j z hz := by
    have hk : k < s.ends.length := (List.getElem?_eq_some_iff.1 hx).1
    rw [List.filterMap_append]
    obtain rfl | hne := eq_or_ne k j
    · obtain rfl : y = z := by
        rw [List.getElem?_set_self hk] at hz
        exact Option.some.inj (Option.some.inj hz)
      rw [h.current k x hx, hdispatched]
      cases o with
      | none => rfl
      | some d => simp [ofConnection]
    · rw [List.getElem?_set_ne hne] at hz
      rw [h.current j z hz]
      cases o with
      | none => simp
      | some d => simp [ofConnection, hne]
  made := by
    refine List.forall_mem_append.2 ⟨fun e he => invoked_prefix.subset (h.made e he), ?_⟩
    intro e he
    obtain ⟨d, rfl, rfl⟩ := Option.map_eq_some_iff.1 (Option.mem_toList.1 he)
    refine hy.dispatched.subset (List.mem_map_of_mem ?_)
    simp [hdispatched]
  once := by
    have hids := nodup_dispatched hnodup hy
    rw [hdispatched, List.map_append] at hids
    rw [List.map_append]
    cases o with
    | none => simpa using h.once
    | some d =>
      refine List.nodup_append.2 ⟨h.once, List.nodup_singleton _, ?_⟩
      rintro _ hold _ hnew rfl
      obtain ⟨⟨j, d'⟩, hmem, hid⟩ := List.mem_map.1 hold
      rw [Option.map_some, Option.toList_some, List.map_singleton, List.mem_singleton] at hnew
      obtain ⟨rfl, hid⟩ := Prod.mk.inj (hid.trans hnew)
      have hmem' : d' ∈ x.shared.dispatched := by
        rw [← h.current j x hx]
        exact mem_ofConnection.2 hmem
      have hdistinct := (List.nodup_append.1 hids).2.2
      exact hdistinct d'.requestId (List.mem_map_of_mem hmem') d.requestId (by simp) hid

theorem Logged.snoc (h : Logged as s past) (hs : step p s b = some u)
    (hknown : ∀ k x, u.ends[k]? = some (some x) →
      ((invoked k (as ++ [b])).map Invocation.requestId).Nodup ∧
        Transport.Faithful (setup p k) (invoked k (as ++ [b])) (seen u.server x)) :
    Logged (as ++ [b]) u (past ++ (dispatches p s b).toList) := by
  cases steps_of_step hs with
  | connect =>
    simp only [dispatches, Option.toList_none, List.append_nil]
    refine h.silent (by simp) fun k x hx => ?_
    rcases Nat.lt_trichotomy k s.ends.length with hold | rfl | hnew
    · rw [List.getElem?_append_left hold] at hx
      exact .inl hx
    · obtain rfl : Transport.initial (setup p s.ends.length) s.server = x := by simpa using hx
      exact .inr ⟨Nat.le_refl _, rfl⟩
    · rw [List.getElem?_append_right hnew.le, List.getElem?_singleton, if_neg (by omega)] at hx
      cases hx
  | within j a x y hother hx hy =>
    have hj : j < s.ends.length := (List.getElem?_eq_some_iff.1 hx).1
    obtain ⟨hnodup, hfaithful⟩ := hknown j y (List.getElem?_set_self hj)
    have hlog : dispatches p s (.within j a) = (Transport.dispatches (setup p j) x a).map (j, ·) := by
      simp only [dispatches, hx, Option.join_some, Option.bind_some]
    have hdispatched := Transport.dispatched_of_step hy
    rw [dispatches_seen] at hdispatched
    rw [hlog]
    exact h.within hx hdispatched hnodup hfaithful
  | disconnect j x hx =>
    simp only [dispatches, Option.toList_none, List.append_nil]
    refine h.silent (by simp) fun k z hz => .inl ?_
    obtain rfl | hne := eq_or_ne j k
    · rw [List.getElem?_set_self (List.getElem?_eq_some_iff.1 hx).1] at hz
      cases hz
    · rwa [List.getElem?_set_ne hne] at hz

theorem length_le_of_run {ok : Clients → Step → Prop} (h : Run (step p) ok s bs u) :
    s.ends.length ≤ u.ends.length := by
  induction h with
  | refl => exact Nat.le_refl _
  | snoc _ _ hs ih => exact ih.trans (length_le_of_step hs)

theorem logged_of_run (hcodec : p.RoundTrips) (h : Run (step p) (Lossless p) initial as s)
    (hfew : s.ends.length < 2 ^ 64) (hcalls : ∀ k, (invoked k as).length ≤ 2 ^ 64) :
    Logged as s (log p as) := by
  induction h with
  | refl =>
    refine ⟨nofun, fun k x hx => ?_, nofun, List.nodup_nil⟩
    simp [initial] at hx
  | @snoc as s u b hrun hok hs ih =>
    have hprefix : ∀ k, (invoked k as).length ≤ 2 ^ 64 :=
      fun k => invoked_prefix.length_le.trans (hcalls k)
    have hlogged := ih ((length_le_of_step hs).trans_lt hfew) hprefix
    rw [log, hrun.outputs_snoc hs]
    exact hlogged.snoc hs fun k x hx => known_of_run hcodec (hrun.snoc hok hs) hfew (hcalls k) hx

end Clients

namespace ServiceMacro

/-! ## What the callers see -/

/-- A call of a method of the service, from its request to the value that its caller gets. -/
structure MethodCall (τ ν : Type) where
  connection : ℕ
  requestId : UInt64
  request : RpcClient.Request
  method : MethodDef τ
  values : List ν
  value : ν

def MethodCall.context (e : MethodCall τ ν) : RpcContext :=
  .new e.requestId e.request.serviceId e.request.methodId

namespace Hosting

variable (h : Hosting τ ν σ)

/-- The service as an object, of which one method is called at a time. -/
def invoke (s : σ) (e : MethodCall τ ν) : Option σ :=
  some (h.svc e.method.name e.context e.values s).2

def Returns (s : σ) (e : MethodCall τ ν) : Prop :=
  (h.svc e.method.name e.context e.values s).1 = e.value

/-- What a dispatch does to the service, if it is one to this service, whose dispatcher then
    answers it. -/
def serve (s : σ) (e : ℕ × Dispatch) : Option σ :=
  if e.2.serviceId = h.serviceId then
    (h.dispatch (.new e.2.requestId e.2.serviceId e.2.methodId) e.2.args s).bind fun r =>
      if r.1 = e.2.result then some r.2 else none
  else some s

/-- The request is one that a method of the client makes. -/
def Makes (m : MethodDef τ) (values : List ν) (i : Invocation) : Prop :=
  m ∈ h.served.methods ∧ m.Accepts h.HasType values ∧
    h.request m.name values = some (.ok ⟨i.serviceId, i.methodId, i.args⟩)

/-- The calls of the methods, one after the other, are what the callers have seen of the service
    when a run has come to `s`: they begin in the state `s₀` and end in `s₁`, each of them has been
    made once, and a caller to whom the client has returned got the value of its call. -/
structure Explains (as : List Clients.Step) (s : Clients) (s₀ s₁ : σ) (calls : List (MethodCall τ ν)) :
    Prop where
  sequential : Run h.invoke h.Returns s₀ calls s₁
  once : (calls.map fun e => (e.connection, e.requestId)).Nodup
  made : ∀ e ∈ calls, ∃ i ∈ Clients.invoked e.connection as,
    i.requestId = e.requestId ∧ h.Makes e.method e.values i
  returned : ∀ k x, s.ends[k]? = some (some x) → ∀ id n outcome found,
    .returned id n outcome found ∈ x.threads → ∀ i ∈ Clients.invoked k as, i.requestId = id →
    ∀ m values, h.Makes m values i →
    ∃ e ∈ calls, e.connection = k ∧ e.requestId = id ∧ e.method = m ∧ e.values = values ∧
      (outcome.result id).bind (h.response m.name) = some (.ok e.value)

variable {h} {past : List (ℕ × Dispatch)} {calls : List (MethodCall τ ν)} {s s' : σ}
  {m m' : MethodDef τ} {values values' : List ν} {i : Invocation}

/-- The dispatch is the call on the wire. -/
structure Records (h : Hosting τ ν σ) (e : ℕ × Dispatch) (call : MethodCall τ ν) : Prop where
  connection : call.connection = e.1
  requestId : call.requestId = e.2.requestId
  request : call.request = ⟨e.2.serviceId, e.2.methodId, e.2.args⟩
  makes : h.Makes call.method call.values e.2.toInvocation
  response : h.response call.method.name e.2.result = some (.ok call.value)

/-- The dispatches to the service are a run of the object. -/
theorem sequential_of_served (htyped : ∀ e ∈ past, e.2.serviceId = h.serviceId →
      ∃ m values, h.Makes m values e.2.toInvocation) (hserved : past.foldlM h.serve s = some s') :
    ∃ calls, Run h.invoke h.Returns s calls s' ∧
      List.Forall₂ (Records h) (past.filter fun e => e.2.serviceId = h.serviceId) calls := by
  induction past generalizing s with
  | nil =>
    cases hserved
    exact ⟨[], .refl, .nil⟩
  | cons e past ih =>
    rw [List.foldlM_cons] at hserved
    obtain ⟨s₁, hfirst, hrest⟩ := Option.bind_eq_some_iff.1 hserved
    obtain ⟨calls, hrun, hrecords⟩ := ih (fun e he => htyped e (List.mem_cons_of_mem _ he)) hrest
    unfold serve at hfirst
    split at hfirst
    · rename_i hid
      obtain ⟨m, values, hm, hvalues, hrequest⟩ := htyped e List.mem_cons_self hid
      obtain ⟨⟨result, s₂⟩, hdispatch, hresult⟩ := Option.bind_eq_some_iff.1 hfirst
      split at hresult
      · rename_i heq
        cases hresult
        obtain ⟨hresponse, rfl⟩ := dispatch_request hm hvalues hrequest hdispatch
        obtain ⟨k, d⟩ := e
        let call : MethodCall τ ν := ⟨k, d.requestId, ⟨d.serviceId, d.methodId, d.args⟩, m, values,
          (h.svc m.name (.new d.requestId d.serviceId d.methodId) values s).1⟩
        have hcall : Records h (k, d) call :=
          ⟨rfl, rfl, rfl, ⟨hm, hvalues, hrequest⟩, heq ▸ hresponse⟩
        have hreturns : h.Returns s call := rfl
        refine ⟨call :: calls, .cons hreturns rfl hrun, ?_⟩
        rw [List.filter_cons_of_pos (by simpa using hid)]
        exact .cons hcall hrecords
      · cases hresult
    · rename_i hid
      cases hfirst
      refine ⟨calls, hrun, ?_⟩
      rwa [List.filter_cons_of_neg (by simpa using hid)]

theorem exists_of_forall₂ {α β : Type*} {R : α → β → Prop} {as : List α} {bs : List β} {a : α}
    (h : List.Forall₂ R as bs) (ha : a ∈ as) : ∃ b ∈ bs, R a b := by
  induction h with
  | nil => cases ha
  | cons hfirst _ ih =>
    rcases List.mem_cons.1 ha with rfl | ha
    · exact ⟨_, List.mem_cons_self, hfirst⟩
    · obtain ⟨b, hb, hrest⟩ := ih ha
      exact ⟨b, List.mem_cons_of_mem _ hb, hrest⟩

variable {p : Setup} {as bs : List Clients.Step} {c c' : Clients} {s₀ s₁ : σ}

/-- A history that records the dispatches explains what the callers have seen. -/
theorem explains_of_records (hlogged : Clients.Logged as c past)
    (hknown : ∀ k x, c.ends[k]? = some (some x) →
      ((Clients.invoked k as).map Invocation.requestId).Nodup ∧
        Transport.Faithful (Clients.setup p k) (Clients.invoked k as) (Clients.seen c.server x))
    (hrun : Run h.invoke h.Returns s₀ calls s₁)
    (hrecords : List.Forall₂ (Records h) (past.filter fun e => e.2.serviceId = h.serviceId) calls) :
    h.Explains as c s₀ s₁ calls where
  sequential := hrun
  once := by
    have hkeys : (past.filter fun e => e.2.serviceId = h.serviceId).map
        (fun e => (e.1, e.2.requestId)) = calls.map fun call => (call.connection, call.requestId) := by
      rw [← List.forall₂_eq_eq_eq, List.forall₂_map_left_iff, List.forall₂_map_right_iff]
      exact hrecords.imp fun e call hcall => by rw [hcall.connection, hcall.requestId]
    rw [← hkeys]
    exact (List.filter_sublist.map _).nodup hlogged.once
  made call hcall := by
    obtain ⟨e, he, hrecord⟩ := exists_of_forall₂ hrecords.flip hcall
    refine ⟨e.2.toInvocation, ?_, hrecord.requestId.symm, hrecord.makes⟩
    rw [hrecord.connection]
    exact hlogged.made e (List.mem_of_mem_filter he)
  returned k x hx id n outcome found ht i hi hid m values hmakes := by
    obtain ⟨hnodup, hfaithful⟩ := hknown k x hx
    obtain ⟨d, hd, hdid, -, houtcome⟩ := hfaithful.answers _ ht
    have hmem : (k, d) ∈ past := by
      rw [← Clients.mem_ofConnection, hlogged.current k x hx]
      exact hd
    obtain rfl : i = d.toInvocation :=
      List.inj_on_of_nodup_map hnodup hi (hlogged.made _ hmem) (hid.trans hdid.symm)
    obtain ⟨hm, hvalues, hrequest⟩ := hmakes
    obtain ⟨j, hj⟩ := List.getElem?_of_mem hm
    obtain ⟨-, hservice, -⟩ := request_spec hj hvalues hrequest
    obtain ⟨call, hcall, hrecord⟩ := exists_of_forall₂ hrecords
      (List.mem_filter.2 ⟨hmem, decide_eq_true hservice⟩)
    obtain ⟨hm', hvalues', hrequest'⟩ := hrecord.makes
    obtain ⟨rfl, rfl⟩ := request_inj hm hm' hvalues hvalues' hrequest hrequest'
    refine ⟨call, hcall, hrecord.connection, hrecord.requestId.trans hdid, rfl, rfl, ?_⟩
    rw [houtcome, Option.bind_some]
    exact hrecord.response

/-- A calculator that counts its calls. -/
def calculatorHosting : Hosting Ty Value ℕ where
  case := ascii
  served := ⟨.serverOnly, "Calculator", calculatorMethods⟩
  called := ⟨.clientOnly, "Calculator", calculatorMethods⟩
  codec := u8Codec
  svc name _ values n := myCalculator name () values n
  serviceId := 0
  HasType ty value := value.ty = ty
  methods_eq := rfl
  count := by decide
  names := ⟨by decide, by decide, by decide⟩
  requests m _ := roundTrips_u8Codec m.request
  responses m _ := roundTrips_u8Codec m.response
  typed m hm _ := wellTyped_myCalculator m hm ()

/-- Both call at the same time; what the second one asks is dispatched first, and it returns. -/
def secondReturns : List Clients.Step :=
  let request := (Frame.request 1 0 0 [2, 3] false).encode.length
  let reply := (Frame.response 1 [9]).encode.length
  [.connect, .connect, .within 0 (.env (.call ⟨0, 0, [2, 3]⟩)), .within 1 (.env (.call ⟨0, 0, [4, 5]⟩)),
    .within 0 (.act 0 .go), .within 1 (.act 0 .go), .within 0 (.act 0 .sent), .within 1 (.act 0 .sent),
    .within 0 (.env (.serverData 5)), .within 1 (.env (.serverData request)),
    .within 1 (.env (.serverFrame (.ok [9]))), .within 1 (.env (.clientData reply)),
    .within 1 (.env .clientFrame), .within 1 (.act 0 (.lock false))]

def firstReturns : List Clients.Step :=
  let request := (Frame.request 1 0 0 [2, 3] false).encode.length
  let reply := (Frame.response 1 [5]).encode.length
  [.within 0 (.env (.serverData (request - 5))), .within 0 (.env (.serverFrame (.ok [5]))),
    .within 0 (.env (.clientData reply)), .within 0 (.env .clientFrame), .within 0 (.act 0 (.lock false))]

theorem makes_add (a b : UInt8) (id : UInt64) :
    calculatorHosting.Makes ⟨"add", [("a", .u8), ("b", .u8)], .u8⟩ [.u8 a, .u8 b] ⟨id, 0, 0, [a, b], false⟩ := by
  refine ⟨by decide, .cons rfl (.cons rfl .nil), ?_⟩
  rfl

theorem invoked_returns (k : ℕ) : Clients.invoked k (secondReturns ++ firstReturns) =
    if k = 0 then [⟨1, 0, 0, [2, 3], false⟩] else if k = 1 then [⟨1, 0, 0, [4, 5], false⟩] else [] := by
  obtain _ | _ | k := k
  · rfl
  · rfl
  · simp [Clients.invoked, Transport.invoked, Transport.invocations, secondReturns, firstReturns,
      Clients.Step.within?]

end Hosting

end ServiceMacro
