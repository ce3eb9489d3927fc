-- SUMMARY: The RPC transport end to end: every call is dispatched exactly once, as it was made, and returns what its dispatch produced.
import MillIo.Interleaving.Progress
import MillIo.Rpc.Reassembly
import MillIo.Rpc.Replies
import Mathlib.Order.RelClasses

/-!
# The transport end to end

In every run over a lossless channel the requests dispatched are calls that were
made, none of them twice, and a call that returns returns the result of its
dispatch. The transport cannot go on for ever without new calls, and when it stops
all calls have been dispatched and have returned.
-/

open Interleaving Protocol

namespace RpcClient.Call

/-- The steps up to the sending of the request. -/
def toSend : Call → ℕ
  | registering _ _ => 2
  | sending _ _ _ => 1
  | oneWay _ _ => 1
  | _ => 0

/-- The steps from the sending of the request to the return. -/
def toReturn : Call → ℕ
  | failed _ _ _ => 1
  | locking _ _ => 2
  | waiting _ _ => 1
  | _ => 0

def hasReturned : Call → Bool
  | returned _ _ _ _ => true
  | oneWayReturned _ _ => true
  | _ => false

/-- A call that has returned returned the result of its dispatch. A one-way call
    returned when its request had been sent. -/
def Answers (dispatched : List Dispatch) : Call → Prop
  | returned id _ outcome _ =>
    ∃ d ∈ dispatched, d.requestId = id ∧ d.oneWay = false ∧ outcome.result id = some d.result
  | oneWayReturned _ result => result = .ok ()
  | _ => True

end RpcClient.Call

/-- The errors for services that are not found fit into a reply. -/
def Setup.NotFoundFits (p : Setup) : Prop :=
  ∀ serviceId b, p.services serviceId = false →
    p.serialize (RpcError.serviceNotFound serviceId) = some b →
    8 + b.length ≤ maxPayloadSize.toNat

namespace Transport

variable {p : Setup} {s u : State} {a : Step} {x : Transport} {server : RpcServerHandler}
  {as : List Step}

/-! ## Going on -/

/-- What is left to do, with what is done later counted after what is done earlier. -/
def rank (s : State) : ℕ × ℕ × ℕ × ℕ × ℕ × ℕ :=
  (Machine.total RpcClient.Call.toSend s.threads,
    s.shared.client.sent.length - s.shared.received, s.shared.requests.length,
    s.shared.replies.length - s.shared.returned, s.shared.responses.length,
    Machine.total RpcClient.Call.toReturn s.threads)

def Nearer : ℕ × ℕ × ℕ × ℕ × ℕ × ℕ → ℕ × ℕ × ℕ × ℕ × ℕ × ℕ → Prop :=
  Prod.Lex (· < ·) (Prod.Lex (· < ·) (Prod.Lex (· < ·) (Prod.Lex (· < ·)
    (Prod.Lex (· < ·) (· < ·)))))

theorem nearer_wellFounded : WellFounded Nearer := by
  unfold Nearer
  exact IsWellFounded.wf

theorem nearer_enters {e : Input} {y : Transport} {ts : List RpcClient.Call}
    (hinternal : Internal (.env e)) (he : Enters p s.shared e y ts) :
    Nearer (rank ⟨y, s.threads ++ ts⟩) (rank s) := by
  cases he with
  | call request => exact hinternal.elim
  | callOneway request => exact hinternal.elim
  | setTimeout millis => exact hinternal.elim
  | serverData n _ hpos hle =>
    rw [List.append_nil]
    refine .right _ (.left _ _ ?_)
    simp only [Transport.serverData]
    omega
  | serverFrame f fs answer hrequests =>
    rw [List.append_nil]
    refine .right _ (.right _ (.left _ _ ?_))
    rw [hrequests]
    exact Nat.lt_succ_self _
  | clientData n _ hpos hle =>
    rw [List.append_nil]
    refine .right _ (.right _ (.right _ (.left _ _ ?_)))
    simp only [Transport.clientData]
    omega
  | clientFrame f fs hresponses =>
    obtain ⟨pending, heq⟩ := @RpcClient.handleFrame_eq p.deserialize s.shared.client f
    simp only [rank, Transport.clientFrame, RpcClient.enter, heq, List.append_nil]
    refine .right _ (.right _ (.right _ (.right _ (.left _ _ ?_))))
    rw [hresponses]
    exact Nat.lt_succ_self _
  | other connId event => exact hinternal.elim

theorem toSend_of_turn {c c' : RpcClient} {id : UInt64} {n : ℕ} {t' : RpcClient.Call}
    (h : RpcClient.Turn c id n c' t') : t'.toSend = 0 ∧ t'.toReturn < 2 := by
  cases h <;> exact ⟨rfl, by simp [RpcClient.Call.toReturn]⟩

theorem waits_or_returns {c c' : RpcClient} {id : UInt64} {n : ℕ} {t' : RpcClient.Call}
    (h : RpcClient.Turn c id n c' t') : (c' = c ∧ t' = .waiting id n) ∨ t'.toReturn < 1 := by
  cases h with
  | wait => exact .inl ⟨rfl, rfl⟩
  | disappeared => exact .inr Nat.zero_lt_one
  | completed => exact .inr Nat.zero_lt_one
  | deadline => exact .inr Nat.zero_lt_one

theorem nearer_act {l l' : List RpcClient.Call} {t t' : RpcClient.Call} {o : RpcClient.Choice}
    {c' : RpcClient} (hok : Lossless p s (.act l.length o))
    (hact : x.client.proceed t o = some (c', t'))
    (hne : (⟨{ x with client := c', sent := x.sent ++ t.sends o }, l ++ t' :: l'⟩ : State) ≠
      ⟨x, l ++ t :: l'⟩) :
    Nearer (rank ⟨{ x with client := c', sent := x.sent ++ t.sends o }, l ++ t' :: l'⟩)
      (rank ⟨x, l ++ t :: l'⟩) := by
  have hsend : t'.toSend < t.toSend →
      Nearer (rank ⟨{ x with client := c', sent := x.sent ++ t.sends o }, l ++ t' :: l'⟩)
        (rank ⟨x, l ++ t :: l'⟩) := by
    intro hlt
    refine .left _ _ ?_
    simp only [Machine.total_append, Machine.total_cons]
    omega
  have hreturn : (∃ pending, c' = { x.client with pending := pending }) →
      t'.toSend = t.toSend → t'.toReturn < t.toReturn →
      Nearer (rank ⟨{ x with client := c', sent := x.sent ++ t.sends o }, l ++ t' :: l'⟩)
        (rank ⟨x, l ++ t :: l'⟩) := by
    rintro ⟨pending, rfl⟩ heq hlt
    simp only [rank, Machine.total_append, Machine.total_cons, heq]
    refine .right _ (.right _ (.right _ (.right _ (.right _ ?_))))
    omega
  unfold RpcClient.proceed at hact
  split at hact
  · cases hact
    exact hsend (Nat.lt_succ_self 1)
  · cases hact
    exact hsend Nat.zero_lt_one
  · exact absurd rfl (hok.not_notSent _ _)
  · cases hact
    exact hreturn ⟨_, rfl⟩ rfl Nat.zero_lt_one
  · rename_i id n expired
    have hturn := RpcClient.turn_check x.client id n expired
    rw [Option.some.inj hact] at hturn
    exact hreturn hturn.client_eq (toSend_of_turn hturn).1 (toSend_of_turn hturn).2
  · rename_i id n timedOut expired
    have hturn := RpcClient.turn_wakeUp x.client id n timedOut expired
    rw [Option.some.inj hact] at hturn
    rcases waits_or_returns hturn with ⟨rfl, rfl⟩ | hlt
    · -- a wait that ends early and finds no reply leads back to the same state
      exact absurd (by simp [RpcClient.Call.sends]) hne
    · exact hreturn hturn.client_eq (toSend_of_turn hturn).1 hlt
  · cases hact
    exact hsend Nat.zero_lt_one
  · exact absurd rfl (hok.not_notSent _ _)
  · cases hact

/-- Going on leaves less to do. -/
theorem Advances.nearer (h : Advances p s u) : Nearer (rank u) (rank s) := by
  obtain ⟨a, hinternal, -, hok, hs, hne⟩ := h
  rcases step_cases hs with ⟨e, y, ts, rfl, he, rfl⟩ | ⟨o, c', t, t', l, l', rfl, hts, hact, rfl⟩
  · exact nearer_enters hinternal he
  · obtain ⟨x, ts⟩ := s
    subst hts
    exact nearer_act hok hact hne

/-! ## Stopping -/

/-- A service can always answer so that the reply fits. -/
theorem answer_fits (hfits : p.NotFoundFits) (i : Invocation) :
    ∀ g ∈ (RpcServerHandler.handleFrame p.services p.serialize i.frame (.ok [])).2,
      g.payload.length ≤ maxPayloadSize.toNat := by
  obtain ⟨d, -, hhandle, hresult⟩ :=
    @RpcServerHandler.handleFrame_frame p.services p.serialize i (.ok [])
  rw [hhandle]
  intro g hg
  change RpcServerHandler.responseFrame p.serialize d = some g at hg
  unfold RpcServerHandler.responseFrame at hg
  split at hg
  · cases hg
  · rw [hresult] at hg
    cases hservice : p.services i.serviceId with
    | true =>
      rw [hservice] at hg
      cases hg
      have hmax : 8 ≤ maxPayloadSize.toNat := by decide
      simpa [Frame.response, Frame.ofPayload] using hmax
    | false =>
      rw [hservice] at hg
      obtain ⟨b, hb, rfl⟩ := Option.map_eq_some_iff.1 hg
      have hlength := hfits i.serviceId b hservice hb
      simpa [Frame.error, Frame.ofPayload] using hlength

theorem advances_enters {e : Input} {y : Transport} {ts : List RpcClient.Call}
    (he : Enters p s.shared e y ts) (hinternal : Internal (.env e)) (hok : Lossless p s (.env e)) :
    Advances p s ⟨y, s.threads ++ ts⟩ := by
  refine ⟨.env e, hinternal, trivial, hok, Machine.step_env_iff.2 ⟨_, env_of_enters he, rfl⟩, ?_⟩
  intro heq
  have hnearer := nearer_enters hinternal he
  rw [heq] at hnearer
  exact nearer_wellFounded.asymmetric _ _ hnearer hnearer

theorem advances_act {l l' : List RpcClient.Call} {t t' : RpcClient.Call} {o : RpcClient.Choice}
    {c' : RpcClient} (hts : s.threads = l ++ t :: l') (hnotified : Notified s (.act l.length o))
    (hok : Lossless p s (.act l.length o))
    (hact : s.shared.client.proceed t o = some (c', t')) (hne : t' ≠ t) : ∃ u, Advances p s u := by
  have hstep : (system p).act s.shared t o =
      some ({ s.shared with client := c', sent := s.shared.sent ++ t.sends o }, t') := by
    simp only [system, act, hact, Option.map_some]
  refine ⟨_, .act l.length o, trivial, hnotified, hok, Machine.step_act_at hts hstep,
    fun heq => hne ?_⟩
  have hthreads : l ++ t' :: l' = s.threads := congrArg Config.threads heq
  rw [hts] at hthreads
  exact (List.cons.inj (List.append_cancel_left hthreads)).1

/-- When the transport stops, both streams have been read to their ends. -/
theorem channels_of_stopped (h : Delivers p s) (hfits : p.NotFoundFits)
    (hstop : ∀ u, ¬ Advances p s u) :
    s.shared.dispatched.map Dispatch.toInvocation = s.shared.sent ∧
      s.shared.client.arrived =
        s.shared.dispatched.filterMap (RpcServerHandler.responseFrame p.serialize) := by
  have hrequests : s.shared.requests = [] := by
    cases hx : s.shared.requests with
    | nil => rfl
    | cons f fs =>
      obtain ⟨i, -, rfl⟩ := h.wired.request_sent hx
      refine absurd (advances_enters (.serverFrame _ fs (.ok []) hx) trivial ?_) (hstop _)
      intro g hg
      rw [hx] at hg
      cases hg
      exact answer_fits hfits i
  have hresponses : s.shared.responses = [] := by
    cases hx : s.shared.responses with
    | nil => rfl
    | cons f fs => exact absurd (advances_enters (.clientFrame f fs hx) trivial trivial) (hstop _)
  have hup := h.wired.requests
  have hdown := h.wired.replies
  rw [hrequests] at hup
  rw [hresponses] at hdown
  have hreceived : s.shared.received = s.shared.client.sent.length := by
    by_contra hne
    have hle := hup.le
    refine hstop _ (advances_enters (.serverData
      (s.shared.client.sent.length - s.shared.received) hrequests ?_ ?_) trivial trivial) <;> omega
  have hreturned : s.shared.returned = s.shared.replies.length := by
    by_contra hne
    have hle := hdown.le
    refine hstop _ (advances_enters (.clientData
      (s.shared.replies.length - s.shared.returned) hresponses ?_ ?_) trivial trivial) <;> omega
  refine ⟨?_, hdown.all_taken hreturned⟩
  have hframes := hup.all_taken hreceived
  have hcomp : (s.shared.dispatched.map fun d => d.toInvocation.frame) =
      (s.shared.dispatched.map Dispatch.toInvocation).map Invocation.frame := by
    rw [List.map_map]
    rfl
  rw [hcomp] at hframes
  exact List.map_injective_iff.2 RpcServerHandler.frame_injective hframes

/-- When the transport stops, no call has a request still to send. -/
theorem unsent_of_stopped (hstop : ∀ u, ¬ Advances p s u) :
    ∀ t ∈ s.threads, t.unsent = none := by
  intro t ht
  obtain ⟨l, l', hts⟩ := List.append_of_mem ht
  have hgo : ∀ {o c' t'}, Notified s (.act l.length o) → Lossless p s (.act l.length o) →
      s.shared.client.proceed t o = some (c', t') → t' ≠ t → False := by
    intro o c' t' hnotified hok hact hne
    obtain ⟨u, hu⟩ := advances_act hts hnotified hok hact hne
    exact hstop u hu
  cases t with
  | registering id request => exact (hgo (o := .go) trivial trivial rfl (by simp)).elim
  | sending id request n => exact (hgo (o := .sent) trivial trivial rfl (by simp)).elim
  | oneWay id request => exact (hgo (o := .sent) trivial trivial rfl (by simp)).elim
  | _ => rfl

/-- When the transport stops, every request has been sent. -/
theorem sent_of_stopped (h : Delivers p s) (hstop : ∀ u, ¬ Advances p s u) :
    s.shared.sent.Perm s.shared.made := by
  have hmade := h.accounted.made
  rwa [List.filterMap_eq_nil_iff.2 (unsent_of_stopped hstop), List.append_nil] at hmade

/-- When the transport stops, the reply to every call that has been sent and is not
    one-way has arrived. -/
theorem replied_of_stopped (hcodec : p.RoundTrips) (hfits : p.NotFoundFits) (h : Delivers p s)
    (hstop : ∀ u, ¬ Advances p s u) {t : RpcClient.Call} (ht : t ∈ s.threads)
    (hflag : t.isOneWay = false) :
    ∃ f ∈ s.shared.client.arrived, ∃ r, RpcClient.replyOf p.deserialize f = some (t.id, r) := by
  obtain ⟨hdispatched, harrived⟩ := channels_of_stopped h hfits hstop
  have hcall : (t.id, false) ∈ s.shared.made.map fun i => (i.requestId, i.oneWay) := by
    rw [h.accounted.calls]
    exact List.mem_map.2 ⟨t, ht, by rw [hflag]⟩
  obtain ⟨i, hi, heq⟩ := List.mem_map.1 hcall
  obtain ⟨hid, honeWay⟩ := Prod.mk.inj heq
  have hsent := (sent_of_stopped h hstop).mem_iff.2 hi
  rw [← hdispatched] at hsent
  obtain ⟨d, hd, rfl⟩ := List.mem_map.1 hsent
  cases hresponse : RpcServerHandler.responseFrame p.serialize d with
  | none =>
    rw [RpcServerHandler.responseFrame_eq_none_iff hcodec.isSome, honeWay] at hresponse
    cases hresponse
  | some f =>
    refine ⟨f, harrived ▸ List.mem_filterMap.2 ⟨d, hd, hresponse⟩, d.result, ?_⟩
    rw [RpcServerHandler.replyOf_responseFrame hcodec.read hresponse, hid]

theorem ne_locking_of_turn {c c' : RpcClient} {id : UInt64} {n : ℕ} {t' : RpcClient.Call}
    (h : RpcClient.Turn c id n c' t') : t' ≠ .locking id n := by
  cases h <;> simp

/-- A turn that goes on to wait found no reply. -/
theorem entry_of_wait {c c' : RpcClient} {id : UInt64} {n : ℕ} {t' : RpcClient.Call}
    (h : RpcClient.Turn c id n c' t') (ht : t' = .waiting id n) :
    ∃ req, c.pending id = some req ∧ req.completed = false := by
  cases h with
  | wait req hreq hdone => exact ⟨req, hreq, hdone⟩
  | _ => cases ht

/-- When the transport stops, every call has returned. -/
theorem returned_of_stopped (hcodec : p.RoundTrips) (hfits : p.NotFoundFits) (h : Delivers p s)
    (hattended : ∀ t ∈ s.threads, t.Attended p.deserialize s.shared.client)
    (hstop : ∀ u, ¬ Advances p s u) : ∀ t ∈ s.threads, t.hasReturned = true := by
  have hunsent := unsent_of_stopped hstop
  intro t ht
  obtain ⟨l, l', hts⟩ := List.append_of_mem ht
  have hstay : ∀ {o} {r : RpcClient × RpcClient.Call}, Notified s (.act l.length o) →
      Lossless p s (.act l.length o) → s.shared.client.proceed t o = some r → r.2 = t := by
    intro o r hnotified hok hact
    by_contra hne
    obtain ⟨u, hu⟩ := advances_act hts hnotified hok hact hne
    exact hstop u hu
  cases t with
  | registering id request => cases hunsent _ ht
  | sending id request n => cases hunsent _ ht
  | oneWay id request => cases hunsent _ ht
  | failed id n error => exact (hattended _ ht).elim
  | locking id n =>
    have hturn := RpcClient.turn_check s.shared.client id n false
    exact absurd (hstay (o := .lock false) trivial rfl rfl) (ne_locking_of_turn hturn)
  | waiting id n =>
    -- the reply has arrived, so the entry is completed and the call has been notified
    obtain ⟨f, hf, r, hreply⟩ := replied_of_stopped hcodec hfits h hstop ht rfl
    obtain ⟨req, hreq, hnone⟩ := hattended _ ht
    have hdone : req.completed = true :=
      Bool.eq_true_of_not_eq_false fun hopen => hnone hopen f hf r hreply
    have hnotified : Notified s (.act l.length (.wake false false)) := by
      simp [Notified, RpcClient.replyStored, hts, hreq, hdone]
    have hturn := RpcClient.turn_wakeUp s.shared.client id n false false
    obtain ⟨req', hreq', hopen⟩ :=
      entry_of_wait hturn (hstay (o := .wake false false) hnotified ⟨rfl, rfl⟩ rfl)
    cases hreq.symm.trans hreq'
    rw [hdone] at hopen
    cases hopen
  | returned id n outcome found => rfl
  | oneWayReturned id result => rfl

/-! ## Calls -/

/-- The calls that a run makes, and whether they are one-way. -/
def invocations (as : List Step) : List (RpcClient.Request × Bool) :=
  as.filterMap fun
    | .env (.call request) => some (request, false)
    | .env (.callOneway request) => some (request, true)
    | _ => none

/-- The calls that a run makes, with their ids. -/
def invoked (as : List Step) : List Invocation :=
  (invocations as).mapIdx fun i call => call.1.invocation (UInt64.ofNat (i + 1)) call.2

theorem invoked_concat_of_internal (h : Internal a) : invoked (as ++ [a]) = invoked as := by
  unfold invoked invocations
  rw [List.filterMap_append]
  unfold Internal at h
  split at h
  all_goals first | exact h.elim | simp

theorem made_eq_invoked (h : Run (system p).step (Lossless p) (initial p server) as s) :
    s.shared.made = invoked as := by
  induction h with
  | refl => rfl
  | @snoc as s u a hrun hok hs ih =>
    obtain ⟨bs, hbs⟩ := run_clientPart hrun
    have hnext : s.shared.client.nextRequestId = UInt64.ofNat ((invocations as).length + 1) := by
      have hlength := congrArg List.length (delivers_of_run hrun).accounted.calls
      rw [ih, List.length_map, List.length_map, invoked, List.length_mapIdx] at hlength
      rw [hlength]
      exact (RpcClient.drawn_of_run hbs).next
    have hcall : ∀ {b} request flag, a = .env b → invocations [.env b] = [(request, flag)] →
        s.shared.made ++ [request.invocation s.shared.client.nextRequestId flag] =
          invoked (as ++ [a]) := by
      rintro b request flag rfl hinvocations
      rw [ih, hnext, invoked, invoked, show invocations (as ++ [.env b]) =
        invocations as ++ invocations [.env b] from List.filterMap_append, hinvocations,
        List.mapIdx_concat]
    have hother : invocations [a] = [] → s.shared.made = invoked (as ++ [a]) := by
      intro hinvocations
      rw [ih, invoked, invoked, show invocations (as ++ [a]) = invocations as ++ invocations [a]
        from List.filterMap_append, hinvocations, List.append_nil]
    rcases step_cases hs with ⟨e, y, ts, rfl, he, rfl⟩ | ⟨o, c', t, t', l, l', rfl, hts, hact, rfl⟩
    · cases he with
      | call request => exact hcall request false rfl rfl
      | callOneway request => exact hcall request true rfl rfl
      | _ => exact hother rfl
    · exact hother rfl

/-- There is a thread for each call. -/
theorem length_invoked (h : Run (system p).step (Lossless p) (initial p server) as s) :
    (invoked as).length = s.threads.length := by
  have hids := congrArg List.length (delivers_of_run h).accounted.ids
  rwa [List.length_map, List.length_map, made_eq_invoked h] at hids

/-! ## End to end -/

/-- What is right at all times: the dispatched requests are among the calls, each at
    most once. Services that are not found are answered so. The replies are those of
    the dispatched requests that are not one-way, in order. Calls that have returned
    got the result of their dispatch. -/
structure Faithful (p : Setup) (calls : List Invocation) (s : State) : Prop where
  callers : s.threads.map RpcClient.Call.id = calls.map Invocation.requestId
  dispatched : (s.shared.dispatched.map Dispatch.toInvocation).Subperm calls
  notFound : ∀ d ∈ s.shared.dispatched, p.services d.serviceId = false →
    d.result = .error (RpcError.serviceNotFound d.serviceId)
  replies : s.shared.replies =
    encodeAll (s.shared.dispatched.filterMap (RpcServerHandler.responseFrame p.serialize))
  noReply : ∀ d ∈ s.shared.dispatched,
    RpcServerHandler.responseFrame p.serialize d = none ↔ d.oneWay = true
  answers : ∀ t ∈ s.threads, t.Answers s.shared.dispatched

/-- Every call has been dispatched exactly once and has returned. -/
structure Complete (calls : List Invocation) (s : State) : Prop where
  dispatched : (s.shared.dispatched.map Dispatch.toInvocation).Perm calls
  returned : ∀ t ∈ s.threads, t.hasReturned = true

/-- Every dispatch says that a service is not found if it is not. -/
theorem notFound_of_run (h : Run (system p).step (Lossless p) (initial p server) as s) :
    ∀ d ∈ s.shared.dispatched, p.services d.serviceId = false →
      d.result = .error (RpcError.serviceNotFound d.serviceId) := by
  induction h with
  | refl => simp [initial]
  | snoc hrun _ hs ih =>
    rcases step_cases hs with ⟨e, y, ts, rfl, he, rfl⟩ | ⟨o, c', t, t', l, l', rfl, hts, hact, rfl⟩
    · cases he with
      | serverFrame f fs answer hrequests =>
        obtain ⟨i, -, rfl⟩ := (delivers_of_run hrun).wired.request_sent hrequests
        obtain ⟨d, rfl, hhandle, hresult⟩ :=
          @RpcServerHandler.handleFrame_frame p.services p.serialize i answer
        intro d' hd' hservice
        simp only [Transport.serverFrame, hhandle, Option.toList_some] at hd'
        rcases List.mem_append.1 hd' with hd' | hd'
        · exact ih d' hd' hservice
        · rw [List.mem_singleton.1 hd'] at hservice ⊢
          rw [hresult, hservice]
          rfl
      | _ => exact ih
    · exact ih

/-- A call that has returned a reply returned that of its own dispatch. -/
theorem answers_of_run (hcodec : p.RoundTrips)
    (h : Run (system p).step (Lossless p) (initial p server) as s)
    (hle : s.threads.length ≤ 2 ^ 64) : ∀ t ∈ s.threads, t.Answers s.shared.dispatched := by
  intro t ht
  have hattended := attended_of_run hcodec h hle t ht
  cases t with
  | returned id n outcome found =>
    obtain ⟨r, rfl⟩ := hattended
    obtain ⟨bs, hbs⟩ := run_clientPart h
    obtain ⟨f, hf, hreply⟩ := ((RpcClient.matched_of_run hbs).justified _ ht).returned id n r found rfl
    obtain ⟨d, hd, hid, hflag, hresult⟩ :=
      (delivers_of_run h).wired.reply_dispatched hcodec (List.mem_of_mem_drop hf) hreply
    exact ⟨d, hd, hid, hflag, congrArg some hresult.symm⟩
  | oneWayReturned id result => exact hattended
  | _ => trivial

theorem faithful_of_run (hcodec : p.RoundTrips)
    (h : Run (system p).step (Lossless p) (initial p server) as s)
    (hle : s.threads.length ≤ 2 ^ 64) : Faithful p (invoked as) s := by
  have hdelivers := delivers_of_run h
  refine ⟨?_, ?_, notFound_of_run h, ?_, ?_, answers_of_run hcodec h hle⟩
  · rw [← made_eq_invoked h, hdelivers.accounted.ids]
  · rw [← made_eq_invoked h]
    have hsent := (List.sublist_append_left s.shared.sent _).subperm.trans
      hdelivers.accounted.made.subperm
    exact hdelivers.wired.dispatched_sent.sublist.subperm.trans hsent
  · have heq := eq_of_reads hdelivers.wired.replies.reads
    rwa [List.append_nil] at heq
  · exact fun d _ => RpcServerHandler.responseFrame_eq_none_iff hcodec.isSome

/-- A run that has come to `s` and makes no more calls than these. -/
def Reached (p : Setup) (server : RpcServerHandler) (calls : List Invocation) (s : State) : Prop :=
  ∃ as, Run (system p).step (Lossless p) (initial p server) as s ∧ invoked as = calls ∧
    s.threads.length ≤ 2 ^ 64

theorem Reached.advance {calls : List Invocation} (h : Reached p server calls s)
    (hadv : Advances p s u) : Reached p server calls u := by
  obtain ⟨as, hrun, hcalls, hle⟩ := h
  obtain ⟨a, hinternal, -, hok, hs, -⟩ := hadv
  refine ⟨as ++ [a], hrun.snoc hok hs, (invoked_concat_of_internal hinternal).trans hcalls, ?_⟩
  rcases step_cases hs with ⟨e, y, ts, rfl, he, rfl⟩ | ⟨o, c', t, t', l, l', rfl, hts, hact, rfl⟩
  · cases he with
    | call request => exact hinternal.elim
    | callOneway request => exact hinternal.elim
    | _ => simpa using hle
  · rw [hts] at hle
    simpa using hle

theorem complete_of_stopped (hcodec : p.RoundTrips) (hfits : p.NotFoundFits)
    {calls : List Invocation} (h : Reached p server calls s) (hstop : ∀ u, ¬ Advances p s u) :
    Complete calls s := by
  obtain ⟨as, hrun, rfl, hle⟩ := h
  have hdelivers := delivers_of_run hrun
  have hattended := attended_of_run hcodec hrun hle
  refine ⟨?_, returned_of_stopped hcodec hfits hdelivers hattended hstop⟩
  rw [(channels_of_stopped hdelivers hfits hstop).1, ← made_eq_invoked hrun]
  exact sent_of_stopped hdelivers hstop

end Transport

/-! ## `bincode` at `RpcError` -/

namespace Bincode

def statuses : List RpcStatus :=
  [.ok, .cancelled, .invalidArgument, .notFound, .alreadyExists, .permissionDenied,
    .unauthenticated, .resourceExhausted, .internal, .unavailable, .deadlineExceeded]

/-- The index of the status in four bytes, the length of the message in eight, and
    the message in UTF-8. -/
def serialize (e : RpcError) : Option (List UInt8) :=
  let message := e.message.toByteArray.data.toList
  some (LittleEndian.toBytes 4 (statuses.idxOf e.status) ++
    LittleEndian.toBytes 8 message.length ++ message)

def deserialize (bs : List UInt8) : Option RpcError :=
  let message := bs.drop 12
  if (bs.drop 4).take 8 = LittleEndian.toBytes 8 message.length then
    statuses[LittleEndian.ofBytes (bs.take 4)]?.bind fun status =>
      (String.fromUTF8? ⟨message.toArray⟩).map fun message => ⟨status, message⟩
  else none

theorem deserialize_serialize (e : RpcError) :
    ∃ b, serialize e = some b ∧ deserialize b = some e := by
  refine ⟨_, rfl, ?_⟩
  obtain ⟨status, message⟩ := e
  have hindex : LittleEndian.ofBytes (LittleEndian.toBytes 4 (statuses.idxOf status)) =
      statuses.idxOf status := by
    refine LittleEndian.ofBytes_toBytes ?_
    cases status <;> decide
  have hstatus : statuses[statuses.idxOf status]? = some status := by cases status <;> rfl
  have hmessage : String.fromUTF8? message.toByteArray = some message := by
    simp [String.fromUTF8?, message.isValidUTF8, String.fromUTF8]
  generalize hbytes : message.toByteArray.data.toList = bytes
  have hback : (⟨bytes.toArray⟩ : ByteArray) = message.toByteArray := by rw [← hbytes]
  have hempty : (LittleEndian.toBytes 4 (statuses.idxOf status)).drop 12 = [] :=
    List.drop_eq_nil_of_le (by simp)
  simp [deserialize, List.drop_append, hindex, hstatus, hempty, hback, hmessage]

end Bincode

namespace Transport

/-- A server on which the service 5 is not registered. -/
def exampleSetup : Setup := ⟨1, fun id => id != 5, Bincode.serialize, Bincode.deserialize⟩

/-- Two calls and a one-way call. The requests and the replies are cut inside of
    headers, and the calls return in the other order. -/
def exampleRun : List Step :=
  [.env (.call ⟨0, 1, [7]⟩), .env (.call ⟨5, 2, []⟩), .env (.callOneway ⟨0, 3, [8]⟩),
    .act 0 .go, .act 1 .go, .act 0 .sent, .act 1 .sent, .act 2 .sent,
    .act 0 (.lock false), .act 1 (.lock false), .env (.serverData 5), .env (.serverData 60),
    .env (.serverFrame (.ok [9])), .env (.clientData 3), .env (.serverFrame (.ok [])),
    .env (.serverFrame (.ok [])), .env (.clientData 64), .env .clientFrame, .env .clientFrame,
    .act 1 (.wake false false), .act 0 (.wake false false)]

end Transport
