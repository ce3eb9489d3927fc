-- SUMMARY: On a lossless channel every reply answers one dispatch, and a call has its entry until its reply is in it.
import MillIo.Rpc.Delivery
import Mathlib.Data.List.Nodup

/-!
# Replies to calls

A call that has registered finds its entry whenever it looks, and finds its reply
there once the reply has arrived. The calls have different ids, so no other call
touches the entry.
-/

open Interleaving Protocol

/-- `bincode` writes every error, and reads it as it was written. -/
def Setup.RoundTrips (p : Setup) : Prop :=
  ∀ e, ∃ b, p.serialize e = some b ∧ p.deserialize b = some e

namespace Setup

variable {p : Setup}

theorem RoundTrips.isSome (h : p.RoundTrips) (e : RpcError) : (p.serialize e).isSome := by
  obtain ⟨b, hb, -⟩ := h e
  rw [hb]
  rfl

theorem RoundTrips.read (h : p.RoundTrips) (e : RpcError) (b : List UInt8)
    (hb : p.serialize e = some b) : p.deserialize b = some e := by
  obtain ⟨b', hb', hread⟩ := h e
  rw [hb] at hb'
  cases hb'
  exact hread

end Setup

namespace RpcClient

variable {deserialize : List UInt8 → Option RpcError} {c c' : RpcClient} {t t' : Call}
  {o : Choice} {id : UInt64} {f : Frame}

/-! ## Entries -/

/-- The entry is there, and if a reply has arrived then it is completed. -/
def Outstanding (deserialize : List UInt8 → Option RpcError) (c : RpcClient) (id : UInt64) : Prop :=
  ∃ req, c.pending id = some req ∧
    (req.completed = false → ∀ f ∈ c.arrived, ∀ r, replyOf deserialize f ≠ some (id, r))

/-- A call that waits for its reply has its entry, and one that has returned did so
    with a reply. -/
def Call.Attended (deserialize : List UInt8 → Option RpcError) (c : RpcClient) : Call → Prop
  | registering _ _ => True
  | sending id _ _ => Outstanding deserialize c id
  | failed _ _ _ => False
  | locking id _ => Outstanding deserialize c id
  | waiting id _ => Outstanding deserialize c id
  | returned _ _ outcome _ => ∃ r, outcome = .completed r
  | oneWay _ _ => True
  | oneWayReturned _ result => result = .ok ()

theorem Outstanding.of_eq (h : Outstanding deserialize c id) (hpending : c'.pending id = c.pending id)
    (harrived : c'.arrived = c.arrived) : Outstanding deserialize c' id := by
  obtain ⟨req, hreq, hnone⟩ := h
  exact ⟨req, hpending.trans hreq, harrived ▸ hnone⟩

theorem Call.Attended.of_eq (h : t.Attended deserialize c)
    (hpending : c'.pending t.id = c.pending t.id) (harrived : c'.arrived = c.arrived) :
    t.Attended deserialize c' := by
  cases t with
  | sending id request n => exact Outstanding.of_eq h hpending harrived
  | locking id n => exact Outstanding.of_eq h hpending harrived
  | waiting id n => exact Outstanding.of_eq h hpending harrived
  | _ => exact h

theorem outstanding_register (hnone : ∀ f ∈ c.arrived, ∀ r, replyOf deserialize f ≠ some (id, r)) :
    Outstanding deserialize (c.register id) id :=
  ⟨_, pending_register_self, fun _ => hnone⟩

/-- A reply that arrives is stored in the entry. -/
theorem Outstanding.frame (h : Outstanding deserialize c id) (f : Frame) :
    Outstanding deserialize { c.handleFrame deserialize f with arrived := c.arrived ++ [f] } id := by
  obtain ⟨req, hreq, hnone⟩ := h
  by_cases hreply : ∃ r, replyOf deserialize f = some (id, r)
  · obtain ⟨r, hr⟩ := hreply
    refine ⟨⟨true, some r⟩, ?_, fun hdone => by cases hdone⟩
    simp only [handleFrame, hr]
    exact pending_complete_self hreq r
  · rw [not_exists] at hreply
    refine ⟨req, (pending_handleFrame_of_ne hreply).trans hreq, fun hdone g hg => ?_⟩
    rcases List.mem_append.1 hg with hg | hg
    · exact hnone hdone g hg
    · rw [List.mem_singleton.1 hg]
      exact hreply

theorem Call.Attended.frame (h : t.Attended deserialize c) (f : Frame) :
    t.Attended deserialize { c.handleFrame deserialize f with arrived := c.arrived ++ [f] } := by
  cases t with
  | sending id request n => exact Outstanding.frame h f
  | locking id n => exact Outstanding.frame h f
  | waiting id n => exact Outstanding.frame h f
  | _ => exact h

/-! ## Steps of a call -/

theorem pending_turn_of_ne {n : ℕ} {i : UInt64} (h : Turn c id n c' t') (hne : i ≠ id) :
    c'.pending i = c.pending i ∧ c'.arrived = c.arrived := by
  cases h with
  | wait => exact ⟨rfl, rfl⟩
  | disappeared => exact ⟨rfl, rfl⟩
  | completed => exact ⟨pending_remove_of_ne hne, rfl⟩
  | deadline => exact ⟨pending_remove_of_ne hne, rfl⟩

/-- A call touches no entry but its own. -/
theorem pending_proceed_of_ne {i : UInt64} (h : c.proceed t o = some (c', t')) (hne : i ≠ t.id) :
    c'.pending i = c.pending i ∧ c'.arrived = c.arrived := by
  cases acts_of_proceed h with
  | register id request => exact ⟨pending_register_of_ne hne, rfl⟩
  | sent id request n => exact ⟨by rw [pending_send], arrived_send _⟩
  | notSent id request n error written => exact ⟨by rw [pending_send], arrived_send _⟩
  | fail id n error => exact ⟨pending_remove_of_ne hne, rfl⟩
  | lock id n expired => exact pending_turn_of_ne (turn_check c id n expired) hne
  | wake id n timedOut expired => exact pending_turn_of_ne (turn_wakeUp c id n timedOut expired) hne
  | sentOneWay id request => exact ⟨by rw [pending_send], arrived_send _⟩
  | notSentOneWay id request error written => exact ⟨by rw [pending_send], arrived_send _⟩

/-- A turn of the loop before the deadline returns the reply, or waits for it. -/
theorem attended_check (h : Outstanding deserialize c id) (hstored : Stored c) (n : ℕ) :
    (c.afterTurn id n (c.check id false)).2.Attended deserialize
      (c.afterTurn id n (c.check id false)).1 := by
  obtain ⟨⟨done, result⟩, hreq, hnone⟩ := h
  cases done with
  | false =>
    simp only [check, afterTurn, hreq, Bool.false_eq_true, if_false]
    exact ⟨_, hreq, hnone⟩
  | true =>
    cases result with
    | none => exact absurd hreq (hstored id)
    | some r =>
      simp only [check, afterTurn, hreq, if_true]
      exact ⟨r, rfl⟩

end RpcClient

namespace Transport

variable {p : Setup} {s u : State} {a : Step} {x : Transport} {server : RpcServerHandler}
  {as : List Step}

/-! ## Requests and replies -/

/-- What has been dispatched was sent, in the same order. -/
theorem Wired.dispatched_sent (h : Wired p x) :
    x.dispatched.map Dispatch.toInvocation <+: x.sent := by
  have hbegin := (List.prefix_append _ _).trans h.requests.isPrefix
  obtain ⟨sent, hsent, heq⟩ := List.prefix_map_iff.1 hbegin
  have hcomp : (x.dispatched.map fun d => d.toInvocation.frame) =
      (x.dispatched.map Dispatch.toInvocation).map Invocation.frame := by
    rw [List.map_map]
    rfl
  rw [hcomp] at heq
  rw [List.map_injective_iff.2 RpcServerHandler.frame_injective heq]
  exact hsent

/-- A reply that has arrived says what the dispatch of a request returned. -/
theorem Wired.reply_dispatched (h : Wired p x) (hcodec : p.RoundTrips) {f : Frame} {id : UInt64}
    {r : Except RpcError (List UInt8)} (hf : f ∈ x.client.arrived)
    (hreply : RpcClient.replyOf p.deserialize f = some (id, r)) :
    ∃ d ∈ x.dispatched, d.requestId = id ∧ d.oneWay = false ∧ d.result = r := by
  have hmem := h.replies.isPrefix.subset (List.mem_append_left _ hf)
  obtain ⟨d, hd, hresponse⟩ := List.mem_filterMap.1 hmem
  rw [RpcServerHandler.replyOf_responseFrame hcodec.read hresponse] at hreply
  cases hreply
  refine ⟨d, hd, rfl, ?_, rfl⟩
  have hnone := RpcServerHandler.responseFrame_eq_none_iff (d := d) hcodec.isSome
  rw [hresponse] at hnone
  simpa using hnone

theorem Accounted.ids (h : Accounted s) :
    s.shared.made.map Invocation.requestId = s.threads.map RpcClient.Call.id := by
  have hcalls := congrArg (List.map Prod.fst) h.calls
  simpa only [List.map_map, Function.comp_def] using hcalls

/-- The calls have different ids. -/
theorem ids_nodup (h : Run (system p).step (Lossless p) (initial p server) as s)
    (hle : s.threads.length ≤ 2 ^ 64) : (s.shared.made.map Invocation.requestId).Nodup := by
  obtain ⟨bs, hbs⟩ := run_clientPart h
  rw [(delivers_of_run h).accounted.ids]
  exact (RpcClient.drawn_of_run hbs).ids_nodup hle

/-- No reply to a call arrives before its request has been sent. -/
theorem Delivers.not_replied (h : Delivers p s) (hcodec : p.RoundTrips)
    (hnodup : (s.shared.made.map Invocation.requestId).Nodup) {t : RpcClient.Call} {i : Invocation}
    (ht : t ∈ s.threads) (hunsent : t.unsent = some i) :
    ∀ f ∈ s.shared.client.arrived, ∀ r,
      RpcClient.replyOf p.deserialize f ≠ some (i.requestId, r) := by
  intro f hf r hreply
  obtain ⟨d, hd, hid, -, -⟩ := h.wired.reply_dispatched hcodec hf hreply
  have hsent := h.wired.dispatched_sent.subset (List.mem_map_of_mem (f := Dispatch.toInvocation) hd)
  have hids := (h.accounted.made.map Invocation.requestId).nodup_iff.2 hnodup
  rw [List.map_append] at hids
  refine List.disjoint_of_nodup_append hids (List.mem_map_of_mem hsent) ?_
  rw [hid]
  exact List.mem_map_of_mem (List.mem_filterMap.2 ⟨t, ht, hunsent⟩)

/-! ## Whole runs -/

theorem Lossless.not_late {i : ℕ} {o : RpcClient.Choice} (h : Lossless p s (.act i o)) :
    (∀ expired, o = .lock expired → expired = false) ∧
      ∀ timedOut expired, o = .wake timedOut expired → timedOut = false ∧ expired = false := by
  constructor
  · rintro expired rfl
    exact h
  · rintro timedOut expired rfl
    exact h

/-- A step of a call keeps what is known of it. -/
theorem attended_act {t t' : RpcClient.Call} {o : RpcClient.Choice} {c' : RpcClient}
    {i : ℕ} (hok : Lossless p s (.act i o)) (hstored : RpcClient.Stored s.shared.client)
    (hnone : ∀ i, t.unsent = some i → ∀ f ∈ s.shared.client.arrived, ∀ r,
      RpcClient.replyOf p.deserialize f ≠ some (i.requestId, r))
    (ht : t.Attended p.deserialize s.shared.client)
    (hact : s.shared.client.proceed t o = some (c', t')) : t'.Attended p.deserialize c' := by
  unfold RpcClient.proceed at hact
  split at hact
  · cases hact
    exact RpcClient.outstanding_register (hnone _ rfl)
  · cases hact
    exact RpcClient.Outstanding.of_eq ht (by rw [RpcClient.pending_send]) (RpcClient.arrived_send _)
  · exact absurd rfl (hok.not_notSent _ _)
  · exact ht.elim
  · rename_i id n expired
    obtain ⟨rfl, rfl⟩ := Prod.mk.inj (Option.some.inj hact)
    rw [hok.not_late.1 expired rfl]
    exact RpcClient.attended_check ht hstored n
  · rename_i id n timedOut expired
    obtain ⟨rfl, rfl⟩ := Prod.mk.inj (Option.some.inj hact)
    obtain ⟨rfl, rfl⟩ := hok.not_late.2 timedOut expired rfl
    exact RpcClient.attended_check ht hstored n
  · cases hact
    rfl
  · exact absurd rfl (hok.not_notSent _ _)
  · cases hact

theorem attended_enters {e : Input} {y : Transport} {ts : List RpcClient.Call}
    (h : ∀ t ∈ s.threads, t.Attended p.deserialize s.shared.client)
    (he : Enters p s.shared e y ts) : ∀ t ∈ s.threads ++ ts, t.Attended p.deserialize y.client := by
  have hnew : ∀ (c : RpcClient) (t : RpcClient.Call), c.pending = s.shared.client.pending →
      c.arrived = s.shared.client.arrived → t.Attended p.deserialize c →
      ∀ t' ∈ s.threads ++ [t], t'.Attended p.deserialize c := by
    intro c t hpending harrived ht t' ht'
    rcases List.mem_append.1 ht' with ht' | ht'
    · exact (h t' ht').of_eq (by rw [hpending]) harrived
    · rw [List.mem_singleton.1 ht']
      exact ht
  cases he with
  | call request => exact hnew _ _ rfl rfl trivial
  | callOneway request => exact hnew _ _ rfl rfl trivial
  | clientFrame f fs =>
    intro t ht
    rw [List.append_nil] at ht
    exact (h t ht).frame f
  | setTimeout millis =>
    intro t ht
    rw [List.append_nil] at ht
    exact (h t ht).of_eq rfl rfl
  | _ =>
    intro t ht
    rw [List.append_nil] at ht
    exact h t ht

/-- Among at most `2 ^ 64` calls, each has its entry until its reply is in it, and
    returns that reply. -/
theorem attended_of_run (hcodec : p.RoundTrips)
    (h : Run (system p).step (Lossless p) (initial p server) as s)
    (hle : s.threads.length ≤ 2 ^ 64) :
    ∀ t ∈ s.threads, t.Attended p.deserialize s.shared.client := by
  induction h with
  | refl => simp [initial]
  | @snoc as s u a hrun hok hs ih =>
    obtain ⟨bs, hbs⟩ := run_clientPart hrun
    rcases step_cases hs with ⟨e, y, ts, rfl, he, rfl⟩ | ⟨o, c', t, t', l, l', rfl, hts, hact, rfl⟩
    · rw [List.length_append] at hle
      exact attended_enters (ih ((Nat.le_add_right _ _).trans hle)) he
    · have hle' : s.threads.length ≤ 2 ^ 64 := by
        rw [hts]
        simpa using hle
      have hids := ids_nodup hrun hle'
      have hdelivers := delivers_of_run hrun
      rw [hdelivers.accounted.ids, hts] at hids
      have hall := ih hle'
      rw [hts] at hall
      obtain ⟨hown, hrest⟩ := Machine.forall_threads_at.1 hall
      refine Machine.forall_threads_at.2 ⟨?_, fun t₂ ht₂ => ?_⟩
      · refine attended_act hok (RpcClient.matched_of_run hbs).stored (fun i hunsent => ?_) hown hact
        exact hdelivers.not_replied hcodec (ids_nodup hrun hle') (by rw [hts]; simp) hunsent
      · -- another call has another id
        have hne : t₂.id ≠ t.id := by
          intro heq
          rw [List.map_append, List.map_cons, List.nodup_middle] at hids
          refine (List.nodup_cons.1 hids).1 ?_
          rw [← List.map_append, ← heq]
          exact List.mem_map_of_mem ht₂
        obtain ⟨hpending, harrived⟩ := RpcClient.pending_proceed_of_ne hact hne
        exact (hrest t₂ ht₂).of_eq hpending harrived

end Transport
