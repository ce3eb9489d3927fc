-- SUMMARY: The RPC client and server on top of their sockets, their event loops of one worker and their TCP handlers: what happens there happens over the transport with its in-order channels.
import MillIo.Connection.Order
import MillIo.Interleaving.View
import MillIo.Rpc.EndToEnd

/-!
# The RPC stack

What one end writes arrives at the socket of the other in pieces. A readiness event takes a
worker to it, which reads, calls `on_data`, and has handled all frames that this completes
when `on_data` returns. The transport takes it for granted that chunks come in order and one
at a time. With one worker at each end they do.
-/

open Interleaving Protocol

/-! ## One end of the connection -/

namespace Io

/-- A connection whose `on_connect` has returned, and an idle worker. -/
def established (β : Type*) : State β where
  shared :=
    { received := [], unread := [], closed := false, armed := false, events := []
      pool := .new 1, polled := true, owner := some .self, listed := true
      held := [], delivered := [] }
  threads := [⟨some 0, .idle⟩, ⟨none, .idle⟩]

/-- The bytes with which the step calls `on_data`. -/
def passes {β : Type*} (s : State β) : Step β → Option (List β)
  | .act i .go => s.threads[i]?.bind fun t => match t.phase with
    | .calling _ => t.worker.bind fun w => (heldBy w s.shared.held).map Prod.fst
    | _ => none
  | _ => none

def Phase.isHandling : Phase → Bool
  | handling _ => true
  | _ => false

/-- The step ends a call of `on_data`. -/
def returns {β : Type*} (s : State β) : Step β → Bool
  | .act i _ => s.threads[i]?.any fun t => t.phase.isHandling
  | .env _ => false

/-- What arrives is what has been written and has not arrived yet. -/
def Arrives {β : Type*} (written : List β) (s : State β) : Step β → Prop
  | .env (.arrive items) => s.shared.received ++ items <+: written
  | _ => True

instance {β : Type*} [DecidableEq β] (written : List β) (s : State β) :
    DecidablePred (Arrives written s)
  | .env (.arrive _) => inferInstanceAs (Decidable (_ <+: _))
  | .env .ends => .isTrue trivial
  | .env (.poll _) => .isTrue trivial
  | .env .dispatch => .isTrue trivial
  | .env .execOther => .isTrue trivial
  | .env (.execShared _) => .isTrue trivial
  | .env .replace => .isTrue trivial
  | .env .remove => .isTrue trivial
  | .env .close => .isTrue trivial
  | .act _ _ => .isTrue trivial

/-- The connection is neither closed nor lost, and no callback fails. -/
def Intact {β : Type*} : Step β → Prop
  | .env .ends => False
  | .env .close => False
  | .act _ .fail => False
  | .act _ .eof => False
  | .act _ .error => False
  | _ => True

instance {β : Type*} : DecidablePred (Intact : Step β → Prop)
  | .env .ends => .isFalse fun h => h
  | .env .close => .isFalse fun h => h
  | .env (.arrive _) => .isTrue trivial
  | .env (.poll _) => .isTrue trivial
  | .env .dispatch => .isTrue trivial
  | .env .execOther => .isTrue trivial
  | .env (.execShared _) => .isTrue trivial
  | .env .replace => .isTrue trivial
  | .env .remove => .isTrue trivial
  | .act _ .fail => .isFalse fun h => h
  | .act _ .eof => .isFalse fun h => h
  | .act _ .error => .isFalse fun h => h
  | .act _ .go => .isTrue trivial
  | .act _ (.data _) => .isTrue trivial
  | .act _ .accept => .isTrue trivial
  | .act _ .wouldBlock => .isTrue trivial

section OneWorker

variable {β : Type*} {k : Source} {s u : State β} {a : Step β} {as : List (Step β)}
  {written written' bytes : List β} {given : ℕ} {busy busy' : Prop}

theorem established_of_initial (hk : k ≠ .listener) :
    ∃ as, Run (system β k).step Unrestricted (initial β k 1) as (established β) := by
  cases k with
  | server => exact ⟨[.act 1 .go, .act 1 .go, .act 1 .go, .act 1 .go], .of_exec rfl⟩
  | client => exact ⟨[.act 1 .go, .act 1 .go, .act 1 .go], .of_exec rfl⟩
  | listener => exact absurd rfl hk

/-- What the only worker has to do with the bytes. -/
structure OneWorker (s : State β) : Prop where
  inOrder : InOrder s.shared
  alone : s.threads.filterMap Thread.worker = [0]
  single : s.shared.held.length ≤ 1
  some_held : ∀ p ∈ s.shared.held, p.2 ≠ []

theorem held_ne_nil_of_run {workers : ℕ} {ok : State β → Step β → Prop}
    (h : Run (system β k).step ok (initial β k workers) as s) : ∀ p ∈ s.shared.held, p.2 ≠ [] := by
  refine h.invariant (I := fun s => ∀ p ∈ s.shared.held, p.2 ≠ []) (fun p hp => nomatch hp) ?_
  intro s a u hne _ hs
  rcases step_cases hs with ⟨e, y, ts, rfl, he, rfl⟩ | ⟨o, x', t, p', l, l', rfl, hts, hact, rfl⟩
  · cases he <;> exact hne
  · obtain ⟨worker, p⟩ := t
    simp only at hact
    cases hact with
    | data writable i n _ _ hpos _ hle =>
      refine List.forall_mem_append.2 ⟨hne, List.forall_mem_singleton.2 fun hnil => ?_⟩
      have hlength := congrArg List.length hnil
      simp only [List.length_take, List.length_nil] at hlength
      omega
    | call writable i bytes rest _ hheld =>
      obtain ⟨pre, post, heq, rfl⟩ := heldBy_spec hheld
      rw [heq] at hne
      intro p hp
      refine hne p ?_
      rcases List.mem_append.1 hp with hp | hp
      · exact List.mem_append_left _ hp
      · exact List.mem_append_right _ (List.mem_cons_of_mem _ hp)
    | _ => exact hne

theorem oneWorker_of_run (hk : k ≠ .listener)
    (h : Run (system β k).step Unrestricted (initial β k 1) as s) : OneWorker s := by
  refine ⟨inOrder_of_run hk (inTurn_of_one_worker (Nat.le_refl 1) h), workers_of_run h, ?_,
    held_ne_nil_of_run h⟩
  have hle := (callers_sublist_workers s.threads).length_le
  rwa [workers_of_run h, ← (callers_of_run h).length_eq, List.length_map] at hle

/-- The bytes on their way from the other end to `on_data`, of which `given` have come there.
    While frames are being handled, the worker is in `on_data`. -/
structure Wire (written : List β) (given : ℕ) (busy : Prop) (s : State β) : Prop where
  arrived : s.shared.received <+: written
  given : s.shared.delivered.length = given
  handling : busy → ∀ t ∈ s.threads, t.worker ≠ none → t.phase.isHandling = true

theorem Wire.mono (h : Wire written given busy s) (hwritten : written <+: written')
    (hbusy : busy' → busy) : Wire written' given busy' s :=
  ⟨h.arrived.trans hwritten, h.given, fun hb => h.handling (hbusy hb)⟩

/-- A step that does not call `on_data`. -/
theorem Wire.silent (h : Wire written given busy s) (hk : k ≠ .listener)
    (harrives : Arrives written s a) (hreturns : returns s a = true → ¬ busy)
    (hs : (system β k).step s a = some u) (hsilent : passes s a = none) :
    Wire written given busy u := by
  rcases step_cases hs with ⟨e, y, ts, rfl, he, rfl⟩ | ⟨o, x', t, p', l, l', rfl, hts, hact, rfl⟩
  · have hnew : ∀ t ∈ ts, t.worker = none := by
      cases he with
      | closeConnection =>
        intro t ht
        rw [List.mem_singleton.1 ht]
      | _ => exact fun t ht => nomatch ht
    have hthreads : busy → ∀ t ∈ s.threads ++ ts, t.worker ≠ none → t.phase.isHandling = true :=
      fun hb => List.forall_mem_append.2 ⟨h.handling hb, fun t ht hw => absurd (hnew t ht) hw⟩
    cases he with
    | arrive items _ => exact ⟨harrives, h.given, hthreads⟩
    | _ => exact ⟨h.arrived, h.given, hthreads⟩
  · obtain ⟨x, ts⟩ := s
    obtain rfl : ts = l ++ t :: l' := hts
    have hthreads : busy → ∀ t' ∈ l ++ ⟨t.worker, p'⟩ :: l', t'.worker ≠ none →
        t'.phase.isHandling = true := by
      intro hb
      obtain ⟨ht, hrest⟩ := Machine.forall_threads_at.1 (h.handling hb)
      refine Machine.forall_threads_at.2 ⟨fun hw => ?_, hrest⟩
      exact absurd hb (hreturns (by simp [returns, ht hw]))
    have hkeep : x'.received = x.received → x'.delivered = x.delivered →
        Wire written given busy ⟨x', l ++ ⟨t.worker, p'⟩ :: l'⟩ := by
      intro hreceived hdelivered
      refine ⟨?_, ?_, hthreads⟩
      · rw [hreceived]
        exact h.arrived
      · rw [hdelivered]
        exact h.given
    obtain ⟨worker, p⟩ := t
    cases hact with
    | call writable i bytes rest hworker hheld =>
      subst hworker
      simp [passes, hheld] at hsilent
    | accept _ _ _ hlistener => exact absurd hlistener hk
    | _ => exact hkeep rfl rfl

/-- A step that calls `on_data`: no frame is being handled, and the bytes are the next. -/
theorem Wire.call (h : Wire written given busy s) (hk : k ≠ .listener) (ho : OneWorker s)
    (hs : (system β k).step s a = some u) (hpasses : passes s a = some bytes) :
    ¬ busy ∧ 0 < bytes.length ∧ given + bytes.length ≤ written.length ∧
      (written.drop given).take bytes.length = bytes ∧
      ∀ busy', Wire written (given + bytes.length) busy' u := by
  rcases step_cases hs with ⟨e, y, ts, rfl, he, rfl⟩ | ⟨o, x', t, p', l, l', rfl, hts, hact, rfl⟩
  · cases hpasses
  · obtain ⟨x, ts⟩ := s
    obtain rfl : ts = l ++ t :: l' := hts
    obtain ⟨worker, p⟩ := t
    cases hact with
    | call writable i bytes' rest hworker hheld =>
      subst hworker
      obtain rfl : bytes' = bytes := by simpa [passes, hheld] using hpasses
      obtain ⟨pre, post, heq, rfl⟩ := heldBy_spec hheld
      obtain ⟨hinOrder, halone, hsingle, hne⟩ := ho
      simp only at heq hinOrder hsingle hne
      have hnil : pre = [] ∧ post = [] := by
        rw [heq, List.length_append, List.length_cons] at hsingle
        exact ⟨List.eq_nil_of_length_eq_zero (by omega), List.eq_nil_of_length_eq_zero (by omega)⟩
      obtain ⟨rfl, rfl⟩ := hnil
      obtain ⟨rest, hrest⟩ := h.arrived
      have hwritten : written = x.delivered ++ (bytes' ++ (x.unread ++ rest)) := by
        rw [← hrest, ← hinOrder, heq]
        simp
      have hgiven : x.delivered.length = given := h.given
      refine ⟨fun hb => ?_, ?_, ?_, ?_, fun busy' => ⟨h.arrived, ?_, fun _ => ?_⟩⟩
      · have hhandling := (Machine.forall_threads_at.1 (h.handling hb)).1 (by simp)
        cases hhandling
      · exact List.length_pos_of_ne_nil (hne (i, bytes') (by simp [heq]))
      · rw [hwritten, ← hgiven]
        simp only [List.length_append]
        omega
      · rw [hwritten, ← hgiven]
        simp
      · simp only [List.length_append, hgiven]
      · -- the others are no workers
        refine Machine.forall_threads_at.2 ⟨fun _ => rfl, fun t' ht' hworker => ?_⟩
        have hothers : (l ++ l').filterMap Thread.worker = [] := by
          have hlength := congrArg List.length halone
          simp only [List.filterMap_append, List.filterMap_cons, List.length_append,
            List.length_cons, List.length_nil] at hlength
          rw [List.filterMap_append]
          exact List.eq_nil_of_length_eq_zero (by rw [List.length_append]; omega)
        exact absurd (List.filterMap_eq_nil_iff.1 hothers t' ht') hworker
    | accepted _ _ hlistener => exact absurd hlistener hk
    | _ => simp [passes] at hpasses

end OneWorker

end Io

/-! ## What the client writes -/

namespace RpcClient

theorem sent_of_acts {c c' : RpcClient} {t t' : Call} (h : Acts c t c' t') : c.sent <+: c'.sent := by
  have hturn : ∀ {i n d d'}, Turn c i n d d' → c.sent <+: d.sent := by
    intro i n d d' hturn
    cases hturn <;> exact List.prefix_refl _
  have hsend : ∀ bytes, c.sent <+: (c.send bytes).sent := by
    intro bytes
    unfold send
    split
    · exact List.prefix_append _ _
    · exact List.prefix_refl _
  cases h with
  | register | fail => exact List.prefix_refl _
  | lock i n expired => exact hturn (turn_check c i n expired)
  | wake i n timedOut expired => exact hturn (turn_wakeUp c i n timedOut expired)
  | sent | notSent | sentOneWay | notSentOneWay => exact hsend _

theorem sent_handleFrame (deserialize : List UInt8 → Option RpcError) (c : RpcClient) (f : Frame) :
    (c.handleFrame deserialize f).sent = c.sent := by
  unfold handleFrame
  split
  · unfold complete
    split <;> rfl
  · rfl

end RpcClient

/-! ## The stack -/

/-- The client and the server of the transport, and the TCP handlers and workers below them. -/
structure Stack where
  rpc : Transport.State
  server : Io.State UInt8
  client : Io.State UInt8

namespace Stack

inductive Step
  /-- A step of a call, of `handle_frame`, or of another connection of the server. -/
  | rpc (a : Transport.Step)
  | server (a : Io.Step UInt8)
  | client (a : Io.Step UInt8)

/-- A step that brings bytes to `on_data`, which is left to the workers here. -/
def feeds : Transport.Step → Bool
  | .env (.serverData _) => true
  | .env (.clientData _) => true
  | _ => false

/-- `on_data` of the server on the bytes that a worker passes. -/
def serverCall (p : Setup) (x : Transport) (bytes : List UInt8) : Transport :=
  let r := x.server.onData p.connId bytes
  { x with
    server := r.2, requests := x.requests ++ r.1, received := x.received + bytes.length }

/-- `on_data` of the client on the bytes that a worker passes. -/
def clientCall (x : Transport) (bytes : List UInt8) : Transport :=
  let r := RpcClientHandler.onData x.recvBuf bytes
  { x with
    recvBuf := r.2, responses := x.responses ++ r.1, returned := x.returned + bytes.length }

/-- A worker returns from `on_data` when the frames are handled. -/
def step (p : Setup) (s : Stack) : Step → Option Stack
  | .rpc a =>
    if feeds a then none
    else ((Transport.system p).step s.rpc a).map fun r => { s with rpc := r }
  | .server a =>
    if Io.Arrives s.rpc.shared.client.sent s.server a ∧
        (Io.returns s.server a = true → s.rpc.shared.requests = []) then
      ((Io.system UInt8 .server).step s.server a).map fun v =>
        { s with
          server := v
          rpc.shared := (Io.passes s.server a).elim s.rpc.shared (serverCall p s.rpc.shared) }
    else none
  | .client a =>
    if Io.Arrives s.rpc.shared.replies s.client a ∧
        (Io.returns s.client a = true → s.rpc.shared.responses = []) then
      ((Io.system UInt8 .client).step s.client a).map fun v =>
        { s with
          client := v
          rpc.shared := (Io.passes s.client a).elim s.rpc.shared (clientCall s.rpc.shared) }
    else none

/-- A client that has just connected to a server, which has run `on_connect`. -/
def initial (p : Setup) (server : RpcServerHandler) : Stack :=
  ⟨Transport.initial p server, Io.established UInt8, Io.established UInt8⟩

/-- The sockets take all that is written, the payloads fit, no timeout expires, and the
    connection stays open. -/
def Lossless (p : Setup) (s : Stack) : Step → Prop
  | .rpc a => Transport.Lossless p s.rpc a
  | .server a => Io.Intact a
  | .client a => Io.Intact a

instance (p : Setup) : DecidableRel (Lossless p)
  | s, .rpc a => inferInstanceAs (Decidable (Transport.Lossless p s.rpc a))
  | _, .server a => inferInstanceAs (Decidable (Io.Intact a))
  | _, .client a => inferInstanceAs (Decidable (Io.Intact a))

def Step.rpc? : Step → Option Transport.Step
  | .rpc a => some a
  | _ => none

/-- The calls that a run makes, with their ids. -/
def invoked (as : List Step) : List Invocation := Transport.invoked (as.filterMap Step.rpc?)

/-! ## What a step can do -/

variable {p : Setup} {server : RpcServerHandler} {s u : Stack} {as : List Step} {b : Step}

inductive Steps (p : Setup) (s : Stack) : Step → Stack → Prop
  | rpc (a : Transport.Step) (r : Transport.State) : feeds a = false →
      (Transport.system p).step s.rpc a = some r → Steps p s (.rpc a) { s with rpc := r }
  | server (a : Io.Step UInt8) (v : Io.State UInt8) :
      Io.Arrives s.rpc.shared.client.sent s.server a →
      (Io.returns s.server a = true → s.rpc.shared.requests = []) →
      (Io.system UInt8 .server).step s.server a = some v →
      Steps p s (.server a)
        { s with
          server := v
          rpc.shared := (Io.passes s.server a).elim s.rpc.shared (serverCall p s.rpc.shared) }
  | client (a : Io.Step UInt8) (v : Io.State UInt8) :
      Io.Arrives s.rpc.shared.replies s.client a →
      (Io.returns s.client a = true → s.rpc.shared.responses = []) →
      (Io.system UInt8 .client).step s.client a = some v →
      Steps p s (.client a)
        { s with
          client := v
          rpc.shared := (Io.passes s.client a).elim s.rpc.shared (clientCall s.rpc.shared) }

theorem steps_of_step (h : step p s b = some u) : Steps p s b u := by
  cases b with
  | rpc a =>
    simp only [step] at h
    split at h
    · cases h
    · rename_i hfeeds
      obtain ⟨r, hr, rfl⟩ := Option.map_eq_some_iff.1 h
      exact .rpc a r (eq_false_of_ne_true hfeeds) hr
  | server a =>
    simp only [step] at h
    split at h
    · rename_i hok
      obtain ⟨v, hv, rfl⟩ := Option.map_eq_some_iff.1 h
      exact .server a v hok.1 hok.2 hv
    · cases h
  | client a =>
    simp only [step] at h
    split at h
    · rename_i hok
      obtain ⟨v, hv, rfl⟩ := Option.map_eq_some_iff.1 h
      exact .client a v hok.1 hok.2 hv
    · cases h

/-! ## The two connections -/

theorem oneWorker_of_run {ok : Stack → Step → Prop}
    (h : Run (step p) ok (initial p server) as s) :
    Io.OneWorker s.server ∧ Io.OneWorker s.client := by
  have hruns :
      (∃ bs, Run (Io.system UInt8 .server).step Unrestricted (Io.initial UInt8 .server 1) bs s.server) ∧
      ∃ bs, Run (Io.system UInt8 .client).step Unrestricted (Io.initial UInt8 .client 1) bs s.client := by
    induction h with
    | refl => exact ⟨Io.established_of_initial (by decide), Io.established_of_initial (by decide)⟩
    | snoc _ _ hs ih =>
      obtain ⟨⟨bs, hbs⟩, cs, hcs⟩ := ih
      cases steps_of_step hs with
      | rpc => exact ⟨⟨bs, hbs⟩, cs, hcs⟩
      | server a v _ _ hv => exact ⟨⟨bs ++ [a], hbs.snoc trivial hv⟩, cs, hcs⟩
      | client a v _ _ hv => exact ⟨⟨bs, hbs⟩, cs ++ [a], hcs.snoc trivial hv⟩
  obtain ⟨⟨bs, hbs⟩, cs, hcs⟩ := hruns
  exact ⟨Io.oneWorker_of_run (by decide) hbs, Io.oneWorker_of_run (by decide) hcs⟩

theorem serverCall_eq {x : Transport} {bytes : List UInt8} (hempty : x.requests = [])
    (hbytes : (x.client.sent.drop x.received).take bytes.length = bytes) :
    serverCall p x bytes = x.serverData p bytes.length := by
  simp only [serverCall, Transport.serverData, hbytes, hempty, List.nil_append]

theorem clientCall_eq {x : Transport} {bytes : List UInt8} (hempty : x.responses = [])
    (hbytes : (x.replies.drop x.returned).take bytes.length = bytes) :
    clientCall x bytes = x.clientData bytes.length := by
  simp only [clientCall, Transport.clientData, hbytes, hempty, List.nil_append]

/-- The bytes on their way to `on_data` of the server, and to that of the client. -/
structure Wired (s : Stack) : Prop where
  down : Io.Wire s.rpc.shared.client.sent s.rpc.shared.received (s.rpc.shared.requests ≠ []) s.server
  up : Io.Wire s.rpc.shared.replies s.rpc.shared.returned (s.rpc.shared.responses ≠ []) s.client

/-- What `on_data` is not called for writes more, at most, and handles frames. -/
theorem Wired.rpc {a : Transport.Step} {r : Transport.State} (h : Wired s) (hfeeds : feeds a = false)
    (hr : (Transport.system p).step s.rpc a = some r) : Wired { s with rpc := r } := by
  obtain ⟨⟨x, ts⟩, io, io'⟩ := s
  rcases Transport.step_cases hr with ⟨e, y, ts', rfl, he, rfl⟩ | ⟨o, c', t, t', l, l', rfl, hts, hact, rfl⟩
  · cases he with
    | serverData | clientData => cases hfeeds
    | serverFrame f fs answer hrequests =>
      refine ⟨h.down.mono (List.prefix_refl _) fun _ => ?_, h.up.mono (List.prefix_append _ _) id⟩
      rw [hrequests]
      exact List.cons_ne_nil f fs
    | clientFrame f fs hresponses =>
      refine ⟨h.down.mono ?_ id, h.up.mono (List.prefix_refl _) fun _ => ?_⟩
      · have hsent := RpcClient.sent_handleFrame p.deserialize x.client f
        exact ⟨[], (List.append_nil _).trans hsent.symm⟩
      · rw [hresponses]
        exact List.cons_ne_nil f fs
    | _ => exact ⟨h.down, h.up⟩
  · exact ⟨h.down.mono (RpcClient.sent_of_acts (RpcClient.acts_of_proceed hact)) id, h.up⟩

theorem wired_of_run (h : Run (step p) (Lossless p) (initial p server) as s) : Wired s := by
  refine h.invariant_of (I := Wired) (fun _ _ hr => oneWorker_of_run hr) ?_ ?_
  · refine ⟨⟨List.prefix_refl _, rfl, fun hb => ?_⟩, ⟨List.prefix_refl _, rfl, fun hb => ?_⟩⟩
    · exact absurd rfl hb
    · exact absurd rfl hb
  · rintro s b u ⟨hserver, hclient⟩ h _ hs
    cases steps_of_step hs with
    | rpc a r hfeeds hr => exact h.rpc hfeeds hr
    | server a v harrives hreturns hv =>
      cases hpasses : Io.passes s.server a with
      | none =>
        refine ⟨h.down.silent (by decide) harrives (fun hr hb => hb (hreturns hr)) hv hpasses, h.up⟩
      | some bytes =>
        obtain ⟨-, -, -, -, hwire⟩ := h.down.call (by decide) hserver hv hpasses
        exact ⟨hwire _, h.up⟩
    | client a v harrives hreturns hv =>
      cases hpasses : Io.passes s.client a with
      | none =>
        refine ⟨h.down, h.up.silent (by decide) harrives (fun hr hb => hb (hreturns hr)) hv hpasses⟩
      | some bytes =>
        obtain ⟨-, -, -, -, hwire⟩ := h.up.call (by decide) hclient hv hpasses
        exact ⟨h.down, hwire _⟩

/-! ## Refinement -/

/-- The call that a step of the transport makes, and whether it is one-way. -/
def madeCall : Transport.Step → Option (RpcClient.Request × Bool)
  | .env (.call request) => some (request, false)
  | .env (.callOneway request) => some (request, true)
  | _ => none

/-- A run of the stack is a run of the transport that makes the same calls. -/
theorem transport_run (h : Run (step p) (Lossless p) (initial p server) as s) :
    ∃ bs, bs.filterMap madeCall = as.filterMap (fun b => b.rpc?.bind madeCall) ∧
      Run (Transport.system p).step (Transport.Lossless p) (rpc (initial p server)) bs (rpc s) := by
  refine h.refines_upto (J := fun s => Wired s ∧ Io.OneWorker s.server ∧ Io.OneWorker s.client)
    (fun _ _ hr => ⟨wired_of_run hr, oneWorker_of_run hr⟩) ?_
  rintro s b u ⟨hwired, hserver, hclient⟩ hok hs
  cases steps_of_step hs with
  | rpc a r hfeeds hr => exact .inr ⟨a, rfl, hok, hr⟩
  | server a v harrives hreturns hv =>
    cases hpasses : Io.passes s.server a with
    | none => exact .inl ⟨rfl, rfl⟩
    | some bytes =>
      obtain ⟨hidle, hpos, hle, hbytes, -⟩ := hwired.down.call (by decide) hserver hv hpasses
      have hempty : s.rpc.shared.requests = [] := not_not.1 hidle
      refine .inr ⟨.env (.serverData bytes.length), rfl, trivial, ?_⟩
      refine Machine.step_env_iff.2 ⟨_, Transport.env_of_enters (p := p) (.serverData _ hempty hpos hle), ?_⟩
      simp [serverCall_eq hempty hbytes]
  | client a v harrives hreturns hv =>
    cases hpasses : Io.passes s.client a with
    | none => exact .inl ⟨rfl, rfl⟩
    | some bytes =>
      obtain ⟨hidle, hpos, hle, hbytes, -⟩ := hwired.up.call (by decide) hclient hv hpasses
      have hempty : s.rpc.shared.responses = [] := not_not.1 hidle
      refine .inr ⟨.env (.clientData bytes.length), rfl, trivial, ?_⟩
      refine Machine.step_env_iff.2 ⟨_, Transport.env_of_enters (p := p) (.clientData _ hempty hpos hle), ?_⟩
      simp [clientCall_eq hempty hbytes]

theorem invocations_eq (bs : List Transport.Step) :
    Transport.invocations bs = bs.filterMap madeCall := by
  refine List.filterMap_congr fun b _ => ?_
  cases b with
  | env e => cases e <;> rfl
  | act i o => rfl

/-- In every run over sockets that lose nothing, with an event loop of one worker at each end,
    whatever the pieces in which the bytes arrive and are read and whatever the order of events
    and calls: the client and the server do what they do over the transport, with the same calls.
    So each request is dispatched at most once and as it was made, and calls that have returned
    got the result of their own dispatch. -/
theorem faithful_over_sockets (hcodec : p.RoundTrips)
    (h : Run (step p) (Lossless p) (initial p server) as s) (hle : s.rpc.threads.length ≤ 2 ^ 64) :
    (∃ bs, Transport.invoked bs = invoked as ∧
      Run (Transport.system p).step (Transport.Lossless p) (Transport.initial p server) bs s.rpc) ∧
    Transport.Faithful p (invoked as) s.rpc := by
  obtain ⟨bs, hcalls, hbs⟩ := transport_run h
  have hinvoked : Transport.invoked bs = invoked as := by
    unfold invoked Transport.invoked
    rw [invocations_eq, invocations_eq, hcalls, List.filterMap_filterMap]
  refine ⟨⟨bs, hinvoked, hbs⟩, ?_⟩
  rw [← hinvoked]
  exact Transport.faithful_of_run hcodec hbs hle

/-- A request that arrives in two pieces, and its reply. -/
def oneCall : List Step :=
  let request := (Frame.request 1 0 1 [7] false).encode
  let reply := (Frame.response 1 [9]).encode
  [.rpc (.env (.call ⟨0, 1, [7]⟩)), .rpc (.act 0 .go), .rpc (.act 0 .sent), .rpc (.act 0 (.lock false)),
    .server (.env (.arrive (request.take 5))), .server (.env (.poll false)), .server (.env .dispatch),
    .server (.act 0 .go), .server (.act 0 .go), .server (.act 0 (.data 5)),
    .server (.env (.arrive (request.drop 5))), .server (.act 0 .go), .server (.act 0 .go),
    .server (.env (.poll true)), .server (.env .dispatch), .server (.act 0 .go), .server (.act 0 .go),
    .server (.act 0 (.data (request.length - 5))), .server (.act 0 .go), .rpc (.env (.serverFrame (.ok [9]))),
    .server (.act 0 .go), .server (.act 0 .go),
    .client (.env (.arrive reply)), .client (.env (.poll false)), .client (.env .dispatch),
    .client (.act 0 .go), .client (.act 0 .go), .client (.act 0 (.data reply.length)),
    .client (.act 0 .go), .rpc (.env .clientFrame), .client (.act 0 .go),
    .rpc (.act 0 (.wake false false))]

theorem faithful_over_sockets_one_call :
    ∃ s, Run (step Transport.exampleSetup) (Lossless Transport.exampleSetup)
        (initial Transport.exampleSetup ⟨fun _ => none⟩) oneCall s ∧
      (s.rpc.shared.dispatched = [⟨⟨1, 0, 1, [7], false⟩, .ok [9]⟩] ∧
        ∀ t ∈ s.rpc.threads, t.hasReturned = true) ∧
      Transport.Faithful Transport.exampleSetup (invoked oneCall) s.rpc := by
  obtain ⟨s, hrun, hdone, hlength⟩ :
      ∃ s, Run (step Transport.exampleSetup) (Lossless Transport.exampleSetup)
          (initial Transport.exampleSetup ⟨fun _ => none⟩) oneCall s ∧
        (s.rpc.shared.dispatched = [⟨⟨1, 0, 1, [7], false⟩, .ok [9]⟩] ∧
          ∀ t ∈ s.rpc.threads, t.hasReturned = true) ∧ s.rpc.threads.length ≤ 2 ^ 64 :=
    Run.exists_of_exec (by decide +kernel)
  have hcodec : Transport.exampleSetup.RoundTrips := Bincode.deserialize_serialize
  exact ⟨s, hrun, hdone, (faithful_over_sockets hcodec hrun hlength).2⟩

end Stack
