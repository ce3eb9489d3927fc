-- SUMMARY: Replies reach only the call they answer, no entry outlives its call, and when a reply that has been stored is returned.
import MillIo.Rpc.Calls
import Mathlib.Data.List.Nodup

/-!
# Matching replies to calls

The invariant speaks of the entries of `pending`: each belongs to a call that has
registered and not returned, and a completed one holds a reply that arrived after
every such call had registered.
-/

namespace RpcClient

open Interleaving Protocol

variable {deserialize : List UInt8 → Option RpcError}

/-! ## Calls and replies -/

namespace Call

/-- The id of a call between its registration and its return, and when it
    registered. -/
def registered : Call → Option (UInt64 × ℕ)
  | sending id _ since => some (id, since)
  | failed id since _ => some (id, since)
  | locking id since => some (id, since)
  | waiting id since => some (id, since)
  | _ => none

/-- The call has registered its id and not returned. -/
def InProgress (t : Call) (id : UInt64) : Prop := ∃ since, t.registered = some (id, since)

def id : Call → UInt64
  | registering id _ => id
  | sending id _ _ => id
  | failed id _ _ => id
  | locking id _ => id
  | waiting id _ => id
  | returned id _ _ _ => id
  | oneWay id _ => id
  | oneWayReturned id _ => id

theorem InProgress.id_eq {t : Call} {i : UInt64} (h : t.InProgress i) : t.id = i := by
  obtain ⟨since, h⟩ := h
  cases t <;> cases h <;> rfl

end Call

/-- A frame with this reply arrived when at least `since` others had. -/
def Evidence (deserialize : List UInt8 → Option RpcError) (arrived : List Frame) (since : ℕ)
    (id : UInt64) (result : Except RpcError (List UInt8)) : Prop :=
  ∃ f ∈ arrived.drop since, replyOf deserialize f = some (id, result)

theorem Evidence.append {arrived : List Frame} {since : ℕ} {id : UInt64}
    {result : Except RpcError (List UInt8)} (h : Evidence deserialize arrived since id result)
    (f : Frame) : Evidence deserialize (arrived ++ [f]) since id result := by
  obtain ⟨g, hg, hreply⟩ := h
  refine ⟨g, ?_, hreply⟩
  rw [List.drop_append]
  exact List.mem_append_left _ hg

theorem evidence_concat {arrived : List Frame} {since : ℕ} {f : Frame} {id : UInt64}
    {result : Except RpcError (List UInt8)} (hsince : since ≤ arrived.length)
    (hreply : replyOf deserialize f = some (id, result)) :
    Evidence deserialize (arrived ++ [f]) since id result := by
  refine ⟨f, ?_, hreply⟩
  rw [List.drop_append_of_le_length hsince]
  simp

/-! ## The invariant -/

/-- What is known of a call: a reply that is stored for it, or that it has returned
    with, arrived after it had registered. -/
structure Call.Justified (deserialize : List UInt8 → Option RpcError) (c : RpcClient)
    (t : Call) : Prop where
  since : ∀ id n, t.registered = some (id, n) → n ≤ c.arrived.length
  stored : ∀ id n r, t.registered = some (id, n) → c.pending id = some ⟨true, some r⟩ →
    Evidence deserialize c.arrived n id r
  returned : ∀ id n r found, t = .returned id n (.completed r) found →
    Evidence deserialize c.arrived n id r
  unwrapped : ∀ id n found, t ≠ .returned id n .panicked found

/-- A completed entry holds a result. -/
def Stored (c : RpcClient) : Prop := ∀ id, c.pending id ≠ some ⟨true, none⟩

/-- Every entry belongs to a call in progress. -/
def Owned (c : RpcClient) (ts : List Call) : Prop :=
  ∀ id, c.pending id ≠ none → ∃ t ∈ ts, t.InProgress id

structure Matched (deserialize : List UInt8 → Option RpcError) (s : State) : Prop where
  stored : Stored s.shared
  justified : ∀ t ∈ s.threads, t.Justified deserialize s.shared
  owned : Owned s.shared s.threads

section Steps

variable {c c' : RpcClient} {t t' : Call} {l l' : List Call} {id : UInt64}

/-- Entries may disappear, and entries without a reply may be added. -/
theorem Call.Justified.mono (h : t.Justified deserialize c) (harrived : c'.arrived = c.arrived)
    (hpending : ∀ id r, c'.pending id = some ⟨true, some r⟩ → c.pending id = some ⟨true, some r⟩) :
    t.Justified deserialize c' := by
  constructor
  · rw [harrived]
    exact h.since
  · rw [harrived]
    exact fun id n r ht hid => h.stored id n r ht (hpending id r hid)
  · rw [harrived]
    exact h.returned
  · exact h.unwrapped

/-- A call that has neither registered nor returned. -/
theorem Call.justified_of_not (hregistered : t.registered = none)
    (hreturned : ∀ id n outcome found, t ≠ .returned id n outcome found) :
    t.Justified deserialize c := by
  constructor
  · intro id n ht
    rw [hregistered] at ht
    cases ht
  · intro id n r ht
    rw [hregistered] at ht
    cases ht
  · intro id n r found ht
    exact absurd ht (hreturned _ _ _ _)
  · exact fun id n found => hreturned _ _ _ _

/-- A call that goes on between its registration and its return. -/
theorem Call.Justified.move (h : t.Justified deserialize c)
    (hregistered : t'.registered = t.registered)
    (hreturned : ∀ id n outcome found, t' ≠ .returned id n outcome found) :
    t'.Justified deserialize c := by
  constructor
  · rw [hregistered]
    exact h.since
  · rw [hregistered]
    exact h.stored
  · intro id n r found ht
    exact absurd ht (hreturned _ _ _ _)
  · exact fun id n found => hreturned _ _ _ _

@[simp] theorem pending_send (bytes : List UInt8) : (c.send bytes).pending = c.pending := by
  unfold send
  split <;> rfl

@[simp] theorem arrived_send (bytes : List UInt8) : (c.send bytes).arrived = c.arrived := by
  unfold send
  split <;> rfl

theorem pending_register_self : (c.register id).pending id = some ⟨false, none⟩ :=
  Function.update_self ..

theorem pending_register_of_ne {i : UInt64} (h : i ≠ id) :
    (c.register id).pending i = c.pending i :=
  Function.update_of_ne h ..

theorem pending_remove_self : (c.remove id).pending id = none :=
  Function.update_self ..

theorem pending_remove_of_ne {i : UInt64} (h : i ≠ id) : (c.remove id).pending i = c.pending i :=
  Function.update_of_ne h ..

/-! ## One step -/

theorem Matched.move (h : Matched deserialize ⟨c, l ++ t :: l'⟩) (hpending : c'.pending = c.pending)
    (harrived : c'.arrived = c.arrived) (hregistered : t'.registered = t.registered)
    (hreturned : ∀ id n outcome found, t' ≠ .returned id n outcome found) :
    Matched deserialize ⟨c', l ++ t' :: l'⟩ := by
  have hmono : ∀ t : Call, t.Justified deserialize c → t.Justified deserialize c' :=
    fun t ht => ht.mono harrived fun id r hid => by rwa [hpending] at hid
  obtain ⟨hown, hrest⟩ := Machine.forall_threads_at.1 h.justified
  refine ⟨?_, Machine.forall_threads_at.2 ⟨?_, ?_⟩, ?_⟩
  · intro id
    rw [hpending]
    exact h.stored id
  · exact hmono _ (hown.move hregistered hreturned)
  · exact fun t' ht' => hmono _ (hrest t' ht')
  · intro id hid
    rw [hpending] at hid
    apply Machine.exists_threads_at.2
    refine (Machine.exists_threads_at.1 (h.owned id hid)).imp_left ?_
    rintro ⟨n, ht⟩
    exact ⟨n, hregistered.trans ht⟩

theorem Matched.register {request : Request}
    (h : Matched deserialize ⟨c, l ++ .registering id request :: l'⟩) :
    Matched deserialize ⟨c.register id, l ++ .sending id request c.arrived.length :: l'⟩ := by
  have hpending : ∀ i r, (c.register id).pending i = some ⟨true, some r⟩ →
      c.pending i = some ⟨true, some r⟩ := by
    intro i r hi
    by_cases heq : i = id
    · rw [heq, pending_register_self] at hi
      cases hi
    · rwa [pending_register_of_ne heq] at hi
  obtain ⟨-, hrest⟩ := Machine.forall_threads_at.1 h.justified
  refine ⟨?_, Machine.forall_threads_at.2 ⟨?_, ?_⟩, ?_⟩
  · intro i hi
    by_cases heq : i = id
    · rw [heq, pending_register_self] at hi
      cases hi
    · rw [pending_register_of_ne heq] at hi
      exact h.stored i hi
  · constructor
    · intro i n hi
      cases hi
      exact le_rfl
    · intro i n r hi hstored
      cases hi
      rw [pending_register_self] at hstored
      cases hstored
    · intro i n r found hi
      cases hi
    · intro i n found hi
      cases hi
  · exact fun t' ht' => (hrest t' ht').mono rfl hpending
  · intro i hi
    apply Machine.exists_threads_at.2
    by_cases heq : i = id
    · exact .inl ⟨c.arrived.length, by rw [heq]; rfl⟩
    · rw [pending_register_of_ne heq] at hi
      refine .inr ((Machine.exists_threads_at.1 (h.owned i hi)).resolve_left ?_)
      rintro ⟨n, hn⟩
      cases hn

/-- A call returns and takes its entry with it. -/
theorem Matched.remove {n : ℕ} {outcome : Outcome} {found : Option PendingRequest}
    (h : Matched deserialize ⟨c, l ++ t :: l'⟩) (ht : t.registered = some (id, n))
    (hevidence : ∀ r, outcome = .completed r → Evidence deserialize c.arrived n id r)
    (hpanic : outcome ≠ .panicked) :
    Matched deserialize ⟨c.remove id, l ++ .returned id n outcome found :: l'⟩ := by
  have hpending : ∀ {i v}, (c.remove id).pending i = some v → c.pending i = some v := by
    intro i v hi
    by_cases heq : i = id
    · rw [heq, pending_remove_self] at hi
      cases hi
    · rwa [pending_remove_of_ne heq] at hi
  obtain ⟨-, hrest⟩ := Machine.forall_threads_at.1 h.justified
  refine ⟨fun i hi => h.stored i (hpending hi), Machine.forall_threads_at.2 ⟨?_, ?_⟩, ?_⟩
  · constructor
    · intro i m hi
      cases hi
    · intro i m r hi
      cases hi
    · intro i m r found' hi
      cases hi
      exact hevidence r rfl
    · intro i m found' hi
      cases hi
      exact hpanic rfl
  · exact fun t' ht' => (hrest t' ht').mono rfl fun i r => hpending
  · intro i hi
    have hne : i ≠ id := by
      rintro rfl
      exact hi pending_remove_self
    rw [pending_remove_of_ne hne] at hi
    apply Machine.exists_threads_at.2
    refine .inr ((Machine.exists_threads_at.1 (h.owned i hi)).resolve_left ?_)
    rintro ⟨m, hm⟩
    rw [ht] at hm
    cases hm
    exact hne rfl

theorem remove_of_none (h : c.pending id = none) : c.remove id = c := by
  rw [RpcClient.remove, ← h, Function.update_eq_self]

theorem Matched.turn {n : ℕ} (h : Matched deserialize ⟨c, l ++ t :: l'⟩)
    (ht : t.registered = some (id, n)) (hturn : Turn c id n c' t') :
    Matched deserialize ⟨c', l ++ t' :: l'⟩ := by
  cases hturn with
  | wait req hreq hdone => exact h.move rfl rfl ht.symm fun _ _ _ _ h => by cases h
  | disappeared hnone =>
    have hreturn : Matched deserialize ⟨c.remove id, l ++ .returned id n .disappeared none :: l'⟩ :=
      h.remove ht (fun r h => by cases h) fun h => by cases h
    rwa [remove_of_none hnone] at hreturn
  | completed req hreq hdone =>
    obtain ⟨done, result⟩ := req
    cases hdone
    cases result with
    | none => exact absurd hreq (h.stored id)
    | some r =>
      have hown := (Machine.forall_threads_at.1 h.justified).1
      refine h.remove ht (fun r' hr' => ?_) fun h => by cases h
      cases hr'
      exact hown.stored id n r ht hreq
  | deadline found hfound =>
    exact h.remove ht (fun r h => by cases h) fun h => by cases h

theorem Matched.act {o : Choice} (h : Matched deserialize ⟨c, l ++ t :: l'⟩)
    (hact : proceed c t o = some (c', t')) : Matched deserialize ⟨c', l ++ t' :: l'⟩ := by
  cases acts_of_proceed hact with
  | register id request => exact h.register
  | sent id request since =>
    exact h.move (pending_send _) (arrived_send _) rfl fun _ _ _ _ h => by cases h
  | notSent id request since error written =>
    exact h.move (pending_send _) (arrived_send _) rfl fun _ _ _ _ h => by cases h
  | fail id since error => exact h.remove rfl (fun r h => by cases h) fun h => by cases h
  | lock id since expired => exact h.turn rfl (turn_check c id since expired)
  | wake id since timedOut expired => exact h.turn rfl (turn_wakeUp c id since timedOut expired)
  | sentOneWay id request =>
    exact h.move (pending_send _) (arrived_send _) rfl fun _ _ _ _ h => by cases h
  | notSentOneWay id request error written =>
    exact h.move (pending_send _) (arrived_send _) rfl fun _ _ _ _ h => by cases h

end Steps

/-! ## Frames from the peer -/

section Frames

variable {c : RpcClient} {f : Frame} {id : UInt64}

@[simp] theorem complete_arrived (result : Except RpcError (List UInt8)) :
    (c.complete id result).arrived = c.arrived := by
  unfold complete
  split <;> rfl

theorem pending_complete_of_ne {i : UInt64} (h : i ≠ id) (result : Except RpcError (List UInt8)) :
    (c.complete id result).pending i = c.pending i := by
  unfold complete
  split
  · exact Function.update_of_ne h ..
  · rfl

theorem pending_complete_self {req : PendingRequest} (h : c.pending id = some req)
    (result : Except RpcError (List UInt8)) :
    (c.complete id result).pending id = some ⟨true, some result⟩ := by
  simp only [complete, h]
  exact Function.update_self ..

theorem complete_of_none (h : c.pending id = none) (result : Except RpcError (List UInt8)) :
    c.complete id result = c := by
  simp only [complete, h]

/-- A frame leaves an entry alone, or completes it with its own reply. -/
theorem pending_handleFrame (c : RpcClient) (f : Frame) (id : UInt64) :
    (c.handleFrame deserialize f).pending id = c.pending id ∨
      ∃ r, replyOf deserialize f = some (id, r) ∧ c.pending id ≠ none ∧
        (c.handleFrame deserialize f).pending id = some ⟨true, some r⟩ := by
  unfold handleFrame
  split
  · rename_i i r hreply
    by_cases heq : id = i
    · subst heq
      cases hid : c.pending id with
      | none => exact .inl (by rw [complete_of_none hid, hid])
      | some req => exact .inr ⟨r, hreply, by simp, pending_complete_self hid r⟩
    · exact .inl (pending_complete_of_ne heq r)
  · exact .inl rfl

/-- A frame whose reply names another request leaves the entry alone. -/
theorem pending_handleFrame_of_ne (h : ∀ r, replyOf deserialize f ≠ some (id, r)) :
    (c.handleFrame deserialize f).pending id = c.pending id := by
  rcases pending_handleFrame c f id with heq | ⟨r, hreply, -, -⟩
  · exact heq
  · exact absurd hreply (h r)

theorem handleFrame_of_none {r : Except RpcError (List UInt8)}
    (hreply : replyOf deserialize f = some (id, r)) (h : c.pending id = none) :
    c.handleFrame deserialize f = c := by
  simp only [handleFrame, hreply]
  exact complete_of_none h r

theorem Matched.frame {ts : List Call} (h : Matched deserialize ⟨c, ts⟩) (f : Frame) :
    Matched deserialize ⟨{ c.handleFrame deserialize f with arrived := c.arrived ++ [f] }, ts⟩ := by
  refine ⟨fun id hid => ?_, fun t ht => ?_, fun id hid => ?_⟩
  · rcases pending_handleFrame c f id with heq | ⟨r, -, -, heq⟩
    · exact h.stored id (heq ▸ hid)
    · change (c.handleFrame deserialize f).pending id = _ at hid
      rw [heq] at hid
      cases hid
  · have hown := h.justified t ht
    constructor
    · intro id n hregistered
      have hle : n ≤ c.arrived.length := hown.since id n hregistered
      exact hle.trans (by simp)
    · intro id n r hregistered hstored
      rcases pending_handleFrame c f id with heq | ⟨r', hreply, -, heq⟩
      · change (c.handleFrame deserialize f).pending id = _ at hstored
        rw [heq] at hstored
        exact (hown.stored id n r hregistered hstored).append f
      · change (c.handleFrame deserialize f).pending id = _ at hstored
        rw [heq] at hstored
        cases hstored
        exact evidence_concat (hown.since id n hregistered) hreply
    · exact fun id n r found ht => (hown.returned id n r found ht).append f
    · exact hown.unwrapped
  · refine h.owned id fun hnone => ?_
    change (c.handleFrame deserialize f).pending id ≠ none at hid
    rcases pending_handleFrame c f id with heq | ⟨r, -, hne, -⟩
    · exact hid (heq.trans hnone)
    · exact hne hnone

end Frames

/-! ## Whole runs -/

theorem Matched.enter {s : State} (h : Matched deserialize s) (e : Input) :
    Matched deserialize ⟨(enter deserialize s.shared e).1,
      s.threads ++ (enter deserialize s.shared e).2⟩ := by
  have hnew : ∀ (c : RpcClient) (t : Call), t.registered = none →
      (∀ id n outcome found, t ≠ .returned id n outcome found) →
      c.pending = s.shared.pending → c.arrived = s.shared.arrived →
      Matched deserialize ⟨c, s.threads ++ [t]⟩ := by
    intro c t hregistered hreturned hpending harrived
    refine ⟨fun id => hpending ▸ h.stored id, fun t' ht' => ?_, fun id hid => ?_⟩
    · rcases List.mem_append.1 ht' with ht' | ht'
      · exact (h.justified t' ht').mono harrived fun id r hid => by rwa [hpending] at hid
      · rw [List.mem_singleton.1 ht']
        exact Call.justified_of_not hregistered hreturned
    · obtain ⟨t', ht', hprogress⟩ := h.owned id (hpending ▸ hid)
      exact ⟨t', List.mem_append_left _ ht', hprogress⟩
  cases e with
  | call request => exact hnew _ _ rfl (fun _ _ _ _ h => by cases h) rfl rfl
  | callOneway request => exact hnew _ _ rfl (fun _ _ _ _ h => by cases h) rfl rfl
  | setTimeout millis =>
    simp only [RpcClient.enter, List.append_nil]
    exact ⟨h.stored, fun t ht => (h.justified t ht).mono rfl fun _ _ => id, h.owned⟩
  | disconnect =>
    simp only [RpcClient.enter, List.append_nil]
    exact ⟨h.stored, fun t ht => (h.justified t ht).mono rfl fun _ _ => id, h.owned⟩
  | frame f =>
    simp only [RpcClient.enter, List.append_nil]
    exact h.frame f

theorem Matched.step {s u : State} {a : Step} (h : Matched deserialize s)
    (hs : (system deserialize).step s a = some u) : Matched deserialize u := by
  rcases system_step_cases hs with ⟨e, rfl, rfl⟩ | ⟨o, c', t, t', l, l', rfl, hts, hact, rfl⟩
  · exact h.enter e
  · obtain ⟨c, ts⟩ := s
    subst hts
    exact h.act hact

theorem matched_of_run {ok : State → Step → Prop} {as : List Step} {s : State}
    (h : Run (system deserialize).step ok initial as s) : Matched deserialize s := by
  refine h.invariant ⟨?_, ?_, ?_⟩ fun t a u ht _ hs => ht.step hs
  · intro id hid
    cases hid
  · intro t ht
    cases ht
  · intro id hid
    exact absurd rfl hid

/-! ## Request ids -/

/-- The ids are drawn one after the other, and start over after `2 ^ 64` of
    them. -/
structure Drawn (s : State) : Prop where
  next : s.shared.nextRequestId = UInt64.ofNat (s.threads.length + 1)
  ids : s.threads.map Call.id =
    (List.range s.threads.length).map fun i => UInt64.ofNat (i + 1)

theorem nextRequestId_afterTurn (c : RpcClient) (id : UInt64) (n : ℕ) {c' : RpcClient} {t' : Call}
    (h : Turn c id n c' t') : c'.nextRequestId = c.nextRequestId ∧ t'.id = id := by
  cases h <;> exact ⟨rfl, rfl⟩

theorem nextRequestId_send (c : RpcClient) (bytes : List UInt8) :
    (c.send bytes).nextRequestId = c.nextRequestId := by
  unfold send
  split <;> rfl

theorem nextRequestId_handleFrame (c : RpcClient) (f : Frame) :
    (c.handleFrame deserialize f).nextRequestId = c.nextRequestId := by
  unfold handleFrame
  split
  · unfold complete
    split <;> rfl
  · rfl

theorem proceed_id {c c' : RpcClient} {t t' : Call} {o : Choice}
    (h : proceed c t o = some (c', t')) : c'.nextRequestId = c.nextRequestId ∧ t'.id = t.id := by
  cases acts_of_proceed h with
  | register id request => exact ⟨rfl, rfl⟩
  | sent id request since => exact ⟨nextRequestId_send _ _, rfl⟩
  | notSent id request since error written => exact ⟨nextRequestId_send _ _, rfl⟩
  | fail id since error => exact ⟨rfl, rfl⟩
  | lock id since expired => exact nextRequestId_afterTurn c id since (turn_check c id since expired)
  | wake id since timedOut expired =>
    exact nextRequestId_afterTurn c id since (turn_wakeUp c id since timedOut expired)
  | sentOneWay id request => exact ⟨nextRequestId_send _ _, rfl⟩
  | notSentOneWay id request error written => exact ⟨nextRequestId_send _ _, rfl⟩

theorem Drawn.step {s u : State} {a : Step} (h : Drawn s)
    (hs : (system deserialize).step s a = some u) : Drawn u := by
  rcases system_step_cases hs with ⟨e, rfl, rfl⟩ | ⟨o, c', t, t', l, l', rfl, hts, hact, rfl⟩
  · have hnew : ∀ (c : RpcClient) (t : Call), t.id = s.shared.nextRequestId →
        c.nextRequestId = s.shared.nextRequestId + 1 → Drawn ⟨c, s.threads ++ [t]⟩ := by
      intro c t hid hnext
      constructor
      · rw [hnext, h.next]
        simp
      · rw [List.map_append, h.ids, List.length_append, List.length_singleton, List.range_succ,
          List.map_append, List.map_singleton, List.map_singleton, hid, h.next]
    cases e with
    | call request => exact hnew _ _ rfl rfl
    | callOneway request => exact hnew _ _ rfl rfl
    | setTimeout millis => exact ⟨by simpa [enter] using h.next, by simpa [enter] using h.ids⟩
    | disconnect => exact ⟨by simpa [enter] using h.next, by simpa [enter] using h.ids⟩
    | frame f =>
      exact ⟨by simpa [enter, nextRequestId_handleFrame] using h.next,
        by simpa [enter] using h.ids⟩
  · obtain ⟨hnext, hid⟩ := proceed_id hact
    have hlength : (l ++ t' :: l').length = s.threads.length := by simp [hts]
    have hids : (l ++ t' :: l').map Call.id = s.threads.map Call.id := by simp [hts, hid]
    exact ⟨by rw [hlength]; exact hnext.trans h.next, by rw [hids, hlength]; exact h.ids⟩

theorem drawn_of_run {ok : State → Step → Prop} {as : List Step} {s : State}
    (h : Run (system deserialize).step ok initial as s) : Drawn s := by
  refine h.invariant ⟨rfl, rfl⟩ fun t a u ht _ hs => ht.step hs

/-- Among at most `2 ^ 64` calls no two have the same id. -/
theorem Drawn.ids_nodup {s : State} (h : Drawn s) (hle : s.threads.length ≤ 2 ^ 64) :
    (s.threads.map Call.id).Nodup := by
  rw [h.ids]
  refine List.Nodup.map_on ?_ List.nodup_range
  intro i hi j hj heq
  rw [List.mem_range] at hi hj
  have hnat := congrArg UInt64.toNat heq
  simp only [UInt64.toNat_ofNat'] at hnat
  omega

/-- A call that has returned and another in progress have different ids. -/
theorem Drawn.inProgress_ne {s : State} (h : Drawn s) (hle : s.threads.length ≤ 2 ^ 64)
    {t t' : Call} {id : UInt64} (ht : t ∈ s.threads) (ht' : t' ∈ s.threads)
    (hid : t.id = id) (hnot : ¬ t.InProgress id) : ¬ t'.InProgress id := by
  intro hprogress
  have heq : t' = t :=
    List.inj_on_of_nodup_map (h.ids_nodup hle) ht' ht (hprogress.id_eq.trans hid.symm)
  exact hnot (heq ▸ hprogress)

/-! ## Responses are matched to their calls -/

/-- A frame of the right type with this id and payload arrived when at least
    `since` others had. -/
def Replied (deserialize : List UInt8 → Option RpcError) (arrived : List Frame) (since : ℕ)
    (id : UInt64) : Except RpcError (List UInt8) → Prop
  | .ok data => ∃ f ∈ arrived.drop since, f.header.messageType = .response ∧
      f.parseResponsePayload = .ok (id, data)
  | .error e => ∃ f ∈ arrived.drop since, ∃ errData, f.header.messageType = .error ∧
      f.parseResponsePayload = .ok (id, errData) ∧ e = readError deserialize errData

theorem Evidence.replied {arrived : List Frame} {since : ℕ} {id : UInt64}
    {r : Except RpcError (List UInt8)} (h : Evidence deserialize arrived since id r) :
    Replied deserialize arrived since id r := by
  obtain ⟨f, hf, hreply⟩ := h
  unfold replyOf at hreply
  split at hreply
  · rename_i id' data htype hparse
    cases hreply
    exact ⟨f, hf, htype, hparse⟩
  · rename_i id' errData htype hparse
    cases hreply
    exact ⟨f, hf, errData, htype, hparse, rfl⟩
  · cases hreply

/-- A call that returns leaves no entry with its id. -/
theorem pending_of_returns {c c' : RpcClient} {t : Call} {o : Choice} {id : UInt64} {n : ℕ}
    {outcome : Outcome} {found : Option PendingRequest}
    (h : proceed c t o = some (c', .returned id n outcome found)) : c'.pending id = none := by
  have hturn : ∀ {i m}, Turn c i m c' (.returned id n outcome found) → c'.pending id = none := by
    intro i m hturn
    cases hturn with
    | disappeared hnone => exact hnone
    | completed => exact pending_remove_self
    | deadline => exact pending_remove_self
  generalize hreturned : Call.returned id n outcome found = t' at h
  cases acts_of_proceed h with
  | register => cases hreturned
  | sent => cases hreturned
  | notSent => cases hreturned
  | fail id since error =>
    cases hreturned
    exact pending_remove_self
  | lock i m expired =>
    have hcheck := turn_check c i m expired
    rw [← hreturned] at hcheck
    exact hturn hcheck
  | wake i m timedOut expired =>
    have hwake := turn_wakeUp c i m timedOut expired
    rw [← hreturned] at hwake
    exact hturn hwake
  | sentOneWay => cases hreturned
  | notSentOneWay => cases hreturned

/-- In every run, a call returns a reply only if a frame with its own id and this
    reply arrived after it had registered, a frame touches no entry but that of
    the id it names and none of a call that is not in progress, and no entry
    outlives its call. -/
theorem responses_matched {as : List Step} {s : State}
    (h : Run (system deserialize).step Unrestricted initial as s) :
    (∀ id n r found, .returned id n (.completed r) found ∈ s.threads →
      Replied deserialize s.shared.arrived n id r) ∧
    (∀ f id, (∀ r, replyOf deserialize f ≠ some (id, r)) →
      (s.shared.handleFrame deserialize f).pending id = s.shared.pending id) ∧
    (∀ f id r, replyOf deserialize f = some (id, r) → (∀ t ∈ s.threads, ¬ t.InProgress id) →
      s.shared.handleFrame deserialize f = s.shared) ∧
    (∀ id, s.shared.pending id ≠ none → ∃ t ∈ s.threads, t.InProgress id) ∧
    (∀ i o u id n outcome found, (system deserialize).step s (.act i o) = some u →
      u.threads[i]? = some (.returned id n outcome found) → u.shared.pending id = none) ∧
    (s.threads.length ≤ 2 ^ 64 → ∀ id n outcome found,
      .returned id n outcome found ∈ s.threads → s.shared.pending id = none) := by
  have hmatched := matched_of_run h
  have hnone : ∀ id, (∀ t ∈ s.threads, ¬ t.InProgress id) → s.shared.pending id = none := by
    intro id hid
    by_contra hpending
    obtain ⟨t, ht, hprogress⟩ := hmatched.owned id hpending
    exact hid t ht hprogress
  refine ⟨?_, ?_, ?_, hmatched.owned, ?_, ?_⟩
  · intro id n r found ht
    exact ((hmatched.justified _ ht).returned id n r found rfl).replied
  · exact fun f id hf => pending_handleFrame_of_ne hf
  · exact fun f id r hreply hid => handleFrame_of_none hreply (hnone id hid)
  · intro i o u id n outcome found hs hu
    obtain ⟨t, ⟨c', t'⟩, ht, hact, rfl⟩ := Machine.step_act_iff.1 hs
    obtain ⟨hi, -⟩ := List.getElem?_eq_some_iff.1 ht
    rw [List.getElem?_set_self hi] at hu
    cases hu
    exact pending_of_returns hact
  · intro hle id n outcome found ht
    refine hnone id fun t' ht' => ?_
    exact (drawn_of_run h).inProgress_ne hle ht ht' rfl fun ⟨m, hm⟩ => by cases hm

/-- A call that waits, is woken by its response and returns it. -/
def oneCall : List Step :=
  [.env (.call ⟨0, 1, [7]⟩), .act 0 .go, .act 0 .sent, .act 0 (.lock false),
    .env (.frame (Frame.response 1 [9])), .act 0 (.wake false false)]

theorem responses_matched_one :
    ∃ s, Run (system fun _ => none).step Unrestricted initial oneCall s ∧
      s.threads = [.returned 1 0 (.completed (.ok [9])) (some ⟨true, some (.ok [9])⟩)] ∧
      Replied (fun _ => none) s.shared.arrived 0 1 (.ok [9]) := by
  obtain ⟨s, hrun, hthreads⟩ :
      ∃ s, Run (system fun _ => none).step Unrestricted initial oneCall s ∧
        s.threads = [.returned 1 0 (.completed (.ok [9])) (some ⟨true, some (.ok [9])⟩)] :=
    Run.exists_of_exec (by decide +kernel)
  have hmem : Call.returned 1 0 (.completed (.ok [9])) (some ⟨true, some (.ok [9])⟩) ∈ s.threads := by
    rw [hthreads]
    exact List.mem_singleton_self _
  exact ⟨s, hrun, hthreads, (responses_matched hrun).1 _ _ _ _ hmem⟩

end RpcClient
