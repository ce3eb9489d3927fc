-- SUMMARY: When a reply that has been stored is returned by the call that waits for it.
import MillIo.Rpc.Matching

/-!
# The last acquisition of the lock

A call that waits takes the lock again when it is notified and when its wait times
out. Only in the first case does it look at its entry.
-/

namespace RpcClient

open Interleaving Protocol

variable {deserialize : List UInt8 → Option RpcError} {c c' : RpcClient} {t t' : Call}
  {s : State} {a : Step}

/-- A call that has been sent and found a reply when it took the lock for the last
    time has returned that reply. -/
def Call.Answered : Call → Prop
  | .returned _ _ outcome (some ⟨true, some r⟩) =>
    outcome = .completed r ∨ ∃ error, outcome = .sendFailed error
  | _ => True

/-- The reply to the waiting call with this index has been stored. -/
def replyStored (s : State) (i : ℕ) : Bool :=
  match s.threads[i]? with
  | some (.waiting id _) => (s.shared.pending id).any fun req => req.completed
  | _ => false

/-- A wait reports a timeout when the reply has been stored. -/
def overlooks (s : State) : Step → Bool
  | .act i (.wake true _) => replyStored s i
  | _ => false

/-- No wait reports a timeout when the reply has been stored. -/
def InTime (s : State) (a : Step) : Prop := overlooks s a = false

instance : DecidableRel InTime := fun s a => inferInstanceAs (Decidable (overlooks s a = false))

/-! ## Notifications -/

/-- A step completes no entry, apart from a frame with the reply to it. -/
theorem completed_of_acts {req : PendingRequest} {id : UInt64} (h : Acts c t c' t')
    (hreq : c'.pending id = some req) (hdone : req.completed = true) :
    c.pending id = some req ∧ ∀ n, t' ≠ .waiting id n := by
  have hremove : ∀ {id'}, (c.remove id').pending id = some req → c.pending id = some req := by
    intro id' hafter
    rcases eq_or_ne id id' with rfl | hne
    · simp [remove] at hafter
    · simpa [remove, Function.update_of_ne hne] using hafter
  have hsend : ∀ {bytes}, (c.send bytes).pending id = some req → c.pending id = some req := by
    intro bytes hafter
    unfold send at hafter
    split at hafter <;> exact hafter
  have hturn : ∀ {id' n d d'}, Turn c id' n d d' → d.pending id = some req →
      c.pending id = some req ∧ ∀ n, d' ≠ .waiting id n := by
    intro id' n d d' hturn hafter
    cases hturn with
    | wait req' hreq' hopen =>
      refine ⟨hafter, fun n heq => ?_⟩
      cases heq
      cases hafter.symm.trans hreq'
      rw [hdone] at hopen
      cases hopen
    | disappeared => exact ⟨hafter, by simp⟩
    | completed | deadline => exact ⟨hremove hafter, by simp⟩
  cases h with
  | register id' request =>
    refine ⟨?_, by simp⟩
    rcases eq_or_ne id id' with rfl | hne
    · -- an entry is new without a reply
      obtain rfl : ⟨false, none⟩ = req := by simpa [register] using hreq
      cases hdone
    · simpa [register, Function.update_of_ne hne] using hreq
  | sent | notSent | sentOneWay | notSentOneWay => exact ⟨hsend hreq, by simp⟩
  | fail => exact ⟨hremove hreq, by simp⟩
  | lock id' n expired => exact hturn (turn_check c id' n expired) hreq
  | wake id' n timedOut expired => exact hturn (turn_wakeUp c id' n timedOut expired) hreq

/-- What comes from outside completes an entry only if it is the frame with the reply. -/
theorem completed_of_enter {req : PendingRequest} {id : UInt64} {e : Input}
    (hreq : (enter deserialize c e).1.pending id = some req) :
    (∃ f r, e = .frame f ∧ replyOf deserialize f = some (id, r)) ∨ c.pending id = some req := by
  cases e with
  | frame f =>
    change (c.handleFrame deserialize f).pending id = some req at hreq
    unfold handleFrame at hreq
    split at hreq
    · rename_i id' r hreply
      unfold complete at hreq
      split at hreq
      · rcases eq_or_ne id id' with rfl | hne
        · exact .inl ⟨f, r, rfl, hreply⟩
        · exact .inr (by simpa [Function.update_of_ne hne] using hreq)
      · exact .inr hreq
    · exact .inr hreq
  | call | callOneway | setTimeout | disconnect => exact .inr hreq

/-- When the reply to a waiting call has been stored, the frame came while the call waited,
    so that the `notify_all` of `handle_frame` was for it too. -/
theorem notified_of_stored {ok : State → Step → Prop} {as : List Step}
    (h : Run (system deserialize).step ok initial as s) {i : ℕ} {id : UInt64} {n : ℕ}
    {req : PendingRequest} (ht : s.threads[i]? = some (.waiting id n))
    (hreq : s.shared.pending id = some req) (hdone : req.completed = true) :
    ∃ bs f cs r v, as = bs ++ .env (.frame f) :: cs ∧ replyOf deserialize f = some (id, r) ∧
      Run (system deserialize).step ok initial bs v ∧ v.threads[i]? = some (.waiting id n) := by
  induction h generalizing i id n req with
  | refl => cases ht
  | @snoc as s u a hrun hok hs ih =>
    have hearlier : s.threads[i]? = some (.waiting id n) → s.shared.pending id = some req →
        ∃ bs f cs r v, as ++ [a] = bs ++ .env (.frame f) :: cs ∧
          replyOf deserialize f = some (id, r) ∧
          Run (system deserialize).step ok initial bs v ∧ v.threads[i]? = some (.waiting id n) := by
      intro ht hreq
      obtain ⟨bs, f, cs, r, v, rfl, hv⟩ := ih ht hreq hdone
      exact ⟨bs, f, cs ++ [a], r, v, by simp, hv⟩
    cases a with
    | env e =>
      obtain ⟨r, hr, rfl⟩ := Machine.step_env_iff.1 hs
      cases hr
      have hold : s.threads[i]? = some (.waiting id n) := by
        by_cases hi : i < s.threads.length
        · rwa [List.getElem?_append_left hi] at ht
        · have hmem := List.mem_of_getElem? ((List.getElem?_append_right (by omega)).symm.trans ht)
          cases e <;> simp [enter] at hmem
      rcases completed_of_enter hreq with ⟨f, r, rfl, hreply⟩ | hbefore
      · exact ⟨as, f, [], r, s, rfl, hreply, hrun, hold⟩
      · exact hearlier hold hbefore
    | act j o =>
      obtain ⟨t, ⟨c', t'⟩, ht', hr, rfl⟩ := Machine.step_act_iff.1 hs
      obtain ⟨hbefore, hnot⟩ := completed_of_acts (acts_of_proceed hr) hreq hdone
      refine hearlier ?_ hbefore
      rcases eq_or_ne j i with rfl | hne
      · rw [List.getElem?_set_self (List.getElem?_eq_some_iff.1 ht').1] at ht
        exact absurd (Option.some.inj ht) (hnot n)
      · rwa [List.getElem?_set_ne hne] at ht

/-! ## Replies that have been stored -/

theorem Call.answered_of_not (h : ∀ id n outcome found, t ≠ .returned id n outcome found) :
    t.Answered := by
  unfold Call.Answered
  split
  · exact absurd rfl (h _ _ _ _)
  · trivial

theorem answered_check (c : RpcClient) (id : UInt64) (n : ℕ) (expired : Bool) :
    (c.afterTurn id n (c.check id expired)).2.Answered := by
  cases hreq : c.pending id with
  | none => simp only [check, afterTurn, hreq, Call.Answered]
  | some req =>
    obtain ⟨completed, result⟩ := req
    cases completed with
    | true => cases result <;> simp [check, afterTurn, hreq, Call.Answered]
    | false => cases expired <;> simp [check, afterTurn, hreq, Call.Answered]

theorem answered_sendFailed (id : UInt64) (n : ℕ) (error : String) (found : Option PendingRequest) :
    (Call.returned id n (.sendFailed error) found).Answered := by
  unfold Call.Answered
  split
  · rename_i heq
    cases heq
    exact .inr ⟨error, rfl⟩
  · trivial

theorem answered_deadline_iff (id : UInt64) (n : ℕ) (timeout : UInt64)
    (found : Option PendingRequest) :
    (Call.returned id n (.deadlineExceeded timeout) found).Answered ↔
      ∀ r, found ≠ some ⟨true, some r⟩ := by
  constructor
  · rintro h r rfl
    rcases h with h | ⟨error, h⟩ <;> cases h
  · intro h
    unfold Call.Answered
    split
    · rename_i heq
      cases heq
      exact absurd rfl (h _)
    · trivial

theorem answered_of_inTime {l l' : List Call} {o : Choice}
    (hin : InTime ⟨c, l ++ t :: l'⟩ (.act l.length o)) (h : proceed c t o = some (c', t')) :
    t'.Answered := by
  unfold proceed at h
  split at h
  · cases h
    trivial
  · cases h
    trivial
  · cases h
    trivial
  · cases h
    exact answered_sendFailed _ _ _ _
  · obtain ⟨rfl, rfl⟩ := Prod.mk.inj (Option.some.inj h)
    exact answered_check _ _ _ _
  · rename_i id n timedOut expired
    obtain ⟨rfl, rfl⟩ := Prod.mk.inj (Option.some.inj h)
    cases timedOut with
    | false => exact answered_check _ _ _ _
    | true =>
      have hstored : ((c.pending id).any fun req => req.completed) = false := by
        simpa [InTime, overlooks, replyStored] using hin
      refine (answered_deadline_iff id n c.timeout (c.pending id)).2 fun r hfound => ?_
      rw [hfound] at hstored
      cases hstored
  · cases h
    trivial
  · cases h
    trivial
  · cases h

theorem answered_enter (e : Input) : ∀ t ∈ (enter deserialize c e).2, t.Answered := by
  intro t ht
  cases e with
  | call request => rw [List.mem_singleton.1 ht]; trivial
  | callOneway request => rw [List.mem_singleton.1 ht]; trivial
  | setTimeout millis => cases ht
  | disconnect => cases ht
  | frame f => cases ht

/-- A call that has returned takes no more steps. -/
theorem answered_of_proceed {o : Choice} (h : proceed c t o = some (c', t')) : t.Answered := by
  refine Call.answered_of_not fun id n outcome found heq => ?_
  subst heq
  cases h

/-- A timeout that overlooks a reply leaves a call that is not answered. -/
theorem not_answered_of_overlooks {l l' : List Call} {o : Choice} (hstored : Stored c)
    (hover : overlooks ⟨c, l ++ t :: l'⟩ (.act l.length o) = true)
    (h : proceed c t o = some (c', t')) : ¬ t'.Answered := by
  cases o with
  | wake timedOut expired =>
    cases timedOut with
    | false => cases hover
    | true =>
      cases t with
      | waiting id n =>
        have hdone : ((c.pending id).any fun req => req.completed) = true := by
          simpa [overlooks, replyStored] using hover
        obtain ⟨⟨completed, result⟩, hreq, hcompleted⟩ := (Option.any_eq_true _ _).1 hdone
        cases hcompleted
        obtain ⟨-, rfl⟩ := Prod.mk.inj (Option.some.inj h)
        intro hanswered
        cases result with
        | none => exact hstored id hreq
        | some r => exact (answered_deadline_iff id n c.timeout (c.pending id)).1 hanswered r hreq
      | _ => simp [overlooks, replyStored] at hover
  | _ => cases hover

/-- In every run, all calls that found their reply have returned it if and only if
    no wait reported a timeout when the reply had been stored. -/
theorem stored_reply_returned_iff {as : List Step}
    (h : Run (system deserialize).step Unrestricted initial as s) :
    (∀ t ∈ s.threads, t.Answered) ↔ Run (system deserialize).step InTime initial as s := by
  constructor
  · intro hall
    induction h with
    | refl => exact .refl
    | @snoc as t u a hrun _ hs ih =>
      rcases system_step_cases hs with ⟨e, rfl, rfl⟩ | ⟨o, c', t₁, t₁', l, l', rfl, hts, hact, rfl⟩
      · have hprev := ih fun t ht => hall t (List.mem_append_left _ ht)
        exact hprev.snoc rfl hs
      · obtain ⟨c, ts⟩ := t
        subst hts
        obtain ⟨hown, hrest⟩ := Machine.forall_threads_at.1 hall
        have hprev := ih (Machine.forall_threads_at.2 ⟨answered_of_proceed hact, hrest⟩)
        refine hprev.snoc ?_ hs
        by_contra hover
        exact not_answered_of_overlooks (matched_of_run hrun).stored
          (Bool.eq_true_of_not_eq_false hover) hact hown
  · intro hrun
    refine hrun.invariant (I := fun s => ∀ t ∈ s.threads, t.Answered) (by simp [initial]) fun t a u ht hin hs => ?_
    rcases system_step_cases hs with ⟨e, rfl, rfl⟩ | ⟨o, c', t₁, t₁', l, l', rfl, hts, hact, rfl⟩
    · intro t₂ ht₂
      rcases List.mem_append.1 ht₂ with hold | hnew
      · exact ht t₂ hold
      · exact answered_enter e t₂ hnew
    · obtain ⟨c, ts⟩ := t
      subst hts
      exact Machine.forall_threads_at.2
        ⟨answered_of_inTime hin hact, (Machine.forall_threads_at.1 ht).2⟩

theorem stored_reply_returned_iff_one :
    ∃ s, Run (system fun _ => none).step Unrestricted initial oneCall s ∧
      ((∀ t ∈ s.threads, t.Answered) ↔
        Run (system fun _ => none).step InTime initial oneCall s) := by
  obtain ⟨s, hrun, -⟩ : ∃ s, Run (system fun _ => none).step Unrestricted initial oneCall s ∧
      s.threads.length = 1 := Run.exists_of_exec (by decide +kernel)
  exact ⟨s, hrun, stored_reply_returned_iff hrun⟩

/-- The response is stored, and then the wait reports a timeout. -/
theorem stored_reply_overlooked :
    ∃ s, Run (system fun _ => none).step Unrestricted initial
        [.env (.call ⟨0, 1, [7]⟩), .act 0 .go, .act 0 .sent, .act 0 (.lock false),
          .env (.frame (Frame.response 1 [9])), .act 0 (.wake true false)] s ∧
      s.threads =
        [.returned 1 0 (.deadlineExceeded 30000) (some ⟨true, some (.ok [9])⟩)] :=
  Run.exists_of_exec (by decide +kernel)

end RpcClient
