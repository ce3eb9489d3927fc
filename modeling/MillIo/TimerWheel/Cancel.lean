-- SUMMARY: What a cancel achieves: when a cancelled timer never starts again, and which cancels of a repeating timer are lost.
import MillIo.TimerWheel.Ownership

/-!
# Cancelling

A cancel finds its timer in the map, or in `in_flight` while the tick that took
it out is busy with it. Either way the timer is stopped: it is not live, and the
tick that holds it will not re-arm it. What a cancel does not reach is a batch in
the hands of a tick: a marked one still runs its callbacks, and one that has not
been marked yet is in neither of the two sets.
-/
namespace TimerWheel

open Interleaving

namespace Call

/-- The marked entries whose callbacks have not started. -/
def pending : Call → List TimerEntry
  | firing expired _ => expired
  | running _ expired _ => expired
  | _ => []

/-- The batch of a tick between its first two critical sections. -/
def batch : Call → List TimerEntry
  | advanced expired => expired
  | _ => []

end Call

/-- No call will make the timer live again. -/
structure Stopped (s : State) (id : TimerId) : Prop where
  drawn : id < s.shared.nextId
  dead : s.shared.inner.lookup id = none
  unmarked : ∀ t ∈ s.threads, id ∉ t.unmarked
  canceled : ∀ t ∈ s.threads, ∀ e ∈ t.marked, e.id = id → id ∈ s.shared.inner.canceledInFlight

section Cancel

variable {s s' : Shared} {t t' : Call} {l l' : List Call} {id : TimerId}

/-! ## Stopped timers -/

/-- A call may go on if it leaves the map and the notes at the timer alone. -/
theorem Stopped.move (h : Stopped ⟨s, l ++ t :: l'⟩ id) (hnext : s'.nextId = s.nextId)
    (hdead : s'.inner.lookup id = none) (hunmarked : id ∉ t'.unmarked)
    (hnote : id ∈ s.inner.canceledInFlight → id ∈ s'.inner.canceledInFlight)
    (hmarked : ∀ e ∈ t'.marked, e.id = id → ∃ e ∈ t.marked, e.id = id) :
    Stopped ⟨s', l ++ t' :: l'⟩ id where
  drawn := hnext ▸ h.drawn
  dead := hdead
  unmarked := Machine.forall_threads_at.2 ⟨hunmarked, (Machine.forall_threads_at.1 h.unmarked).2⟩
  canceled := by
    obtain ⟨hown, hrest⟩ := Machine.forall_threads_at.1 h.canceled
    refine Machine.forall_threads_at.2 ⟨fun e he hid => ?_, fun t'' ht'' e he hid =>
      hnote (hrest t'' ht'' e he hid)⟩
    obtain ⟨e', he', hid'⟩ := hmarked e he hid
    exact hnote (hown e' he' hid')

theorem Stopped.enter {s : State} (h : Stopped s id) (e : Invocation) :
    Stopped ⟨(enterSerial s.shared e).1, s.threads ++ (enterSerial s.shared e).2⟩ id := by
  cases e with
  | schedule request =>
    refine ⟨Nat.lt_succ_of_lt h.drawn, h.dead, ?_, ?_⟩
    · refine List.forall_mem_append.2 ⟨h.unmarked, ?_⟩
      simpa [enterSerial, Call.unmarked] using h.drawn.ne
    · exact List.forall_mem_append.2 ⟨h.canceled, by simp [enterSerial, Call.marked]⟩
  | cancel id' =>
    simp only [enterSerial, TimerWheel.enter, List.append_nil]
    refine ⟨h.drawn, ?_, h.unmarked, fun t ht e he hid => ?_⟩
    · simp only [WheelInner.cancel_lookup, h.dead, ite_self]
    · have hold := h.canceled t ht e he hid
      simp only [WheelInner.cancel_canceledInFlight]
      split
      · exact Finset.mem_insert_of_mem hold
      · exact hold
  | tick =>
    refine ⟨h.drawn, h.dead, ?_, ?_⟩
    · exact List.forall_mem_append.2
        ⟨h.unmarked, by simp [enterSerial, TimerWheel.enter, Call.unmarked]⟩
    · exact List.forall_mem_append.2
        ⟨h.canceled, by simp [enterSerial, TimerWheel.enter, Call.marked]⟩
  | timeUntilNext =>
    obtain ⟨earliest, hframe⟩ := s.shared.inner.timeUntilNext_frame s.shared.clock
    simp only [enterSerial, TimerWheel.enter, List.append_nil, hframe]
    exact { h with }
  | elapse d =>
    simp only [enterSerial, TimerWheel.enter, List.append_nil]
    exact { h with }

theorem Stopped.schedule {id' : TimerId} {request : Request}
    (h : Stopped ⟨s, l ++ .scheduling id' request :: l'⟩ id)
    (hinner : s'.inner = s.inner.schedule id' request s.clock) (hnext : s'.nextId = s.nextId) :
    Stopped ⟨s', l ++ .done :: l'⟩ id := by
  obtain ⟨kind, heq, _⟩ := schedule_eq s.inner id' request s.clock
  have hne : id ≠ id' := by
    simpa [Call.unmarked] using (Machine.forall_threads_at.1 h.unmarked).1
  refine h.move hnext ?_ (by simp [Call.unmarked]) ?_ (by simp [Call.marked])
  · rw [hinner, heq, WheelInner.insertEntry_lookup, if_neg hne]
    exact h.dead
  · rw [hinner, heq, WheelInner.insertEntry_same.canceledInFlight]
    exact fun hmem => hmem

theorem Stopped.advance {now : Instant} {expired : List TimerEntry} {inner : WheelInner}
    (h : Stopped ⟨s, l ++ .ticking now :: l'⟩ id) (htakes : s.inner.Takes expired inner) :
    Stopped ⟨{ s with inner := inner }, l ++ .advanced expired :: l'⟩ id := by
  refine h.move rfl ?_ ?_ ?_ (by simp [Call.marked])
  · rw [htakes.rest]
    split
    · rfl
    · exact h.dead
  · intro hid
    obtain ⟨e, he, rfl⟩ := List.mem_map.1 hid
    cases h.dead.symm.trans (htakes.live e he)
  · rw [htakes.canceledInFlight]
    exact fun hmem => hmem

theorem Stopped.rearm {toReschedule : List TimerEntry}
    (h : Stopped ⟨s, l ++ .firing [] toReschedule :: l'⟩ id)
    (ho : Owned ⟨s, l ++ .firing [] toReschedule :: l'⟩) :
    Stopped ⟨{ s with inner := s.inner.rearmAll s.clock toReschedule }, l ++ .done :: l'⟩ id := by
  have hown := (Machine.forall_threads_at.1 h.canceled).1
  refine ⟨h.drawn, ?_, ?_, ?_⟩
  · by_cases hid : id ∈ toReschedule.map TimerEntry.id
    · -- The tick holds the timer, so the cancel has been noted.
      obtain ⟨e, he, heid⟩ := List.mem_map.1 hid
      have hnote := hown e (by simpa [Call.marked] using he) heid
      exact (WheelInner.rearmAll_lookup_of_canceled ho.nodup_rearm hnote).trans h.dead
    · exact (WheelInner.rearmAll_lookup_of_notMem hid).trans h.dead
  · exact Machine.forall_threads_at.2 ⟨by simp [Call.unmarked],
      (Machine.forall_threads_at.1 h.unmarked).2⟩
  · refine Machine.forall_threads_at.2 ⟨by simp [Call.marked], fun t ht e he heid => ?_⟩
    refine WheelInner.mem_rearmAll_canceledInFlight.2
      ⟨(Machine.forall_threads_at.1 h.canceled).2 t ht e he heid, fun hmem => ?_⟩
    have hheld : id ∈ (Call.firing [] toReschedule).held := by
      simpa [Call.held, Call.unmarked, Call.marked] using hmem
    exact notMem_held_of_total (ho.held hheld).2.1 ht (heid ▸ mem_held_of_marked he)

theorem Stopped.step {s u : State} {a : Step} (ho : Owned s) (h : Stopped s id)
    (hs : serial.step s a = some u) : Stopped u id := by
  rcases serial_step_cases hs with
    ⟨e, rfl, rfl⟩ | ⟨o, s', t, t', l, l', rfl, hts, hacts, rfl⟩
  · exact h.enter e
  · obtain ⟨shared, threads⟩ := s
    obtain rfl : threads = l ++ t :: l' := hts
    have hsame : id ∈ shared.inner.canceledInFlight → id ∈ shared.inner.canceledInFlight :=
      fun hmem => hmem
    cases hacts with
    | schedule id' request => exact h.schedule rfl rfl
    | advance now => exact h.advance (WheelInner.takes_advanceTo ho.keyed now)
    | noneDue => exact h.move rfl h.dead (by simp [Call.unmarked]) hsame (by simp [Call.marked])
    | mark expired =>
      have hout := (Machine.forall_threads_at.1 h.unmarked).1
      rw [WheelInner.markInFlight_eq]
      refine h.move rfl h.dead (by simp [Call.unmarked]) hsame fun e he heid => ?_
      simp only [Call.marked, List.append_nil] at he
      exact absurd (heid ▸ List.mem_map_of_mem he) hout
    | start entry expired toReschedule =>
      exact h.move rfl h.dead (by simp [Call.unmarked]) hsame fun e he heid => ⟨e, he, heid⟩
    | rearm toReschedule => exact h.rearm ho
    | callbackReturns entry expired toReschedule =>
      refine h.move rfl h.dead (by simp [Call.unmarked]) hsame fun e he heid => ⟨e, ?_, heid⟩
      exact marked_callbackReturns _ _ _ he
    | callbackPanics entry expired toReschedule =>
      exact h.move rfl h.dead (by simp [Call.unmarked]) hsame (by simp [Call.marked])

/-- A cancel that finds its timer stops it. -/
theorem stopped_of_cancel {s : State} (ho : Owned s)
    (hfound : (s.shared.inner.cancel id).1 = true) :
    Stopped ⟨(enterSerial s.shared (.cancel id)).1, s.threads ++ (enterSerial s.shared (.cancel id)).2⟩ id := by
  simp only [enterSerial, enter, List.append_nil]
  have hlookup : (s.shared.inner.cancel id).2.lookup id = none := by
    rw [WheelInner.cancel_lookup, if_pos rfl]
  rcases WheelInner.cancel_fst.1 hfound with hlive | hflight
  · obtain ⟨e, he⟩ := Option.ne_none_iff_exists'.1 hlive
    have hheld : ∀ t ∈ s.threads, id ∉ t.held := fun t ht =>
      notMem_held_of_total (ho.live he) ht
    refine ⟨?_, hlookup, fun t ht hmem => hheld t ht (mem_held_of_unmarked hmem), ?_⟩
    · by_contra hge
      have hzero := ho.drawn id (Nat.le_of_not_lt hge)
      simp only [owners, he, Option.isSome_some, Bool.toNat_true] at hzero
      omega
    · rintro t ht e he' rfl
      exact absurd (mem_held_of_marked he') (hheld t ht)
  · obtain ⟨hdead, hunmarked⟩ := ho.flight id hflight
    refine ⟨ho.flight_drawn id hflight, hlookup, hunmarked, fun t ht e he heid => ?_⟩
    simp only [WheelInner.cancel_canceledInFlight, if_pos (And.intro hdead hflight)]
    exact Finset.mem_insert_self _ _

/-! ## Callbacks after a cancel -/

/-- No callback of the timer waits to be started. -/
def Quiet (s : State) (id : TimerId) : Prop := ∀ t ∈ s.threads, ∀ e ∈ t.pending, e.id ≠ id

/-- Only the marking of a batch makes callbacks wait, and a stopped timer is in no
    batch that is to be marked. -/
theorem Quiet.step {s u : State} {a : Step} (h : Quiet s id) (hstop : Stopped s id)
    (hs : serial.step s a = some u) : Quiet u id := by
  rcases serial_step_cases hs with
    ⟨e, rfl, rfl⟩ | ⟨o, s', t, t', l, l', rfl, hts, hacts, rfl⟩
  · refine List.forall_mem_append.2 ⟨h, ?_⟩
    cases e <;> simp [enterSerial, enter, Call.pending]
  · obtain ⟨shared, threads⟩ := s
    obtain rfl : threads = l ++ t :: l' := hts
    obtain ⟨hown, hrest⟩ := Machine.forall_threads_at.1 h
    refine Machine.forall_threads_at.2 ⟨?_, hrest⟩
    cases hacts with
    | schedule => simp [Call.pending]
    | advance => simp [Call.pending]
    | noneDue => simp [Call.pending]
    | mark expired =>
      intro e he heid
      exact (Machine.forall_threads_at.1 hstop.unmarked).1 (heid ▸ List.mem_map_of_mem he)
    | start entry expired toReschedule => exact fun e he => hown e (List.mem_cons_of_mem _ he)
    | rearm => simp [Call.pending]
    | callbackReturns => exact hown
    | callbackPanics => simp [Call.pending]

/-- A step records at most one event, and a start only of a callback that was
    waiting. -/
theorem history_step {s u : State} {a : Step} (hs : serial.step s a = some u) :
    u.shared.history = s.shared.history ∨
    ∃ ev, u.shared.history = s.shared.history ++ [ev] ∧
      (∀ id, ev = .started id → ¬ Quiet s id) ∧
      ∀ id found, ev = .cancelled id found →
        a = .env (.cancel id) ∧ (s.shared.inner.cancel id).1 = found := by
  rcases serial_step_cases hs with
    ⟨e, rfl, rfl⟩ | ⟨o, s', t, t', l, l', rfl, hts, hacts, rfl⟩
  · cases e with
    | cancel id =>
      refine .inr ⟨_, rfl, by simp, ?_⟩
      rintro id' found heq
      cases heq
      exact ⟨rfl, rfl⟩
    | schedule => exact .inl rfl
    | tick => exact .inl rfl
    | timeUntilNext => exact .inl rfl
    | elapse => exact .inl rfl
  · cases hacts with
    | schedule id request => exact .inr ⟨_, rfl, by simp, by simp⟩
    | start entry expired toReschedule =>
      refine .inr ⟨_, rfl, ?_, by simp⟩
      rintro id heq hquiet
      cases heq
      exact hquiet (.firing (entry :: expired) toReschedule) (by simp [hts]) entry
        (by simp [Call.pending]) rfl
    | advance => exact .inl rfl
    | noneDue => exact .inl rfl
    | mark => exact .inl rfl
    | rearm => exact .inl rfl
    | callbackReturns => exact .inl rfl
    | callbackPanics => exact .inl rfl

/-- Nobody cancels a repeating timer whose callback waits in a marked batch. -/
def SparesPending (s : State) : Step → Prop
  | .env (.cancel id) => ∀ t ∈ s.threads, ∀ e ∈ t.pending, e.kind.isRepeating → e.id ≠ id
  | _ => True

instance : DecidableRel SparesPending
  | s, .env (.cancel id) => inferInstanceAs
      (Decidable (∀ t ∈ s.threads, ∀ e ∈ t.pending, e.kind.isRepeating → e.id ≠ id))
  | _, .env (.schedule _) => .isTrue trivial
  | _, .env .tick => .isTrue trivial
  | _, .env .timeUntilNext => .isTrue trivial
  | _, .env (.elapse _) => .isTrue trivial
  | _, .act _ _ => .isTrue trivial

/-- A cancel that finds its timer and spares pending callbacks leaves none of the
    timer's callbacks waiting. -/
theorem quiet_of_cancel {s : State} (ho : Owned s)
    (hfound : (s.shared.inner.cancel id).1 = true) (hspares : SparesPending s (.env (.cancel id))) :
    Quiet s id := by
  intro t ht e he heid
  have hmarked : e ∈ t.marked := by
    cases t with
    | firing expired toReschedule => exact List.mem_append_left _ he
    | running entry expired toReschedule =>
      exact List.mem_cons_of_mem _ (List.mem_append_left _ he)
    | _ => cases he
  rcases WheelInner.cancel_fst.1 hfound with hlive | hflight
  · obtain ⟨e', he'⟩ := Option.ne_none_iff_exists'.1 hlive
    exact notMem_held_of_total (ho.live he') ht (heid ▸ mem_held_of_marked hmarked)
  · exact hspares t ht e he ((ho.marked t ht e hmarked).2 (heid ▸ hflight)) heid

/-- What is known of a timer once a cancel has found it. -/
def Silenced (s : State) (id : TimerId) : Prop := Stopped s id ∧ Quiet s id

/-- Every cancel in the history that found its timer has silenced it for good. -/
def CancelsHold (s : State) : Prop :=
  ∀ id pre post, s.shared.history = pre ++ .cancelled id true :: post →
    Silenced s id ∧ .started id ∉ post

theorem CancelsHold.step {s u : State} {a : Step} (h : CancelsHold s) (ho : Owned s)
    (ha : SparesPending s a) (hs : serial.step s a = some u) : CancelsHold u := by
  have hkeep : ∀ {id}, Silenced s id → Silenced u id := fun hsil =>
    ⟨hsil.1.step ho hs, hsil.2.step hsil.1 hs⟩
  intro id pre post hhist
  rcases history_step hs with heq | ⟨ev, heq, hstart, hcancel⟩
  · obtain ⟨hsil, hno⟩ := h id pre post (heq ▸ hhist)
    exact ⟨hkeep hsil, hno⟩
  · rcases history_split (heq ▸ hhist) with ⟨rfl, hev⟩ | ⟨post', rfl, hold⟩
    · -- The event is the cancel itself.
      obtain ⟨rfl, hfound⟩ := hcancel id true hev.symm
      have hquiet := quiet_of_cancel ho hfound ha
      have hstop := stopped_of_cancel ho hfound
      cases hs
      exact ⟨⟨hstop, by simpa [Quiet, enterSerial, enter] using hquiet⟩, List.not_mem_nil⟩
    · obtain ⟨hsil, hno⟩ := h id pre post' hold
      refine ⟨hkeep hsil, fun hmem => ?_⟩
      rcases List.mem_append.1 hmem with hmem | hmem
      · exact hno hmem
      · exact hstart id (List.mem_singleton.1 hmem).symm hsil.2

/-- In every run in which nobody cancels a repeating timer whose callback waits in
    a marked batch, no callback of a timer starts after a cancel that found it. -/
theorem no_start_after_cancel {start : Instant} {as : List Step} {s : State}
    (h : Run system.step SparesPending (initial start) as s) (hids : s.shared.nextId ≤ 2 ^ 64)
    (id : TimerId) (pre post : List Event)
    (hhist : s.shared.history = pre ++ .cancelled id true :: post) : .started id ∉ post := by
  have h := serial_of_run h hids
  have hinv : CancelsHold s := by
    refine h.invariant_of (fun _ _ hr => owned_of_run hr) ?_ fun _ _ _ ho hinv ha hs =>
      hinv.step ho ha hs
    intro id pre post hhist
    cases pre <;> cases hhist
  exact (hinv id pre post hhist).2

/-- A repeating timer that cancels itself, and another tick. -/
def cancelSelf : List Step :=
  [.env (.schedule (.repeating (fromMillis 5))), .act 0 .returns, .env (.elapse (fromMillis 10)),
    .env .tick, .act 1 .returns, .act 1 .returns, .act 1 .returns, .env (.cancel 1),
    .act 1 .returns, .act 1 .returns, .env (.elapse (fromMillis 10)), .env .tick, .act 2 .returns,
    .act 2 .returns, .env (.schedule (.once (fromMillis 5))), .act 3 .returns]

theorem no_start_after_cancel_self :
    ∃ s, Run system.step SparesPending (initial 0) cancelSelf s ∧
      s.shared.history = [.scheduled 1 (.repeating (fromMillis 5)), .started 1] ++
        .cancelled 1 true :: [.scheduled 2 (.once (fromMillis 5))] ∧
      .started 1 ∉ [Event.scheduled 2 (.once (fromMillis 5))] := by
  have hend : ∃ s, Run system.step SparesPending (initial 0) cancelSelf s ∧
      s.shared.history = [.scheduled 1 (.repeating (fromMillis 5)), .started 1] ++
        .cancelled 1 true :: [.scheduled 2 (.once (fromMillis 5))] ∧ s.shared.nextId ≤ 2 ^ 64 :=
    Run.exists_of_exec (by decide +kernel)
  obtain ⟨s, hrun, hhist, hids⟩ := hend
  exact ⟨s, hrun, hhist, no_start_after_cancel hrun hids 1 _ _ hhist⟩

/-- Two repeating timers in one batch; the first callback cancels the second timer. -/
def cancelPending : List Step :=
  [.env (.schedule (.repeating (fromMillis 5))), .env (.schedule (.repeating (fromMillis 5))),
    .act 0 .returns, .act 1 .returns, .env (.elapse (fromMillis 10)), .env .tick, .act 2 .returns,
    .act 2 .returns, .act 2 .returns, .env (.cancel 2), .act 2 .returns, .act 2 .returns]

/-- A cancel from the first callback of a batch finds the second timer, and the
    callback of that timer starts all the same. -/
theorem start_after_cancel :
    ∃ s, Run system.step Unrestricted (initial 0) cancelPending s ∧
      s.shared.history = [.scheduled 1 (.repeating (fromMillis 5)),
        .scheduled 2 (.repeating (fromMillis 5)), .started 1] ++
          .cancelled 2 true :: [.started 2] :=
  Run.exists_of_exec (by decide +kernel)

/-! ## Repeating timers that nobody has cancelled -/

/-- The repeating timer is live, in flight, or in a batch that its tick has not
    marked yet. -/
def Tracked (s : State) (id : TimerId) : Prop :=
  (∃ e, s.shared.inner.lookup id = some e ∧ e.kind.isRepeating) ∨
  id ∈ s.shared.inner.inFlight ∨
  ∃ t ∈ s.threads, ∃ e ∈ t.batch, e.id = id ∧ e.kind.isRepeating

/-- A timer is tracked as long as the map, `in_flight` and the batches keep it. -/
theorem Tracked.mono {s u : State} (h : Tracked s id)
    (hlive : ∀ e, s.shared.inner.lookup id = some e → u.shared.inner.lookup id = some e)
    (hflight : id ∈ s.shared.inner.inFlight → id ∈ u.shared.inner.inFlight)
    (hbatch : ∀ t ∈ s.threads, ∀ e ∈ t.batch, ∃ t' ∈ u.threads, e ∈ t'.batch) : Tracked u id := by
  rcases h with ⟨e, he, hr⟩ | hid | ⟨t, ht, e, he, hid, hr⟩
  · exact .inl ⟨e, hlive e he, hr⟩
  · exact .inr (.inl (hflight hid))
  · obtain ⟨t', ht', he'⟩ := hbatch t ht e he
    exact .inr (.inr ⟨t', ht', e, he', hid, hr⟩)

/-- The batches of all calls but one whose batch is empty are kept. -/
theorem batches_at (ht : t.batch = []) : ∀ t'' ∈ l ++ t :: l', ∀ e ∈ t''.batch,
    ∃ t''' ∈ l ++ t' :: l', e ∈ t'''.batch := by
  refine Machine.forall_threads_at.2 ⟨by simp [ht], fun t'' ht'' e he => ⟨t'', ?_, he⟩⟩
  simp only [List.mem_append, List.mem_cons] at ht'' ⊢
  tauto

theorem Tracked.enter {s : State} (h : Tracked s id) (e : Invocation)
    (hother : e ≠ .cancel id) :
    Tracked ⟨(enterSerial s.shared e).1, s.threads ++ (enterSerial s.shared e).2⟩ id := by
  have hbatch : ∀ t ∈ s.threads, ∀ f ∈ t.batch,
      ∃ t' ∈ s.threads ++ (enterSerial s.shared e).2, f ∈ t'.batch :=
    fun t ht f hf => ⟨t, List.mem_append_left _ ht, hf⟩
  cases e with
  | cancel id' =>
    have hne : id ≠ id' := fun heq => hother (heq ▸ rfl)
    refine h.mono (fun e he => ?_) (fun hid => ?_) hbatch
    · simp only [enterSerial, TimerWheel.enter, WheelInner.cancel_lookup, if_neg hne, he]
    · simpa only [enterSerial, TimerWheel.enter, WheelInner.cancel_inFlight] using hid
  | timeUntilNext =>
    obtain ⟨earliest, hframe⟩ := s.shared.inner.timeUntilNext_frame s.shared.clock
    simp only [enterSerial, TimerWheel.enter, hframe] at hbatch ⊢
    exact h.mono (fun _ he => he) (fun hid => hid) hbatch
  | schedule request => exact h.mono (fun _ he => he) (fun hid => hid) hbatch
  | tick => exact h.mono (fun _ he => he) (fun hid => hid) hbatch
  | elapse d => exact h.mono (fun _ he => he) (fun hid => hid) hbatch

theorem mem_unmarked_of_batch {e : TimerEntry} (h : e ∈ t.batch) : e.id ∈ t.unmarked := by
  cases t with
  | advanced expired => exact List.mem_map_of_mem h
  | _ => cases h

/-- A timer that is being scheduled is not tracked yet. -/
theorem Owned.not_tracked {request : Request}
    (ho : Owned ⟨s, l ++ .scheduling id request :: l'⟩) :
    ¬ Tracked ⟨s, l ++ .scheduling id request :: l'⟩ id := by
  have hmem : id ∈ (Call.scheduling id request).held := by simp [Call.held, Call.unmarked]
  obtain ⟨_, hothers, hdead⟩ := ho.held hmem
  have hbatch : ∀ t ∈ l ++ .scheduling id request :: l', ∀ e ∈ t.batch, e.id ≠ id := by
    refine Machine.forall_threads_at.2 ⟨by simp [Call.batch], ?_⟩
    rintro t ht e he rfl
    exact notMem_held_of_total hothers ht (mem_held_of_unmarked (mem_unmarked_of_batch he))
  rintro (⟨e, he, _⟩ | hid | ⟨t, ht, e, he, heid, _⟩)
  · cases hdead.symm.trans he
  · exact (Machine.forall_threads_at.1 (ho.flight id hid).2).1 (by simp [Call.unmarked])
  · exact hbatch t ht e he heid

theorem Tracked.advance {now : Instant} {expired : List TimerEntry} {inner : WheelInner}
    (h : Tracked ⟨s, l ++ .ticking now :: l'⟩ id) (htakes : s.inner.Takes expired inner) :
    Tracked ⟨{ s with inner := inner }, l ++ .advanced expired :: l'⟩ id := by
  rcases h with ⟨e, he, hr⟩ | hid | ⟨t, ht, e, he, heid, hr⟩
  · by_cases hid : id ∈ expired.map TimerEntry.id
    · -- A live timer goes over into the batch.
      obtain ⟨f, hf, rfl⟩ := List.mem_map.1 hid
      have hfe : f = e := Option.some.inj ((htakes.live f hf).symm.trans he)
      exact .inr (.inr ⟨.advanced expired, by simp, f, hf, rfl, hfe ▸ hr⟩)
    · exact .inl ⟨e, (htakes.rest id).trans ((if_neg hid).trans he), hr⟩
  · exact .inr (.inl (htakes.inFlight ▸ hid))
  · obtain ⟨t', ht', he'⟩ := batches_at rfl t ht e he
    exact .inr (.inr ⟨t', ht', e, he', heid, hr⟩)

theorem Tracked.mark {expired : List TimerEntry}
    (h : Tracked ⟨s, l ++ .advanced expired :: l'⟩ id) :
    Tracked ⟨{ s with inner := s.inner.markInFlight expired }, l ++ .firing expired [] :: l'⟩ id := by
  rw [WheelInner.markInFlight_eq]
  rcases h with hlive | hid | ⟨t, ht, e, he, heid, hr⟩
  · exact .inl hlive
  · exact .inr (.inl (Finset.mem_union_left _ hid))
  · simp only [List.mem_append, List.mem_cons] at ht
    rcases ht with ht | rfl | ht
    · exact .inr (.inr ⟨t, by simp [ht], e, he, heid, hr⟩)
    · refine .inr (.inl (Finset.mem_union_right _ (List.mem_toFinset.2 ?_)))
      exact mem_repeatingIds.2 ⟨e, he, hr, heid⟩
    · exact .inr (.inr ⟨t, by simp [ht], e, he, heid, hr⟩)

theorem Tracked.rearm {toReschedule : List TimerEntry}
    (h : Tracked ⟨s, l ++ .firing [] toReschedule :: l'⟩ id)
    (ho : Owned ⟨s, l ++ .firing [] toReschedule :: l'⟩)
    (hnote : id ∉ s.inner.canceledInFlight) :
    Tracked ⟨{ s with inner := s.inner.rearmAll s.clock toReschedule }, l ++ .done :: l'⟩ id := by
  by_cases hid : id ∈ toReschedule.map TimerEntry.id
  · -- The timer is one of the batch, and it is live again.
    obtain ⟨e, he, rfl⟩ := List.mem_map.1 hid
    have hr := (Machine.forall_threads_at.1 ho.repeating).1 e he
    exact .inl (WheelInner.rearmAll_lookup_of_mem ho.nodup_rearm he hnote hr)
  · refine h.mono (fun e he => ?_) (fun hmem => ?_) (batches_at rfl)
    · exact (WheelInner.rearmAll_lookup_of_notMem hid).trans he
    · exact WheelInner.mem_rearmAll_inFlight.2 ⟨hmem, hid⟩

/-- Every repeating timer that was scheduled and that nobody has cancelled is
    tracked. -/
def KeepsTrack (s : State) : Prop :=
  ∀ id interval, .scheduled id (.repeating interval) ∈ s.shared.history →
    (∀ found, .cancelled id found ∉ s.shared.history) → Tracked s id

theorem KeepsTrack.schedule {id' : TimerId} {request : Request}
    (h : KeepsTrack ⟨s, l ++ .scheduling id' request :: l'⟩)
    (ho : Owned ⟨s, l ++ .scheduling id' request :: l'⟩)
    (hinner : s'.inner = s.inner.schedule id' request s.clock)
    (hhistory : s'.history = s.history ++ [.scheduled id' request]) :
    KeepsTrack ⟨s', l ++ .done :: l'⟩ := by
  intro id interval hsched hfirst
  simp only [hhistory] at hsched hfirst
  have hold : ∀ found, .cancelled id found ∉ s.history := fun found hmem =>
    hfirst found (List.mem_append_left _ hmem)
  obtain ⟨kind, heq, hkind⟩ := schedule_eq s.inner id' request s.clock
  rw [heq] at hinner
  rcases List.mem_append.1 hsched with hsched | hsched
  · have htracked := h id interval hsched hold
    have hne : id ≠ id' := by
      rintro rfl
      exact ho.not_tracked htracked
    refine htracked.mono (fun e he => ?_) (fun hid => ?_) (batches_at rfl)
    · simp only [hinner, WheelInner.insertEntry_lookup, if_neg hne]
      exact he
    · simp only [hinner, WheelInner.insertEntry_same.inFlight]
      exact hid
  · cases List.mem_singleton.1 hsched
    refine .inl ⟨⟨id', s.inner.deadlineFor s.clock interval, kind⟩, ?_, hkind.2 ⟨interval, rfl⟩⟩
    simp only [hinner, WheelInner.insertEntry_lookup, if_true]
    rfl

theorem KeepsTrack.enter {s : State} (h : KeepsTrack s) (e : Invocation) :
    KeepsTrack
      ⟨(enterSerial s.shared e).1, s.threads ++ (enterSerial s.shared e).2⟩ := by
  intro id interval hsched hfirst
  cases e with
  | cancel id' =>
    have hmem : .scheduled id (.repeating interval) ∈ s.shared.history := by
      simpa [enterSerial, TimerWheel.enter] using hsched
    have hne : Invocation.cancel id' ≠ .cancel id := by
      intro heq
      cases heq
      exact hfirst _ (List.mem_append_right _ (List.mem_singleton_self _))
    refine (h id interval hmem fun found hfound => ?_).enter _ hne
    exact hfirst found (List.mem_append_left _ hfound)
  | schedule request => exact (h id interval hsched hfirst).enter _ (by simp)
  | tick => exact (h id interval hsched hfirst).enter _ (by simp)
  | timeUntilNext => exact (h id interval hsched hfirst).enter _ (by simp)
  | elapse d => exact (h id interval hsched hfirst).enter _ (by simp)

theorem KeepsTrack.step {s u : State} {a : Step} (h : KeepsTrack s) (ho : Owned s)
    (hs : serial.step s a = some u) : KeepsTrack u := by
  rcases serial_step_cases hs with
    ⟨e, rfl, rfl⟩ | ⟨o, s', t, t', l, l', rfl, hts, hacts, rfl⟩
  · exact h.enter e
  · obtain ⟨shared, threads⟩ := s
    obtain rfl : threads = l ++ t :: l' := hts
    cases hacts with
    | schedule id request => exact h.schedule ho rfl rfl
    | advance now =>
      exact fun id interval hsched hfirst =>
        (h id interval hsched hfirst).advance (WheelInner.takes_advanceTo ho.keyed now)
    | noneDue =>
      exact fun id interval hsched hfirst =>
        (h id interval hsched hfirst).mono (fun _ he => he) (fun hid => hid) (batches_at rfl)
    | mark expired =>
      exact fun id interval hsched hfirst => (h id interval hsched hfirst).mark
    | start entry expired toReschedule =>
      intro id interval hsched hfirst
      have hmem : .scheduled id (.repeating interval) ∈ shared.history := by simpa using hsched
      have hold : ∀ found, .cancelled id found ∉ shared.history := by simpa using hfirst
      exact (h id interval hmem hold).mono (fun _ he => he) (fun hid => hid) (batches_at rfl)
    | rearm toReschedule =>
      intro id interval hsched hfirst
      refine (h id interval hsched hfirst).rearm ho fun hnote => ?_
      obtain ⟨found, hfound⟩ := ho.noted id hnote
      exact hfirst found hfound
    | callbackReturns entry expired toReschedule =>
      exact fun id interval hsched hfirst =>
        (h id interval hsched hfirst).mono (fun _ he => he) (fun hid => hid) (batches_at rfl)
    | callbackPanics entry expired toReschedule =>
      exact fun id interval hsched hfirst =>
        (h id interval hsched hfirst).mono (fun _ he => he) (fun hid => hid) (batches_at rfl)

theorem keepsTrack_of_run {ok : State → Step → Prop} {start : Instant} {as : List Step} {s : State}
    (h : Run serial.step ok (initial start) as s) : KeepsTrack s := by
  refine h.invariant_of (fun _ _ hr => owned_of_run hr) ?_ fun _ _ _ ho hinv _ hs =>
    hinv.step ho hs
  intro id interval hsched
  cases hsched

/-- A stopped timer is never live again. -/
theorem Stopped.lookup_of_run {u v : State} {as bs : List Step} {start : Instant}
    (hu : Run serial.step Unrestricted (initial start) as u) (h : Stopped u id)
    (hv : Run serial.step Unrestricted u bs v) : v.shared.inner.lookup id = none := by
  have hinv : Owned v ∧ Stopped v id := by
    refine hv.invariant (I := fun v => Owned v ∧ Stopped v id) ⟨owned_of_run hu, h⟩ ?_
    exact fun _ _ _ hinv _ hs => ⟨hinv.1.step hs, hinv.2.step hinv.1 hs⟩
  exact hinv.2.dead

/-- The first cancel of a repeating timer finds it, and the timer is never live
    again, exactly when no tick has taken the timer out without having marked it. -/
theorem cancel_repeating_iff {start : Instant} {as : List Step} {s u : State}
    (h : Run system.step Unrestricted (initial start) as s) (hids : s.shared.nextId ≤ 2 ^ 64)
    {interval : Duration} (hsched : .scheduled id (.repeating interval) ∈ s.shared.history)
    (hfirst : ∀ found, .cancelled id found ∉ s.shared.history)
    (hcancel : system.step s (.env (.cancel id)) = some u) :
    ((s.shared.inner.cancel id).1 = true ∧
      ∀ bs v, Run system.step Unrestricted u bs v → v.shared.nextId ≤ 2 ^ 64 →
        v.shared.inner.lookup id = none) ↔
    ∀ t ∈ s.threads, ∀ e ∈ t.batch, e.id ≠ id := by
  have h := serial_of_run h hids
  have hcancel : serial.step s (.env (.cancel id)) = some u := hcancel
  have ho := owned_of_run h
  have hu := h.snoc trivial hcancel
  constructor
  · rintro ⟨hfound, _⟩ t ht e he rfl
    have hmem := mem_unmarked_of_batch he
    rcases WheelInner.cancel_fst.1 hfound with hlive | hflight
    · obtain ⟨f, hf⟩ := Option.ne_none_iff_exists'.1 hlive
      exact notMem_held_of_total (ho.live hf) ht (mem_held_of_unmarked hmem)
    · exact (ho.flight e.id hflight).2 t ht hmem
  · intro hout
    have hfound : (s.shared.inner.cancel id).1 = true := by
      refine WheelInner.cancel_fst.2 ?_
      rcases keepsTrack_of_run h id interval hsched hfirst with ⟨e, he, _⟩ | hid | ⟨t, ht, e, he, heid, _⟩
      · exact .inl (by simp [he])
      · exact .inr hid
      · exact absurd heid (hout t ht e he)
    have hstop := stopped_of_cancel ho hfound
    cases hcancel
    exact ⟨hfound, fun bs v hv hidsv => hstop.lookup_of_run hu (serial_of_run hv hidsv)⟩

/-- A tick fires a repeating timer, and the cancel comes while its callback runs. -/
def cancelRunning : List Step :=
  [.env (.schedule (.repeating (fromMillis 5))), .act 0 .returns, .env (.elapse (fromMillis 10)),
    .env .tick, .act 1 .returns, .act 1 .returns, .act 1 .returns]

theorem cancel_repeating_iff_running : ∃ s u,
    Run system.step Unrestricted (initial 0) cancelRunning s ∧
    system.step s (.env (.cancel 1)) = some u ∧
    (((s.shared.inner.cancel 1).1 = true ∧
      ∀ bs v, Run system.step Unrestricted u bs v → v.shared.nextId ≤ 2 ^ 64 →
        v.shared.inner.lookup 1 = none) ↔
    ∀ t ∈ s.threads, ∀ e ∈ t.batch, e.id ≠ 1) := by
  have hend : ∃ s, Run system.step Unrestricted (initial 0) cancelRunning s ∧
      s.shared.history = [.scheduled 1 (.repeating (fromMillis 5)), .started 1] ∧
      s.shared.nextId ≤ 2 ^ 64 := Run.exists_of_exec (by decide +kernel)
  obtain ⟨s, hrun, hhist, hids⟩ := hend
  have hsched : .scheduled 1 (.repeating (fromMillis 5)) ∈ s.shared.history := by
    rw [hhist]
    exact List.mem_cons_self
  exact ⟨s, _, hrun, rfl, cancel_repeating_iff hrun hids hsched (by simp [hhist]) rfl⟩

/-- A tick has taken a repeating timer out when the cancel comes; it marks the
    timer afterwards and re-arms it. -/
def cancelBeforeMark : List Step :=
  [.env (.schedule (.repeating (fromMillis 5))), .act 0 .returns, .env (.elapse (fromMillis 10)),
    .env .tick, .act 1 .returns, .env (.cancel 1), .act 1 .returns, .act 1 .returns,
    .act 1 .returns, .act 1 .returns]

/-- The first cancel of the timer does not find it, and the timer is live in the
    end. -/
theorem cancel_lost :
    ∃ s, Run system.step Unrestricted (initial 0) cancelBeforeMark s ∧
      s.shared.history = [.scheduled 1 (.repeating (fromMillis 5)), .cancelled 1 false, .started 1] ∧
      s.shared.inner.lookup 1 = some ⟨1, 15, .repeating (fromMillis 5)⟩ :=
  Run.exists_of_exec (by decide +kernel)

end Cancel

end TimerWheel
