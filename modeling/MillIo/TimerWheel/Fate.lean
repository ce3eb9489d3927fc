-- SUMMARY: What becomes of a timer: a one-shot timer runs when the cursor has passed its deadline, and what a callback that panics takes along never runs again.
import MillIo.TimerWheel.Census
import MillIo.TimerWheel.Layout
import MillIo.TimerWheel.Waiting

/-!
# The fate of a timer

A one-shot timer that nobody cancels leaves the map once, for the batch of the tick that
runs it. While no tick is in progress the cursor tells whether this has happened. A panic
unwinds through its tick, and with it goes what the tick had in its local variables; of the
repeating timers among it `in_flight` keeps the ids.
-/
namespace TimerWheel

open Interleaving WheelInner

/-- Callbacks return, and deadlines are computed in time. -/
def Regular : State → Step → Prop := fun s a => Returning s a ∧ OnTime s a

instance : DecidableRel Regular := fun s a => inferInstanceAs (Decidable (Returning s a ∧ OnTime s a))

/-- The timer waits with its entry and has not run, or it has left the map for good and the
    cursor has got to its deadline. -/
def Fated (e : TimerEntry) (s : State) : Prop :=
  (Waits (· = e) e.id s ∧ .started e.id ∉ s.shared.history) ∨
    (s.shared.inner.lookup e.id = none ∧ e.deadlineTick ≤ s.shared.inner.currentTick)

section Fate

variable {P : TimerEntry → Prop} {start : Instant} {s u v : State} {a : Step} {as bs : List Step}
  {id : TimerId} {request : Request} {e : TimerEntry}

/-! ## Steps -/

theorem pending_subset (t : Call) : t.pending ⊆ t.marked := by
  cases t with
  | firing expired toReschedule => exact List.subset_append_left _ _
  | running entry expired toReschedule =>
    exact List.subset_cons_of_subset _ (List.subset_append_left _ _)
  | _ => exact List.nil_subset _

/-- No callback of a timer that waits in the wheel is about to start. -/
theorem Waits.quiet (h : Waits P id s) : Quiet s id := fun t ht _ he heid =>
  h.free t ht (heid ▸ mem_held_of_marked (pending_subset t he))

theorem history_subset (hs : serial.step s a = some u) : s.shared.history ⊆ u.shared.history := by
  rcases history_step hs with heq | ⟨ev, heq, -⟩
  · rw [heq]
    exact List.Subset.refl _
  · rw [heq]
    exact List.subset_append_left _ _

/-- The step does not start the callback of a timer that is not about to start. -/
theorem Quiet.count_started (h : Quiet s id) (hs : serial.step s a = some u) :
    u.shared.history.count (.started id) = s.shared.history.count (.started id) := by
  rcases history_step hs with heq | ⟨ev, heq, hstart, -⟩
  · rw [heq]
  · have hne : ev ≠ .started id := fun hev => hstart id hev h
    simp [heq, hne]

theorem lookup_of_enter {x : Shared} {invocation : Invocation} {f : TimerEntry}
    (h : (enterSerial x invocation).1.inner.lookup id = some f) : x.inner.lookup id = some f := by
  cases invocation with
  | cancel id' =>
    simp only [enterSerial, enter, cancel_lookup] at h
    split at h
    · cases h
    · exact h
  | timeUntilNext =>
    obtain ⟨earliest, hframe⟩ := x.inner.timeUntilNext_frame x.clock
    simp only [enterSerial, enter, hframe] at h
    exact h
  | schedule | tick | elapse => exact h

/-- A one-shot timer that has left the map does not come back. -/
theorem Followed.stays_dead (h : Followed s id request) (honce : request.isRepeating = false)
    (ho : Owned s) (hf : Fresh s) (hsched : .scheduled id request ∈ s.shared.history)
    (hdead : s.shared.inner.lookup id = none) (hs : serial.step s a = some u) :
    u.shared.inner.lookup id = none := by
  rcases serial_step_cases hs with ⟨e, rfl, rfl⟩ | ⟨o, y, t, t', l, l', rfl, hts, hacts, rfl⟩
  · by_contra hlive
    obtain ⟨f, hlookup⟩ := Option.ne_none_iff_exists'.1 hlive
    cases hdead.symm.trans (lookup_of_enter hlookup)
  · obtain ⟨x, threads⟩ := s
    obtain rfl : threads = l ++ t :: l' := hts
    cases hacts with
    | schedule id' request' =>
      have hne : id ≠ id' := by
        rintro rfl
        exact (Machine.forall_threads_at.1 hf.scheduling).1 id request' rfl _ hsched rfl
      obtain ⟨f, rfl, -, heq⟩ := schedule_eq_insertEntry x.inner id' request' x.clock
      simp only [heq, insertEntry_lookup, if_neg hne]
      exact hdead
    | advance now =>
      simp only [(takes_advanceTo ho.keyed now).rest id]
      split
      · rfl
      · exact hdead
    | mark expired =>
      rw [markInFlight_eq]
      exact hdead
    | rearm toReschedule =>
      have hmem : id ∉ toReschedule.map TimerEntry.id := by
        intro hmem
        obtain ⟨f, hf', rfl⟩ := List.mem_map.1 hmem
        have hrepeating := (Machine.forall_threads_at.1 ho.repeating).1 f hf'
        have hkind := (Machine.forall_threads_at.1 h.batch).1 f hf' rfl
        rw [honce, hrepeating] at hkind
        cases hkind
      exact (rearmAll_lookup_of_notMem hmem).trans hdead
    | noneDue | start | callbackReturns | callbackPanics => exact hdead

/-- What is collected is out of the map. -/
theorem Collects.lookup {now : Instant} (hc : Collects id now s a) (ho : Owned s)
    (hs : serial.step s a = some u) : u.shared.inner.lookup id = none := by
  obtain ⟨j, o, rfl, ht, hmem⟩ := hc
  obtain ⟨t, ⟨y, t'⟩, ht', hr, rfl⟩ := Machine.step_act_iff.1 hs
  obtain rfl := Option.some.inj (ht'.symm.trans ht)
  cases acts_of_proceed hr with
  | advance => exact ((takes_advanceTo ho.keyed now).rest id).trans (if_pos hmem)

/-! ## One-shot timers -/

theorem Fated.step (h : Fated e s) (hst : Steady start s) (hf : Fresh s)
    (hfollowed : Followed s e.id request) (honce : request.isRepeating = false)
    (hsched : .scheduled e.id request ∈ s.shared.history) (hs : serial.step s a = some u) :
    Fated e u := by
  rcases h with ⟨hwaits, hnot⟩ | ⟨hdead, hpassed⟩
  · rcases hwaits.step hst.owned.keyed hs with hstill | ⟨now, hc⟩
    · refine .inl ⟨hstill, ?_⟩
      rw [← List.count_eq_zero] at hnot ⊢
      exact (hwaits.quiet.count_started hs).trans hnot
    · obtain ⟨f, hlive, hreach⟩ := hst.reaches hc
      obtain rfl := hwaits.entry f hlive
      refine .inr ⟨hc.lookup hst.owned hs, ?_⟩
      rw [hc.currentTick hs]
      exact hreach.le.trans (Nat.le_max_right _ _)
  · refine .inr ⟨hfollowed.stays_dead honce hst.owned hf hsched hdead hs, ?_⟩
    exact hpassed.trans (hst.owned.cursor_mono hs).1

/-- The step that schedules a timer enters it with its deadline. -/
theorem fated_of_schedule {i : ℕ} {delay : Duration} (hst : Steady start s) (hf : Fresh s)
    (hcall : s.threads[i]? = some (.scheduling id (.once delay)))
    (hs : serial.step s (.act i .returns) = some u) :
    Fated ⟨id, s.shared.inner.deadlineFor s.shared.clock delay, .once⟩ u ∧
      .scheduled id (.once delay) ∈ u.shared.history := by
  obtain ⟨x, threads⟩ := s
  obtain ⟨t, r, ht, hr, rfl⟩ := Machine.step_act_iff.1 hs
  obtain rfl := Option.some.inj (ht.symm.trans hcall)
  obtain ⟨l, l', hts, rfl, hset⟩ := Machine.split_at ht
  obtain rfl : threads = l ++ .scheduling id (.once delay) :: l' := hts
  cases hr
  have hid : id ∈ (Call.scheduling id (.once delay)).held := mem_held_of_unmarked List.mem_cons_self
  have hunseen := (Machine.forall_threads_at.1 hf.scheduling).1 id _ rfl
  refine ⟨.inl ⟨⟨fun f hlookup => ?_, ?_, hst.owned.lt_nextId hid⟩, ?_⟩, by simp⟩
  · simp only [WheelInner.schedule, scheduleOnce, insertEntry_lookup, if_true] at hlookup
    exact (Option.some.inj hlookup).symm
  · rw [hset]
    refine Machine.forall_threads_at.2 ⟨notMem_held_done, fun t' ht' => ?_⟩
    exact notMem_held_of_total (hst.owned.held hid).2.1 ht'
  · simp only [List.mem_append, List.mem_singleton, reduceCtorEq, or_false]
    exact fun hmem => hunseen (.started id) hmem rfl

/-- A timer that is followed, is not with a tick and has not been cancelled is live, or it has
    run once. -/
theorem Followed.runs_once (h : Followed s id request) (honce : request.isRepeating = false)
    (hsettled : Settled s) (hkept : .cancelled id true ∉ s.shared.history) :
    (s.shared.inner.lookup id ≠ none ∧ s.shared.history.count (.started id) = 0) ∨
      (s.shared.inner.lookup id = none ∧ s.shared.history.count (.started id) = 1) := by
  have hstarts := h.starts honce
  obtain ⟨stage, hstage⟩ := h.stage
  cases stage with
  | live =>
    refine .inl ⟨hstage, ?_⟩
    simp only [prospects, Option.isSome_iff_ne_none.2 hstage, Bool.toNat_true] at hstarts
    omega
  | held => cases (hsettled.holders id).symm.trans hstage
  | finished =>
    have hpos := List.count_pos_iff.2 hstage.2.1
    simp only [prospects] at hstarts
    refine .inr ⟨?_, by omega⟩
    by_contra hlive
    simp only [Option.isSome_iff_ne_none.2 hlive, Bool.toNat_true] at hstarts
    omega
  | cancelled => exact absurd hstage.2 hkept

/-- In every run whose callbacks return and whose deadlines are computed in time: while no tick
    is in progress, a one-shot timer that nobody has cancelled is live with the deadline it was
    scheduled with, which the cursor has not passed, and has not run; or it has run, exactly
    once, and the cursor has got to that deadline. -/
theorem once_runs_when_due {i : ℕ} {delay : Duration}
    (h : Run system.step Regular (initial start) as s)
    (hcall : s.threads[i]? = some (.scheduling id (.once delay)))
    (hok : Regular s (.act i .returns)) (hs : system.step s (.act i .returns) = some u)
    (hv : Run system.step Regular u bs v) (hids : v.shared.nextId ≤ 2 ^ 64) (hsettled : Settled v)
    (hkept : .cancelled id true ∉ v.shared.history) :
    (v.shared.inner.lookup id = some ⟨id, s.shared.inner.deadlineFor s.shared.clock delay, .once⟩ ∧
      v.shared.inner.currentTick ≤ s.shared.inner.deadlineFor s.shared.clock delay ∧
      v.shared.history.count (.started id) = 0) ∨
    (v.shared.inner.lookup id = none ∧
      s.shared.inner.deadlineFor s.shared.clock delay ≤ v.shared.inner.currentTick ∧
      v.shared.history.count (.started id) = 1) := by
  obtain ⟨h, hs, hv⟩ := serial_of_runs h hs hv hids
  generalize hdeadline : s.shared.inner.deadlineFor s.shared.clock delay = deadline
  have hrun : ∀ cs w, Run serial.step Regular u cs w → ∃ ds, Run serial.step Regular (initial start) ds w :=
    fun cs w hw => ⟨_, (h.snoc hok hs).trans hw⟩
  have hcensus : ∀ cs w, Run serial.step Regular u cs w → Steady start w ∧ Fresh w ∧ Census w := by
    intro cs w hw
    obtain ⟨ds, hds⟩ := hrun cs w hw
    exact ⟨steady_of_run hds, fresh_of_run hds, census_of_run (hds.mono fun _ _ hreg => hreg.1)⟩
  obtain ⟨hfated, hsched⟩ : Fated ⟨id, deadline, .once⟩ v ∧
      .scheduled id (.once delay) ∈ v.shared.history := by
    refine hv.invariant_of (I := fun w => Fated ⟨id, deadline, .once⟩ w ∧
      .scheduled id (.once delay) ∈ w.shared.history) hcensus ?_ ?_
    · rw [← hdeadline]
      exact fated_of_schedule (steady_of_run h) (fresh_of_run h) hcall hs
    · rintro w a x ⟨hst, hf, hcensus⟩ ⟨hfated, hsched⟩ _ hstep
      exact ⟨hfated.step hst hf (hcensus id _ hsched) rfl hsched hstep, history_subset hstep hsched⟩
  obtain ⟨-, -, hcensus⟩ := hcensus bs v hv
  obtain ⟨ds, hds⟩ := hrun bs v hv
  have hwheel := ok_of_run (hds.mono fun _ _ hreg => hreg.2)
  rcases (hcensus id _ hsched).runs_once rfl hsettled hkept with ⟨hlive, hzero⟩ | ⟨hdead, hone⟩
  · obtain ⟨f, hlookup⟩ := Option.ne_none_iff_exists'.1 hlive
    rcases hfated with ⟨hwaits, -⟩ | ⟨hdead, -⟩
    · obtain rfl := hwaits.entry f hlookup
      exact .inl ⟨hlookup, hwheel.ahead hlookup, hzero⟩
    · exact absurd hdead hlive
  · rcases hfated with ⟨-, hnot⟩ | ⟨-, hpassed⟩
    · rw [← List.count_eq_zero] at hnot
      cases hnot.symm.trans hone
    · exact .inr ⟨hdead, hpassed, hone⟩

/-- A timer of five milliseconds, before and after the tick that runs it. -/
theorem once_runs_when_due_five : ∃ s u v,
    Run system.step Regular (initial 0) [.env (.schedule (.once (fromMillis 5)))] s ∧
    system.step s (.act 0 .returns) = some u ∧
    Run system.step Regular u [.env (.elapse (fromMillis 10)), .env .tick, .act 1 .returns,
      .act 1 .returns, .act 1 .returns, .act 1 .returns, .act 1 .returns] v ∧
    ((u.shared.inner.lookup 1 = some ⟨1, 5, .once⟩ ∧ u.shared.inner.currentTick ≤ 5 ∧
        u.shared.history.count (.started 1) = 0) ∨
      (u.shared.inner.lookup 1 = none ∧ 5 ≤ u.shared.inner.currentTick ∧
        u.shared.history.count (.started 1) = 1)) ∧
    ((v.shared.inner.lookup 1 = some ⟨1, 5, .once⟩ ∧ v.shared.inner.currentTick ≤ 5 ∧
        v.shared.history.count (.started 1) = 0) ∨
      (v.shared.inner.lookup 1 = none ∧ 5 ≤ v.shared.inner.currentTick ∧
        v.shared.history.count (.started 1) = 1)) := by
  obtain ⟨s, hrun, ⟨hcall, hdeadline, hok⟩, u, hs, ⟨husettled, hukept, huids⟩, v, hv,
      hvsettled, hvkept, hvids⟩ :
      ∃ s, Run system.step Regular (initial 0) [.env (.schedule (.once (fromMillis 5)))] s ∧
        (s.threads[0]? = some (.scheduling 1 (.once (fromMillis 5))) ∧
          s.shared.inner.deadlineFor s.shared.clock (fromMillis 5) = 5 ∧
          Regular s (.act 0 .returns)) ∧
        ∃ u, system.step s (.act 0 .returns) = some u ∧
          (Settled u ∧ .cancelled 1 true ∉ u.shared.history ∧ u.shared.nextId ≤ 2 ^ 64) ∧
          ∃ v, Run system.step Regular u [.env (.elapse (fromMillis 10)), .env .tick, .act 1 .returns,
            .act 1 .returns, .act 1 .returns, .act 1 .returns, .act 1 .returns] v ∧
            Settled v ∧ .cancelled 1 true ∉ v.shared.history ∧ v.shared.nextId ≤ 2 ^ 64 := by
    refine ⟨_, .of_isSome (by decide +kernel), ⟨rfl, rfl, by decide +kernel⟩, _,
      (Option.some_get (by decide +kernel)).symm, ?_, _, .of_isSome (by decide +kernel), ?_⟩
    · exact ⟨by unfold Settled; decide +kernel, by decide +kernel, by decide +kernel⟩
    · exact ⟨by unfold Settled; decide +kernel, by decide +kernel, by decide +kernel⟩
  have hu := once_runs_when_due hrun hcall hok hs .refl huids husettled hukept
  have hv' := once_runs_when_due hrun hcall hok hs hv hvids hvsettled hvkept
  rw [hdeadline] at hu hv'
  exact ⟨s, u, v, hrun, hs, hv, hu, hv'⟩

/-! ## Callbacks that panic -/

/-- No call has the timer, it is not live, and it is in flight for ever, or never. -/
structure Lost (id : TimerId) (flying : Bool) (s : State) : Prop where
  waits : Waits (fun _ => False) id s
  flight : id ∈ s.shared.inner.inFlight ↔ flying = true

theorem Lost.dead {flying : Bool} (h : Lost id flying s) : s.shared.inner.lookup id = none := by
  by_contra hlive
  obtain ⟨f, hlookup⟩ := Option.ne_none_iff_exists'.1 hlive
  exact h.waits.entry f hlookup

theorem Lost.step {flying : Bool} (h : Lost id flying s) (hst : Steady start s)
    (hs : serial.step s a = some u) : Lost id flying u := by
  refine ⟨?_, ?_⟩
  · rcases h.waits.step hst.owned.keyed hs with hstill | ⟨now, hc⟩
    · exact hstill
    · obtain ⟨f, hlookup, -⟩ := hst.reaches hc
      exact (h.waits.entry f hlookup).elim
  · rw [← h.flight]
    rcases serial_step_cases hs with ⟨e, rfl, rfl⟩ | ⟨o, y, t, t', l, l', rfl, hts, hacts, rfl⟩
    · cases e with
      | cancel id' => exact (congrArg (id ∈ ·) cancel_inFlight).to_iff
      | timeUntilNext =>
        obtain ⟨earliest, hframe⟩ := s.shared.inner.timeUntilNext_frame s.shared.clock
        simp only [enterSerial, enter, hframe]
      | schedule | tick | elapse => rfl
    · obtain ⟨x, threads⟩ := s
      obtain rfl : threads = l ++ t :: l' := hts
      have hout := (Machine.forall_threads_at.1 h.waits.free).1
      cases hacts with
      | schedule id' request =>
        obtain ⟨f, -, -, heq⟩ := schedule_eq_insertEntry x.inner id' request x.clock
        simp only [heq, insertEntry_same.inFlight]
      | advance now => simp only [(takes_advanceTo hst.owned.keyed now).inFlight]
      | mark expired =>
        have hmem : id ∉ repeatingIds expired := by
          intro hmem
          obtain ⟨f, hf, -, rfl⟩ := mem_repeatingIds.1 hmem
          exact hout (mem_held_of_unmarked (List.mem_map_of_mem hf))
        simp [markInFlight_eq, hmem]
      | rearm toReschedule =>
        have hmem : id ∉ toReschedule.map TimerEntry.id := by
          simpa [Call.held, Call.unmarked, Call.marked] using hout
        simp [mem_rearmAll_inFlight, hmem]
      | noneDue | start | callbackReturns | callbackPanics => rfl

/-- A panic loses the entry whose callback runs and all that its tick has still to run or to
    re-arm. -/
theorem lost_of_panic {i : ℕ} {entry : TimerEntry} {expired toReschedule : List TimerEntry}
    (hst : Steady start s) (hcall : s.threads[i]? = some (.running entry expired toReschedule))
    (hs : serial.step s (.act i .panics) = some u) (he : e ∈ entry :: (expired ++ toReschedule)) :
    Lost e.id e.kind.isRepeating u := by
  obtain ⟨x, threads⟩ := s
  obtain ⟨t, r, ht, hr, rfl⟩ := Machine.step_act_iff.1 hs
  obtain rfl := Option.some.inj (ht.symm.trans hcall)
  obtain ⟨l, l', hts, rfl, hset⟩ := Machine.split_at ht
  obtain rfl : threads = l ++ .running entry expired toReschedule :: l' := hts
  cases hr
  have hid : e.id ∈ (Call.running entry expired toReschedule).held := mem_held_of_marked he
  obtain ⟨-, hothers, hdead⟩ := hst.owned.held hid
  refine ⟨⟨fun f hlookup => ?_, ?_, hst.owned.lt_nextId hid⟩, ?_⟩
  · cases hdead.symm.trans hlookup
  · rw [hset]
    refine Machine.forall_threads_at.2 ⟨notMem_held_done, fun t' ht' => ?_⟩
    exact notMem_held_of_total hothers ht'
  · exact ((Machine.forall_threads_at.1 hst.owned.marked).1 e he).symm

/-- In every run: after a callback has panicked, the timer it belongs to and all that its tick
    had still to run or to re-arm are never live again and never run again. A cancel finds the
    repeating ones among them for ever, and the others never. -/
theorem panic_loses {i : ℕ} {entry : TimerEntry} {expired toReschedule : List TimerEntry}
    (h : Run system.step Unrestricted (initial start) as s)
    (hcall : s.threads[i]? = some (.running entry expired toReschedule))
    (hs : system.step s (.act i .panics) = some u) (hv : Run system.step Unrestricted u bs v)
    (hids : v.shared.nextId ≤ 2 ^ 64) :
    ∀ e ∈ entry :: (expired ++ toReschedule), v.shared.inner.lookup e.id = none ∧
      v.shared.history.count (.started e.id) = u.shared.history.count (.started e.id) ∧
      (v.shared.inner.cancel e.id).1 = e.kind.isRepeating := by
  intro e he
  obtain ⟨h, hs, hv⟩ := serial_of_runs h hs hv hids
  have hu : ∀ cs w, Run serial.step Unrestricted u cs w → Steady start w := fun cs w hw =>
    steady_of_run ((h.snoc trivial hs).trans hw)
  obtain ⟨hlost, hcount⟩ : Lost e.id e.kind.isRepeating v ∧
      v.shared.history.count (.started e.id) = u.shared.history.count (.started e.id) := by
    refine hv.invariant_of (I := fun w => Lost e.id e.kind.isRepeating w ∧
      w.shared.history.count (.started e.id) = u.shared.history.count (.started e.id)) hu
      ⟨lost_of_panic (steady_of_run h) hcall hs he, rfl⟩ ?_
    rintro w a x hst ⟨hlost, hcount⟩ _ hstep
    exact ⟨hlost.step hst hstep, (hlost.waits.quiet.count_started hstep).trans hcount⟩
  refine ⟨hlost.dead, hcount, ?_⟩
  rw [Bool.eq_iff_iff, cancel_fst, ← hlost.flight]
  simp [hlost.dead]

/-- The lists of a tick inside a callback, which can be compared. -/
def Call.inCallback : Call → Option (TimerEntry × List TimerEntry × List TimerEntry)
  | .running entry expired toReschedule => some (entry, expired, toReschedule)
  | _ => none

theorem running_of_inCallback {t : Option Call} {entry : TimerEntry}
    {expired toReschedule : List TimerEntry}
    (h : t.bind Call.inCallback = some (entry, expired, toReschedule)) :
    t = some (.running entry expired toReschedule) := by
  obtain ⟨t, rfl, ht⟩ := Option.bind_eq_some_iff.1 h
  cases t <;> cases ht
  rfl

/-- A repeating timer panics and takes a one-shot timer along; a tick two milliseconds later. -/
theorem panic_loses_batch : ∃ s u v,
    Run system.step Unrestricted (initial 0) [.env (.schedule (.repeating 1000000)),
      .act 0 .returns, .env (.schedule (.once 1000000)), .act 1 .returns, .env (.elapse 2000000),
      .env .tick, .act 2 .returns, .act 2 .returns, .act 2 .returns] s ∧
    system.step s (.act 2 .panics) = some u ∧
    Run system.step Unrestricted u [.env (.elapse 2000000), .env .tick, .act 3 .returns,
      .act 3 .returns] v ∧
    ∀ e ∈ ([⟨1, 1, .repeating 1000000⟩, ⟨2, 1, .once⟩] : List TimerEntry),
      v.shared.inner.lookup e.id = none ∧
      v.shared.history.count (.started e.id) = u.shared.history.count (.started e.id) ∧
      (v.shared.inner.cancel e.id).1 = e.kind.isRepeating := by
  obtain ⟨s, hrun, hcall, u, hs, v, hv, hids⟩ : ∃ s,
      Run system.step Unrestricted (initial 0) [.env (.schedule (.repeating 1000000)),
        .act 0 .returns, .env (.schedule (.once 1000000)), .act 1 .returns, .env (.elapse 2000000),
        .env .tick, .act 2 .returns, .act 2 .returns, .act 2 .returns] s ∧
      s.threads[2]?.bind Call.inCallback = some (⟨1, 1, .repeating 1000000⟩, [⟨2, 1, .once⟩], []) ∧
      ∃ u ∈ system.step s (.act 2 .panics),
        ∃ v ∈ exec system.step Unrestricted u
          [.env (.elapse 2000000), .env .tick, .act 3 .returns, .act 3 .returns],
        v.shared.nextId ≤ 2 ^ 64 := Run.exists_of_exec (by decide +kernel)
  have hv := Run.of_exec hv
  exact ⟨s, u, v, hrun, hs, hv, panic_loses hrun (running_of_inCallback hcall) hs hv hids⟩

end Fate

end TimerWheel
