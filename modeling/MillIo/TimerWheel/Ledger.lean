-- SUMMARY: What every run keeps about the ids of timers: which are cancelled, new, in flight or in line.
import MillIo.TimerWheel.Cancel
import MillIo.TimerWheel.Queue

/-!
# The ledger

Cancelled timers are stopped for good, nothing has happened to a timer that is not
scheduled yet, and as long as callbacks return `in_flight` has no id without a tick
that will remove it. The ids that calls hold are nowhere in the wheel.
-/
namespace TimerWheel

open Interleaving

/-- Every callback returns. -/
def Returning : State → Step → Prop
  | _, .act _ .panics => False
  | _, _ => True

instance : DecidableRel Returning
  | _, .act _ .panics => .isFalse id
  | _, .act _ .returns => .isTrue trivial
  | _, .env _ => .isTrue trivial

def Request.isRepeating : Request → Bool
  | once _ => false
  | repeating _ => true

/-- The event is about a timer that was there; a cancel in vain is not. -/
def Event.concerns (id : TimerId) : Event → Prop
  | .scheduled i _ => i = id
  | .started i => i = id
  | .cancelled i found => i = id ∧ found = true

section Ledger

variable {s s' : Shared} {t t' : Call} {l l' : List Call} {id : TimerId}

/-! ## Cancelled timers -/

/-- A cancel that found its timer has stopped it, and only such a cancel is noted in
    `canceled_in_flight`. -/
structure Stops (s : State) : Prop where
  stopped : ∀ id, .cancelled id true ∈ s.shared.history → Stopped s id
  noted : ∀ id ∈ s.shared.inner.canceledInFlight, .cancelled id true ∈ s.shared.history

theorem canceledInFlight_act (h : Acts s t s' t') (hk : s.inner.Keyed) :
    s'.inner.canceledInFlight ⊆ s.inner.canceledInFlight := by
  cases h with
  | schedule id request =>
    obtain ⟨kind, heq, _⟩ := schedule_eq s.inner id request s.clock
    simp only [heq, WheelInner.insertEntry_same.canceledInFlight]
    exact Finset.Subset.refl _
  | advance now =>
    simp only [(WheelInner.takes_advanceTo hk now).canceledInFlight]
    exact Finset.Subset.refl _
  | mark expired =>
    rw [WheelInner.markInFlight_eq]
  | rearm toReschedule => exact fun i hi => (WheelInner.mem_rearmAll_canceledInFlight.1 hi).1
  | _ => exact Finset.Subset.refl _

theorem history_act (h : Acts s t s' t') : s.history ⊆ s'.history := by
  cases h <;> first | exact List.Subset.refl _ | exact List.subset_append_left _ _

theorem Stops.step {s u : State} {a : Step} (h : Stops s) (ho : Owned s)
    (hs : serial.step s a = some u) : Stops u := by
  refine ⟨fun id hmem => ?_, fun id hid => ?_⟩
  · rcases history_step hs with heq | ⟨ev, heq, _, hcancel⟩
    · exact (h.stopped id (heq ▸ hmem)).step ho hs
    · rcases List.mem_append.1 (heq ▸ hmem) with hmem | hmem
      · exact (h.stopped id hmem).step ho hs
      · obtain ⟨rfl, hfound⟩ := hcancel id true (List.mem_singleton.1 hmem).symm
        have hstop := stopped_of_cancel ho hfound
        cases hs
        exact hstop
  · rcases serial_step_cases hs with
      ⟨e, rfl, rfl⟩ | ⟨o, s', t, t', l, l', rfl, hts, hacts, rfl⟩
    · cases e with
      | cancel i =>
        simp only [enterSerial, enter, WheelInner.cancel_canceledInFlight] at hid ⊢
        split at hid
        · rename_i hflight
          rcases Finset.mem_insert.1 hid with rfl | hid
          · rw [WheelInner.cancel_fst.2 (.inr hflight.2)]
            exact List.mem_append_right _ List.mem_cons_self
          · exact List.mem_append_left _ (h.noted id hid)
        · exact List.mem_append_left _ (h.noted id hid)
      | timeUntilNext =>
        obtain ⟨earliest, hframe⟩ := s.shared.inner.timeUntilNext_frame s.shared.clock
        simp only [enterSerial, enter, hframe] at hid ⊢
        exact h.noted id hid
      | schedule => exact h.noted id hid
      | tick => exact h.noted id hid
      | elapse => exact h.noted id hid
    · exact history_act hacts (h.noted id (canceledInFlight_act hacts ho.keyed hid))

theorem stops_of_run {ok : State → Step → Prop} {start : Instant} {as : List Step} {s : State}
    (h : Run serial.step ok (initial start) as s) : Stops s := by
  refine h.invariant_of (fun _ _ hr => owned_of_run hr) ?_ fun _ _ _ ho hinv _ hs => hinv.step ho hs
  constructor <;> simp [initial, WheelInner.new]

/-! ## New timers -/

/-- Nothing has happened to a timer. -/
def Unseen (history : List Event) (id : TimerId) : Prop := ∀ ev ∈ history, ¬ ev.concerns id

theorem Unseen.concat {history : List Event} {ev : Event} (h : Unseen history id)
    (hev : ¬ ev.concerns id) : Unseen (history ++ [ev]) id :=
  List.forall_mem_append.2 ⟨h, List.forall_mem_singleton.2 hev⟩

/-- Nothing has happened to the timers that are still to be drawn, or drawn and not
    scheduled yet. -/
structure Fresh (s : State) : Prop where
  drawn : ∀ id, s.shared.nextId ≤ id → Unseen s.shared.history id
  scheduling : ∀ t ∈ s.threads, ∀ id request, t = .scheduling id request →
    Unseen s.shared.history id

/-- A call may record an event about a timer that it holds. -/
theorem Fresh.record {ev : Event} (h : Fresh ⟨s, l ++ t :: l'⟩) (ho : Owned ⟨s, l ++ t :: l'⟩)
    (hnext : s'.nextId = s.nextId) (hhistory : s'.history = s.history ++ [ev])
    (hev : ∀ i, ev.concerns i → i ∈ t.held) (ht' : ∀ i request, t' ≠ .scheduling i request) :
    Fresh ⟨s', l ++ t' :: l'⟩ := by
  refine ⟨fun i hi => ?_, Machine.forall_threads_at.2 ⟨fun i request heq => (ht' i request heq).elim,
    fun t'' ht'' i request heq => ?_⟩⟩
  · simp only [hhistory, hnext] at hi ⊢
    refine (h.drawn i hi).concat fun hconcerns => ?_
    exact Nat.not_le_of_lt (ho.lt_nextId (hev i hconcerns)) hi
  · simp only [hhistory]
    refine ((Machine.forall_threads_at.1 h.scheduling).2 t'' ht'' i request heq).concat
      fun hconcerns => ?_
    refine notMem_held_of_total (ho.held (hev i hconcerns)).2.1 ht'' ?_
    rw [heq]
    exact List.mem_append_left _ List.mem_cons_self

theorem Fresh.move (h : Fresh ⟨s, l ++ t :: l'⟩) (hnext : s'.nextId = s.nextId)
    (hhistory : s'.history = s.history) (ht' : ∀ i request, t' ≠ .scheduling i request) :
    Fresh ⟨s', l ++ t' :: l'⟩ := by
  refine ⟨fun i hi => ?_, Machine.forall_threads_at.2 ⟨fun i request heq => (ht' i request heq).elim,
    ?_⟩⟩
  · simp only [hhistory, hnext] at hi ⊢
    exact h.drawn i hi
  · simp only [hhistory]
    exact (Machine.forall_threads_at.1 h.scheduling).2

theorem Fresh.enter {s : State} (h : Fresh s) (ho : Owned s) (e : Invocation) :
    Fresh ⟨(enterSerial s.shared e).1, s.threads ++ (enterSerial s.shared e).2⟩ := by
  cases e with
  | schedule request =>
    refine ⟨fun i hi => h.drawn i (Nat.le_of_succ_le hi), List.forall_mem_append.2
      ⟨h.scheduling, List.forall_mem_singleton.2 ?_⟩⟩
    intro i request' heq
    cases heq
    exact h.drawn _ (Nat.le_refl _)
  | cancel id =>
    simp only [enterSerial, TimerWheel.enter, List.append_nil]
    have hlive : ∀ i, (Event.cancelled id (s.shared.inner.cancel id).1).concerns i →
        s.shared.inner.lookup i ≠ none ∨ i ∈ s.shared.inner.inFlight := by
      rintro i ⟨rfl, hfound⟩
      exact WheelInner.cancel_fst.1 hfound
    refine ⟨fun i hi => (h.drawn i hi).concat fun hev => ?_, fun t ht i request heq =>
      (h.scheduling t ht i request heq).concat fun hev => ?_⟩
    · rcases hlive i hev with hlive | hflight
      · have hzero := ho.drawn i hi
        simp only [owners, Option.isSome_iff_ne_none.2 hlive, Bool.toNat_true] at hzero
        omega
      · exact Nat.not_le_of_lt (ho.flight_drawn i hflight) hi
    · have hmem : i ∈ t.unmarked := by
        rw [heq]
        exact List.mem_cons_self
      rcases hlive i hev with hlive | hflight
      · obtain ⟨e, he⟩ := Option.ne_none_iff_exists'.1 hlive
        exact notMem_held_of_total (ho.live he) ht (mem_held_of_unmarked hmem)
      · exact (ho.flight i hflight).2 t ht hmem
  | tick =>
    refine ⟨h.drawn, List.forall_mem_append.2 ⟨h.scheduling, List.forall_mem_singleton.2 ?_⟩⟩
    intro i request heq
    cases heq
  | timeUntilNext =>
    simp only [enterSerial, TimerWheel.enter, List.append_nil]
    exact { h with }
  | elapse d =>
    simp only [enterSerial, TimerWheel.enter, List.append_nil]
    exact { h with }

theorem fresh_of_run {ok : State → Step → Prop} {start : Instant} {as : List Step} {s : State}
    (h : Run serial.step ok (initial start) as s) : Fresh s := by
  refine h.invariant_of (fun _ _ hr => owned_of_run hr) ?_ fun t a u ho hinv _ hs => ?_
  · constructor <;> simp [initial, Unseen]
  · rcases serial_step_cases hs with
      ⟨e, rfl, rfl⟩ | ⟨o, s', c, c', l, l', rfl, hts, hacts, rfl⟩
    · exact hinv.enter ho e
    · obtain ⟨shared, threads⟩ := t
      obtain rfl : threads = l ++ c :: l' := hts
      cases hacts with
      | schedule id request =>
        refine hinv.record ho rfl rfl ?_ (by simp)
        rintro i rfl
        exact List.mem_append_left _ List.mem_cons_self
      | start entry expired toReschedule =>
        refine hinv.record ho rfl rfl ?_ (by simp)
        rintro i rfl
        exact mem_held_of_marked List.mem_cons_self
      | _ => exact hinv.move rfl rfl (by simp)

/-! ## In flight -/

/-- Every id in `in_flight` is in the batch of a tick in progress. -/
def Carried (s : State) : Prop :=
  ∀ id ∈ s.shared.inner.inFlight, ∃ t ∈ s.threads, ∃ e ∈ t.marked, e.id = id

theorem Carried.move (h : Carried ⟨s, l ++ t :: l'⟩)
    (hflight : s'.inner.inFlight = s.inner.inFlight)
    (hmarked : ∀ e ∈ t.marked, e.id ∈ s.inner.inFlight → e ∈ t'.marked) :
    Carried ⟨s', l ++ t' :: l'⟩ := by
  intro id hid
  simp only [hflight] at hid
  obtain ⟨e, he, rfl⟩ | hrest := Machine.exists_threads_at.1 (h id hid)
  · exact Machine.exists_threads_at.2 (.inl ⟨e, hmarked e he hid, rfl⟩)
  · exact Machine.exists_threads_at.2 (.inr hrest)

theorem Carried.enter {s : State} (h : Carried s) (e : Invocation) :
    Carried ⟨(enterSerial s.shared e).1, s.threads ++ (enterSerial s.shared e).2⟩ := by
  have hflight : (enterSerial s.shared e).1.inner.inFlight = s.shared.inner.inFlight := by
    cases e with
    | cancel id => exact WheelInner.cancel_inFlight
    | timeUntilNext =>
      obtain ⟨earliest, hframe⟩ := s.shared.inner.timeUntilNext_frame s.shared.clock
      simp only [enterSerial, TimerWheel.enter, hframe]
    | schedule => rfl
    | tick => rfl
    | elapse => rfl
  intro id hid
  simp only [hflight] at hid
  obtain ⟨t, ht, hmarked⟩ := h id hid
  exact ⟨t, List.mem_append_left _ ht, hmarked⟩

theorem Carried.rearm {toReschedule : List TimerEntry}
    (h : Carried ⟨s, l ++ .firing [] toReschedule :: l'⟩) :
    Carried ⟨{ s with inner := s.inner.rearmAll s.clock toReschedule }, l ++ .done :: l'⟩ := by
  intro id hid
  obtain ⟨hold, hout⟩ := WheelInner.mem_rearmAll_inFlight.1 hid
  obtain ⟨e, he, rfl⟩ | hrest := Machine.exists_threads_at.1 (h id hold)
  · exact absurd (List.mem_map_of_mem (by simpa [Call.marked] using he)) hout
  · exact Machine.exists_threads_at.2 (.inr hrest)

/-- A callback that returns does not end its tick. -/
theorem not_done_of_returns {entry : TimerEntry} {expired toReschedule : List TimerEntry} :
    proceed s (.running entry expired toReschedule) .returns ≠ some (s', .done) := by
  simp [proceed]

theorem carried_of_run {start : Instant} {as : List Step} {s : State}
    (h : Run serial.step Returning (initial start) as s) : Carried s := by
  refine Machine.invariant_of_run h (fun _ _ hr => owned_of_run hr) (by simp [Carried, initial,
    WheelInner.new]) ?_ fun x l l' t c y t' ho hinv hok hr => ?_
  · intro x ts e y ts' _ hinv _ he
    have heq : enterSerial x e = (y, ts') := Option.some.inj he
    simpa only [heq] using hinv.enter e
  · cases c with
    | panics => exact hok.elim
    | returns =>
      cases acts_of_proceed hr with
      | schedule id request =>
        obtain ⟨kind, heq, _⟩ := schedule_eq x.inner id request x.clock
        refine hinv.move ?_ (by simp [Call.marked])
        simp only [heq, WheelInner.insertEntry_same.inFlight]
      | advance now =>
        exact hinv.move (WheelInner.takes_advanceTo ho.keyed now).inFlight (by simp [Call.marked])
      | noneDue => exact hinv.move rfl (by simp [Call.marked])
      | mark expired =>
        rw [WheelInner.markInFlight_eq]
        intro id hid
        rcases Finset.mem_union.1 hid with hid | hid
        · obtain ⟨e, he, _⟩ | hrest := Machine.exists_threads_at.1 (hinv id hid)
          · cases he
          · exact Machine.exists_threads_at.2 (.inr hrest)
        · obtain ⟨e, he, _, rfl⟩ := mem_repeatingIds.1 (List.mem_toFinset.1 hid)
          exact Machine.exists_threads_at.2 (.inl ⟨e, List.mem_append_left _ he, rfl⟩)
      | start entry expired toReschedule => exact hinv.move rfl fun e he _ => he
      | rearm toReschedule => exact hinv.rearm
      | callbackReturns entry expired toReschedule =>
        refine hinv.move rfl fun e he hid => ?_
        have hrep := ((Machine.forall_threads_at.1 ho.marked).1 e he).2 hid
        simp only [Call.marked, List.mem_cons, List.mem_append] at he ⊢
        rcases he with rfl | he | he
        · simp [hrep]
        · exact .inl he
        · right
          split
          · exact List.mem_append_left _ he
          · exact he
      | callbackPanics => exact absurd hr not_done_of_returns

/-- What the census of a run leans on. -/
structure Ledger (s : State) : Prop where
  owned : Owned s
  stops : Stops s
  fresh : Fresh s
  carried : Carried s

theorem ledger_of_run {start : Instant} {as : List Step} {s : State}
    (h : Run serial.step Returning (initial start) as s) : Ledger s :=
  ⟨owned_of_run h, stops_of_run h, fresh_of_run h, carried_of_run h⟩

/-! ## Lines -/

theorem schedule_eq_insertEntry (w : WheelInner) (id : TimerId) (request : Request)
    (now : Instant) : ∃ e : TimerEntry, e.id = id ∧ e.kind.isRepeating = request.isRepeating ∧
      w.schedule id request now = w.insertEntry e := by
  cases request with
  | once delay => exact ⟨_, rfl, rfl, rfl⟩
  | repeating interval => exact ⟨_, rfl, rfl, rfl⟩

/-- The ids that calls hold, and those still to be drawn, are not in line. -/
structure InLine (s : State) : Prop where
  lined : s.shared.inner.Lined
  held : ∀ t ∈ s.threads, ∀ id ∈ t.held, s.shared.inner.queued id = 0
  drawn : ∀ id, s.shared.nextId ≤ id → s.shared.inner.queued id = 0

theorem InLine.move (h : InLine ⟨s, l ++ t :: l'⟩) (hlined : s'.inner.Lined)
    (hnext : s'.nextId = s.nextId)
    (hqueued : ∀ id, id ∉ t.held → s.inner.queued id = 0 → s'.inner.queued id = 0)
    (hheld : ∀ id ∈ t'.held, s'.inner.queued id = 0)
    (ho : Owned ⟨s, l ++ t :: l'⟩) : InLine ⟨s', l ++ t' :: l'⟩ := by
  refine ⟨hlined, Machine.forall_threads_at.2 ⟨hheld, fun t'' ht'' id hid => ?_⟩, fun id hid => ?_⟩
  · refine hqueued id (fun hin => ?_) ((Machine.forall_threads_at.1 h.held).2 t'' ht'' id hid)
    exact notMem_held_of_total (ho.held hin).2.1 ht'' hid
  · simp only [hnext] at hid
    refine hqueued id (fun hin => ?_) (h.drawn id hid)
    exact Nat.not_le_of_lt (ho.lt_nextId hin) hid

theorem InLine.act (h : InLine ⟨s, l ++ t :: l'⟩) (ho : Owned ⟨s, l ++ t :: l'⟩)
    (hacts : Acts s t s' t') : InLine ⟨s', l ++ t' :: l'⟩ := by
  have hfree := (Machine.forall_threads_at.1 h.held).1
  have hdone : ∀ {w : WheelInner}, ∀ id ∈ Call.done.held, w.queued id = 0 := by
    simp [Call.held, Call.unmarked, Call.marked]
  cases hacts with
  | schedule id request =>
    obtain ⟨e, rfl, _, heq⟩ := schedule_eq_insertEntry s.inner id request s.clock
    rw [heq]
    refine h.move (h.lined.insertEntry (hfree e.id (mem_held_of_unmarked List.mem_cons_self))) rfl
      (fun i hi hzero => ?_) hdone ho
    have hne : i ∉ [e.id] := fun hmem => hi (mem_held_of_unmarked hmem)
    rw [WheelInner.queued_insertEntry, hzero, List.count_eq_zero_of_not_mem hne]
  | advance now =>
    have hsheds := WheelInner.sheds_advanceTo (w := s.inner) now
    have htakes := WheelInner.takes_advanceTo ho.keyed now
    refine h.move (h.lined.sheds hsheds) rfl (fun i _ hzero => ?_) (fun i hi => ?_) ho
    · exact Nat.eq_zero_of_le_zero (hzero ▸ hsheds.le i)
    · have hmem : i ∈ (s.inner.advanceTo now).1.map TimerEntry.id := by
        simpa [Call.held, Call.unmarked, Call.marked] using hi
      obtain ⟨e, he, rfl⟩ := List.mem_map.1 hmem
      have hlive : s.inner.lookup e.id ≠ none := htakes.live e he ▸ Option.some_ne_none e
      exact hsheds.gone e.id hlive ((htakes.rest e.id).trans (if_pos hmem)) (h.lined e.id hlive).le
  | noneDue => exact h.move h.lined rfl (fun _ _ hzero => hzero) hdone ho
  | mark expired =>
    rw [WheelInner.markInFlight_eq]
    refine h.move h.lined rfl (fun _ _ hzero => hzero) (fun i hi => hfree i ?_) ho
    simpa [Call.held, Call.unmarked, Call.marked] using hi
  | start entry expired toReschedule =>
    exact h.move h.lined rfl (fun _ _ hzero => hzero) hfree ho
  | rearm toReschedule =>
    have hheld : ∀ e ∈ toReschedule, e.id ∈ (Call.firing [] toReschedule).held :=
      fun e he => mem_held_of_marked he
    refine h.move (h.lined.rearmAll ho.nodup_rearm fun e he => hfree e.id (hheld e he)) rfl
      (fun i hi hzero => ?_) hdone ho
    rw [WheelInner.rearmAll_queued_of_notMem fun hmem => ?_, hzero]
    obtain ⟨e, he, rfl⟩ := List.mem_map.1 hmem
    exact hi (hheld e he)
  | callbackReturns entry expired toReschedule =>
    refine h.move h.lined rfl (fun _ _ hzero => hzero) (fun i hi => hfree i ?_) ho
    obtain ⟨e, he, rfl⟩ := List.mem_map.1 hi
    exact mem_held_of_marked (marked_callbackReturns _ _ _ he)
  | callbackPanics => exact h.move h.lined rfl (fun _ _ hzero => hzero) hdone ho

theorem InLine.enter {s : State} (h : InLine s) (e : Invocation) :
    InLine ⟨(enterSerial s.shared e).1, s.threads ++ (enterSerial s.shared e).2⟩ := by
  cases e with
  | schedule request =>
    refine ⟨h.lined, List.forall_mem_append.2 ⟨h.held, List.forall_mem_singleton.2 fun i hi => ?_⟩,
      fun i hi => h.drawn i (Nat.le_of_succ_le hi)⟩
    have heq : i = s.shared.nextId := by simpa [Call.held, Call.unmarked, Call.marked] using hi
    exact h.drawn i heq.ge
  | cancel id =>
    simp only [enterSerial, TimerWheel.enter, List.append_nil]
    refine ⟨h.lined.cancel id, fun t ht i hi => ?_, fun i hi => ?_⟩
    · exact WheelInner.queued_cancel.trans (h.held t ht i hi)
    · exact WheelInner.queued_cancel.trans (h.drawn i hi)
  | tick =>
    refine ⟨h.lined, List.forall_mem_append.2 ⟨h.held, List.forall_mem_singleton.2 ?_⟩, h.drawn⟩
    simp [Call.held, Call.unmarked, Call.marked]
  | timeUntilNext =>
    obtain ⟨earliest, hframe⟩ := s.shared.inner.timeUntilNext_frame s.shared.clock
    simp only [enterSerial, TimerWheel.enter, List.append_nil, hframe]
    exact { h with }
  | elapse d =>
    simp only [enterSerial, TimerWheel.enter, List.append_nil]
    exact { h with }

theorem inLine_of_run {ok : State → Step → Prop} {start : Instant} {as : List Step} {s : State}
    (h : Run serial.step ok (initial start) as s) : InLine s := by
  refine Machine.invariant_of_run h (fun _ _ hr => owned_of_run hr) ?_ ?_
    fun x l l' t c y t' ho hinv _ hr => hinv.act ho (acts_of_proceed hr)
  · have hqueued : ∀ id, (WheelInner.new start).queued id = 0 := fun id =>
      List.count_eq_zero.2 fun hmem => WheelInner.not_holds_new start (WheelInner.mem_allIds.1 hmem)
    exact ⟨fun id hid => (hid rfl).elim, by simp [initial], fun id _ => hqueued id⟩
  · intro x ts e y ts' _ hinv _ he
    have heq : enterSerial x e = (y, ts') := Option.some.inj he
    simpa only [heq] using hinv.enter e

end Ledger

end TimerWheel
