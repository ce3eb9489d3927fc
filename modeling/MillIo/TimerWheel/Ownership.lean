-- SUMMARY: Every timer is in one place at a time: live in the wheel, or held by one call in progress, and `in_flight` knows which.
import MillIo.TimerWheel.Serial

/-!
# Ownership

A timer id is drawn by a schedule, becomes live in the wheel, is taken out by
the tick whose batch it falls into, and becomes live again when that tick re-arms
it. The invariant below says that at each moment at most one of these has it, and
that the ids in `in_flight` are exactly those beyond the marking of their tick.
It needs nothing of the clock and holds in every run.
-/
namespace TimerWheel

open Interleaving

/-! ## What a call holds -/

namespace Call

/-- The ids a call holds that are not in `in_flight` on its account. -/
def unmarked : Call → List TimerId
  | scheduling id _ => [id]
  | advanced expired => expired.map TimerEntry.id
  | _ => []

/-- The entries of a batch that has been marked as in flight. -/
def marked : Call → List TimerEntry
  | firing expired toReschedule => expired ++ toReschedule
  | running entry expired toReschedule => entry :: (expired ++ toReschedule)
  | _ => []

/-- The entries that wait to be re-armed. -/
def toReschedule : Call → List TimerEntry
  | firing _ toReschedule => toReschedule
  | running _ _ toReschedule => toReschedule
  | _ => []

/-- All ids that a call holds. -/
def held (t : Call) : List TimerId := t.unmarked ++ t.marked.map TimerEntry.id

/-- How often a call holds an id. -/
def holdings (id : TimerId) (t : Call) : ℕ := t.held.count id

end Call

/-- How often an id is held by a call or live in the wheel. -/
def owners (s : State) (id : TimerId) : ℕ :=
  Machine.total (Call.holdings id) s.threads + (s.shared.inner.lookup id).isSome.toNat

structure Owned (s : State) : Prop where
  keyed : s.shared.inner.Keyed
  single : ∀ id, owners s id ≤ 1
  drawn : ∀ id, s.shared.nextId ≤ id → owners s id = 0
  flight_drawn : ∀ id ∈ s.shared.inner.inFlight, id < s.shared.nextId
  flight : ∀ id ∈ s.shared.inner.inFlight,
    s.shared.inner.lookup id = none ∧ ∀ t ∈ s.threads, id ∉ t.unmarked
  marked : ∀ t ∈ s.threads, ∀ e ∈ t.marked, e.kind.isRepeating ↔ e.id ∈ s.shared.inner.inFlight
  repeating : ∀ t ∈ s.threads, ∀ e ∈ t.toReschedule, e.kind.isRepeating
  canceled : s.shared.inner.canceledInFlight ⊆ s.shared.inner.inFlight
  noted : ∀ id ∈ s.shared.inner.canceledInFlight, ∃ found, .cancelled id found ∈ s.shared.history

section Ownership

variable {s s' : Shared} {t t' : Call} {l l' : List Call} {id : TimerId}

theorem owners_at : owners ⟨s, l ++ t :: l'⟩ id =
    Machine.total (Call.holdings id) (l ++ l') + t.holdings id +
      (s.inner.lookup id).isSome.toNat := by
  simp only [owners, Machine.total_append, Machine.total_cons]
  omega

theorem mem_held_iff : id ∈ t.held ↔ 0 < t.holdings id := List.count_pos_iff.symm

/-- An id that a call holds is not live, and no other call holds it. -/
theorem Owned.held (h : Owned ⟨s, l ++ t :: l'⟩) (hid : id ∈ t.held) :
    t.holdings id = 1 ∧ Machine.total (Call.holdings id) (l ++ l') = 0 ∧
      s.inner.lookup id = none := by
  have hone := h.single id
  rw [owners_at] at hone
  have hpos := mem_held_iff.1 hid
  cases hlive : s.inner.lookup id with
  | none => exact ⟨by omega, by omega, rfl⟩
  | some e =>
    simp only [hlive, Option.isSome_some, Bool.toNat_true] at hone
    omega

theorem Owned.lt_nextId (h : Owned ⟨s, l ++ t :: l'⟩) (hid : id ∈ t.held) : id < s.nextId := by
  by_contra hge
  have hzero := h.drawn id (Nat.le_of_not_lt hge)
  have hpos := mem_held_iff.1 hid
  rw [owners_at] at hzero
  omega

/-- No call holds an id that is live. -/
theorem Owned.live {s : State} (h : Owned s) {e : TimerEntry}
    (he : s.shared.inner.lookup id = some e) : Machine.total (Call.holdings id) s.threads = 0 := by
  have hone := h.single id
  simp only [owners, he, Option.isSome_some, Bool.toNat_true] at hone
  omega

theorem notMem_held_of_total {ts : List Call} (h : Machine.total (Call.holdings id) ts = 0)
    (ht : t ∈ ts) : id ∉ t.held := by
  intro hid
  have hle := Machine.le_total (w := Call.holdings id) ht
  have hpos := mem_held_iff.1 hid
  omega

theorem mem_held_of_unmarked (h : id ∈ t.unmarked) : id ∈ t.held :=
  List.mem_append_left _ h

theorem mem_held_of_marked {e : TimerEntry} (h : e ∈ t.marked) : e.id ∈ t.held :=
  List.mem_append_right _ (List.mem_map_of_mem h)

/-- The end of a callback drops a one-shot timer and keeps a repeating one. -/
theorem holdings_callbackReturns (entry : TimerEntry) (expired toReschedule : List TimerEntry) :
    (Call.firing expired (if entry.kind.isRepeating then toReschedule ++ [entry]
      else toReschedule)).holdings id ≤ (Call.running entry expired toReschedule).holdings id := by
  simp only [Call.holdings, Call.held, Call.unmarked, Call.marked]
  split <;> simp only [List.map_append, List.map_cons, List.map_nil, List.count_append,
    List.count_cons, List.count_nil] <;> omega

theorem marked_callbackReturns (entry : TimerEntry) (expired toReschedule : List TimerEntry) :
    (Call.firing expired (if entry.kind.isRepeating then toReschedule ++ [entry]
      else toReschedule)).marked ⊆ (Call.running entry expired toReschedule).marked := by
  intro e he
  simp only [Call.marked] at he ⊢
  split at he <;> simp at he ⊢ <;> tauto

/-! ## Steps that leave the wheel alone -/

/-- A call may go on, and drop what it holds, without touching the wheel. -/
theorem Owned.move (h : Owned ⟨s, l ++ t :: l'⟩) (hinner : s'.inner = s.inner)
    (hnext : s'.nextId = s.nextId) (hhistory : s.history ⊆ s'.history)
    (hheld : ∀ id, t'.holdings id ≤ t.holdings id) (hunmarked : t'.unmarked ⊆ t.unmarked)
    (hmarked : t'.marked ⊆ t.marked) (hrep : ∀ e ∈ t'.toReschedule, e.kind.isRepeating) :
    Owned ⟨s', l ++ t' :: l'⟩ := by
  have hle : ∀ id, owners ⟨s', l ++ t' :: l'⟩ id ≤ owners ⟨s, l ++ t :: l'⟩ id := by
    intro id
    have := hheld id
    rw [owners_at, owners_at, hinner]
    omega
  refine ⟨hinner ▸ h.keyed, ?_, ?_, ?_, ?_, ?_, ?_, ?_, ?_⟩
  · exact fun id => Nat.le_trans (hle id) (h.single id)
  · intro id hid
    exact Nat.eq_zero_of_le_zero (h.drawn id (hnext ▸ hid) ▸ hle id)
  · simpa only [hinner, hnext] using h.flight_drawn
  · intro id hid
    simp only [hinner] at hid ⊢
    obtain ⟨hdead, hcalls⟩ := h.flight id hid
    obtain ⟨hown, hrest⟩ := Machine.forall_threads_at.1 hcalls
    exact ⟨hdead, Machine.forall_threads_at.2 ⟨fun hmem => hown (hunmarked hmem), hrest⟩⟩
  · obtain ⟨hown, hrest⟩ := Machine.forall_threads_at.1 h.marked
    simp only [hinner]
    exact Machine.forall_threads_at.2 ⟨fun e he => hown e (hmarked he), hrest⟩
  · exact Machine.forall_threads_at.2 ⟨hrep, (Machine.forall_threads_at.1 h.repeating).2⟩
  · simpa only [hinner] using h.canceled
  · intro id hid
    simp only [hinner] at hid
    obtain ⟨found, hfound⟩ := h.noted id hid
    exact ⟨found, hhistory hfound⟩

/-- A call may end at any point and drop what it holds. -/
theorem Owned.finish (h : Owned ⟨s, l ++ t :: l'⟩) : Owned ⟨s, l ++ .done :: l'⟩ :=
  h.move rfl rfl (List.Subset.refl _) (fun _ => Nat.zero_le _) (List.nil_subset _)
    (List.nil_subset _) (by simp [Call.toReschedule])

/-! ## Critical sections of a call -/

theorem schedule_eq (w : WheelInner) (id : TimerId) (request : Request) (now : Instant) :
    ∃ kind, w.schedule id request now =
      w.insertEntry ⟨id, w.deadlineFor now request.delay, kind⟩ ∧
      (kind.isRepeating ↔ ∃ interval, request = .repeating interval) := by
  cases request with
  | once delay => exact ⟨.once, rfl, by simp [TimerKind.isRepeating]⟩
  | repeating interval => exact ⟨.repeating interval, rfl, by simp [TimerKind.isRepeating]⟩

theorem Owned.schedule {request : Request} (h : Owned ⟨s, l ++ .scheduling id request :: l'⟩)
    (hinner : s'.inner = s.inner.schedule id request s.clock) (hnext : s'.nextId = s.nextId)
    (hhistory : s.history ⊆ s'.history) : Owned ⟨s', l ++ .done :: l'⟩ := by
  obtain ⟨kind, heq, _⟩ := schedule_eq s.inner id request s.clock
  rw [heq] at hinner
  have hlookup : ∀ i, s'.inner.lookup i = if i = id then _ else s.inner.lookup i := fun i =>
    (congrArg (fun w : WheelInner => w.lookup i) hinner).trans (WheelInner.insertEntry_lookup i)
  have hflight : s'.inner.inFlight = s.inner.inFlight :=
    hinner ▸ WheelInner.insertEntry_same.inFlight
  have hcanceled : s'.inner.canceledInFlight = s.inner.canceledInFlight :=
    hinner ▸ WheelInner.insertEntry_same.canceledInFlight
  have hown : ∀ i, owners ⟨s', l ++ .done :: l'⟩ i =
      owners ⟨s, l ++ .scheduling id request :: l'⟩ i := by
    intro i
    rw [owners_at, owners_at, hlookup]
    by_cases hi : i = id
    · subst hi
      have hmem : i ∈ (Call.scheduling i request).held := by simp [Call.held, Call.unmarked]
      obtain ⟨hone, _, hdead⟩ := h.held hmem
      rw [hone, hdead]
      simp [Call.holdings, Call.held, Call.unmarked, Call.marked]
    · simp [Call.holdings, Call.held, Call.unmarked, Call.marked, hi, Ne.symm hi]
  refine ⟨hinner ▸ WheelInner.insertEntry_keyed h.keyed, ?_, ?_, ?_, ?_, ?_, ?_, ?_, ?_⟩
  · exact fun i => hown i ▸ h.single i
  · exact fun i hi => (hown i).trans (h.drawn i (hnext ▸ hi))
  · simpa only [hflight, hnext] using h.flight_drawn
  · intro i hi
    simp only [hflight] at hi
    obtain ⟨hdead, hcalls⟩ := h.flight i hi
    obtain ⟨hself, hrest⟩ := Machine.forall_threads_at.1 hcalls
    have hne : i ≠ id := by simpa [Call.unmarked] using hself
    refine ⟨?_, Machine.forall_threads_at.2 ⟨by simp [Call.unmarked], hrest⟩⟩
    exact (hlookup i).trans ((if_neg hne).trans hdead)
  · simp only [hflight]
    exact Machine.forall_threads_at.2 ⟨by simp [Call.marked],
      (Machine.forall_threads_at.1 h.marked).2⟩
  · exact Machine.forall_threads_at.2 ⟨by simp [Call.toReschedule],
      (Machine.forall_threads_at.1 h.repeating).2⟩
  · simpa only [hcanceled, hflight] using h.canceled
  · intro i hi
    simp only [hcanceled] at hi
    obtain ⟨found, hfound⟩ := h.noted i hi
    exact ⟨found, hhistory hfound⟩

/-- The batch of a tick leaves the map and comes into the hands of the tick. -/
theorem Owned.advance {now : Instant} {expired : List TimerEntry} {inner : WheelInner}
    (h : Owned ⟨s, l ++ .ticking now :: l'⟩) (htakes : s.inner.Takes expired inner) :
    Owned ⟨{ s with inner := inner }, l ++ .advanced expired :: l'⟩ := by
  have hlive : ∀ {i}, i ∈ expired.map TimerEntry.id → ∃ e, s.inner.lookup i = some e := by
    intro i hi
    obtain ⟨e, he, rfl⟩ := List.mem_map.1 hi
    exact ⟨e, htakes.live e he⟩
  have hown : ∀ i, owners ⟨{ s with inner := inner }, l ++ .advanced expired :: l'⟩ i =
      owners ⟨s, l ++ .ticking now :: l'⟩ i := by
    intro i
    rw [owners_at, owners_at, htakes.rest]
    simp only [Call.holdings, Call.held, Call.unmarked, Call.marked, List.map_nil,
      List.append_nil, List.count_nil]
    split
    · rename_i hi
      obtain ⟨e, he⟩ := hlive hi
      rw [List.count_eq_one_of_mem htakes.nodup hi, he]
      rfl
    · rename_i hi
      rw [List.count_eq_zero_of_not_mem hi]
  refine ⟨htakes.keyed h.keyed, ?_, ?_, ?_, ?_, ?_, ?_, ?_, ?_⟩
  · exact fun i => hown i ▸ h.single i
  · exact fun i hi => (hown i).trans (h.drawn i hi)
  · simpa only [htakes.inFlight] using h.flight_drawn
  · intro i hi
    simp only [htakes.inFlight] at hi
    obtain ⟨hdead, hcalls⟩ := h.flight i hi
    have hout : i ∉ expired.map TimerEntry.id := by
      intro hmem
      obtain ⟨e, he⟩ := hlive hmem
      cases hdead.symm.trans he
    refine ⟨(htakes.rest i).trans ((if_neg hout).trans hdead), ?_⟩
    exact Machine.forall_threads_at.2 ⟨hout, (Machine.forall_threads_at.1 hcalls).2⟩
  · simp only [htakes.inFlight]
    exact Machine.forall_threads_at.2 ⟨by simp [Call.marked],
      (Machine.forall_threads_at.1 h.marked).2⟩
  · exact Machine.forall_threads_at.2 ⟨by simp [Call.toReschedule],
      (Machine.forall_threads_at.1 h.repeating).2⟩
  · simpa only [htakes.inFlight, htakes.canceledInFlight] using h.canceled
  · simpa only [htakes.canceledInFlight] using h.noted

theorem mem_repeatingIds {es : List TimerEntry} :
    id ∈ WheelInner.repeatingIds es ↔ ∃ e ∈ es, e.kind.isRepeating ∧ e.id = id := by
  simp [WheelInner.repeatingIds, and_assoc]

/-- The ids of a batch that is not marked yet are distinct. -/
theorem Owned.nodup_unmarked {expired : List TimerEntry}
    (h : Owned ⟨s, l ++ .advanced expired :: l'⟩) : (expired.map TimerEntry.id).Nodup := by
  refine List.nodup_iff_count_le_one.2 fun i => ?_
  have hone := h.single i
  rw [owners_at] at hone
  simp only [Call.holdings, Call.held, Call.unmarked, Call.marked, List.map_nil,
    List.append_nil] at hone
  omega

theorem Owned.mark {expired : List TimerEntry} (h : Owned ⟨s, l ++ .advanced expired :: l'⟩) :
    Owned ⟨{ s with inner := s.inner.markInFlight expired }, l ++ .firing expired [] :: l'⟩ := by
  rw [WheelInner.markInFlight_eq]
  have hown : ∀ i, owners ⟨s, l ++ .firing expired [] :: l'⟩ i =
      owners ⟨s, l ++ .advanced expired :: l'⟩ i := by
    intro i
    simp [owners_at, Call.holdings, Call.held, Call.unmarked, Call.marked]
  have hheld : ∀ {i}, i ∈ WheelInner.repeatingIds expired → i ∈ (Call.advanced expired).held := by
    intro i hi
    obtain ⟨e, he, _, rfl⟩ := mem_repeatingIds.1 hi
    exact mem_held_of_unmarked (List.mem_map_of_mem he)
  refine ⟨h.keyed, ?_, ?_, ?_, ?_, ?_, ?_, ?_, h.noted⟩
  · exact fun i => (hown i).trans_le (h.single i)
  · exact fun i hi => (hown i).trans (h.drawn i hi)
  · intro i hi
    rcases Finset.mem_union.1 hi with hi | hi
    · exact h.flight_drawn i hi
    · by_contra hge
      obtain ⟨hone, _⟩ := h.held (hheld (List.mem_toFinset.1 hi))
      have hzero := h.drawn i (Nat.le_of_not_lt hge)
      rw [owners_at] at hzero
      omega
  · intro i hi
    rcases Finset.mem_union.1 hi with hi | hi
    · obtain ⟨hdead, hcalls⟩ := h.flight i hi
      exact ⟨hdead, Machine.forall_threads_at.2 ⟨by simp [Call.unmarked],
        (Machine.forall_threads_at.1 hcalls).2⟩⟩
    · obtain ⟨_, hothers, hdead⟩ := h.held (hheld (List.mem_toFinset.1 hi))
      refine ⟨hdead, Machine.forall_threads_at.2 ⟨by simp [Call.unmarked], fun t ht hmem => ?_⟩⟩
      exact notMem_held_of_total hothers ht (mem_held_of_unmarked hmem)
  · refine Machine.forall_threads_at.2 ⟨fun e he => ?_, fun t ht e he => ?_⟩
    · have he' : e ∈ expired := by simpa [Call.marked] using he
      simp only [Finset.mem_union, List.mem_toFinset, mem_repeatingIds]
      constructor
      · exact fun hr => .inr ⟨e, he', hr, rfl⟩
      · rintro (hi | ⟨f, hf, hr, hid⟩)
        · have hout := (Machine.forall_threads_at.1 (h.flight e.id hi).2).1
          exact absurd (List.mem_map_of_mem he') hout
        · exact List.inj_on_of_nodup_map h.nodup_unmarked hf he' hid ▸ hr
    · rw [(Machine.forall_threads_at.1 h.marked).2 t ht e he]
      simp only [Finset.mem_union, List.mem_toFinset]
      refine ⟨.inl, fun hi => hi.resolve_right fun hi => ?_⟩
      exact notMem_held_of_total (h.held (hheld hi)).2.1 ht (mem_held_of_marked he)
  · exact Machine.forall_threads_at.2 ⟨by simp [Call.toReschedule],
      (Machine.forall_threads_at.1 h.repeating).2⟩
  · exact h.canceled.trans Finset.subset_union_left

/-- The ids that a tick re-arms are distinct. -/
theorem Owned.nodup_rearm {toReschedule : List TimerEntry}
    (h : Owned ⟨s, l ++ .firing [] toReschedule :: l'⟩) :
    (toReschedule.map TimerEntry.id).Nodup := by
  refine List.nodup_iff_count_le_one.2 fun i => ?_
  have hone := h.single i
  rw [owners_at] at hone
  simp only [Call.holdings, Call.held, Call.unmarked, Call.marked, List.nil_append] at hone
  omega

theorem Owned.rearm {toReschedule : List TimerEntry}
    (h : Owned ⟨s, l ++ .firing [] toReschedule :: l'⟩) :
    Owned ⟨{ s with inner := s.inner.rearmAll s.clock toReschedule }, l ++ .done :: l'⟩ := by
  have hheld : ∀ {i}, i ∈ toReschedule.map TimerEntry.id ↔
      i ∈ (Call.firing [] toReschedule).held := by
    simp [Call.held, Call.unmarked, Call.marked]
  have hdone : ∀ i, Call.done.holdings i = 0 := fun _ => rfl
  have hown : ∀ i, owners ⟨{ s with inner := s.inner.rearmAll s.clock toReschedule },
      l ++ .done :: l'⟩ i ≤ owners ⟨s, l ++ .firing [] toReschedule :: l'⟩ i := by
    intro i
    simp only [owners_at, hdone]
    by_cases hi : i ∈ toReschedule.map TimerEntry.id
    · obtain ⟨hone, _, hdead⟩ := h.held (hheld.1 hi)
      have hle := Bool.toNat_le ((s.inner.rearmAll s.clock toReschedule).lookup i).isSome
      omega
    · rw [WheelInner.rearmAll_lookup_of_notMem hi]
      omega
  refine ⟨WheelInner.rearmAll_keyed h.keyed, ?_, ?_, ?_, ?_, ?_, ?_, ?_, ?_⟩
  · exact fun i => Nat.le_trans (hown i) (h.single i)
  · exact fun i hi => Nat.eq_zero_of_le_zero (h.drawn i hi ▸ hown i)
  · intro i hi
    exact h.flight_drawn i (WheelInner.mem_rearmAll_inFlight.1 hi).1
  · intro i hi
    obtain ⟨hi, hout⟩ := WheelInner.mem_rearmAll_inFlight.1 hi
    obtain ⟨hdead, hcalls⟩ := h.flight i hi
    exact ⟨(WheelInner.rearmAll_lookup_of_notMem hout).trans hdead,
      Machine.forall_threads_at.2 ⟨by simp [Call.unmarked],
        (Machine.forall_threads_at.1 hcalls).2⟩⟩
  · refine Machine.forall_threads_at.2 ⟨by simp [Call.marked], fun t ht e he => ?_⟩
    rw [(Machine.forall_threads_at.1 h.marked).2 t ht e he]
    refine ⟨fun hi => WheelInner.mem_rearmAll_inFlight.2 ⟨hi, fun hmem => ?_⟩, fun hi =>
      (WheelInner.mem_rearmAll_inFlight.1 hi).1⟩
    exact notMem_held_of_total (h.held (hheld.1 hmem)).2.1 ht (mem_held_of_marked he)
  · exact Machine.forall_threads_at.2 ⟨by simp [Call.toReschedule],
      (Machine.forall_threads_at.1 h.repeating).2⟩
  · intro i hi
    obtain ⟨hi, hout⟩ := WheelInner.mem_rearmAll_canceledInFlight.1 hi
    exact WheelInner.mem_rearmAll_inFlight.2 ⟨h.canceled hi, hout⟩
  · intro i hi
    exact h.noted i (WheelInner.mem_rearmAll_canceledInFlight.1 hi).1

/-! ## Calls that enter -/

section Enter

variable {s : State}

/-- A schedule draws an id that nobody has had. -/
theorem Owned.draw (h : Owned s) (request : Request) :
    Owned ⟨{ s.shared with nextId := s.shared.nextId + 1 },
      s.threads ++ [.scheduling s.shared.nextId request]⟩ := by
  have hown : ∀ i, owners ⟨{ s.shared with nextId := s.shared.nextId + 1 },
      s.threads ++ [.scheduling s.shared.nextId request]⟩ i =
        owners s i + if s.shared.nextId = i then 1 else 0 := by
    intro i
    simp only [owners, Machine.total_append, Machine.total_cons, Machine.total_nil, Call.holdings,
      Call.held, Call.unmarked, Call.marked, List.map_nil, List.append_nil, List.count_singleton,
      beq_iff_eq]
    omega
  refine ⟨h.keyed, ?_, ?_, ?_, ?_, ?_, ?_, h.canceled, h.noted⟩
  · intro i
    refine (hown i).trans_le ?_
    split
    · rename_i hi
      rw [h.drawn i hi.le]
    · exact h.single i
  · intro i hi
    refine (hown i).trans ?_
    rw [h.drawn i (Nat.le_of_succ_le hi), if_neg (Nat.ne_of_lt hi)]
  · exact fun i hi => Nat.lt_succ_of_lt (h.flight_drawn i hi)
  · intro i hi
    refine ⟨(h.flight i hi).1, List.forall_mem_append.2 ⟨(h.flight i hi).2, ?_⟩⟩
    simpa [Call.unmarked] using (h.flight_drawn i hi).ne
  · exact List.forall_mem_append.2 ⟨h.marked, by simp [Call.marked]⟩
  · exact List.forall_mem_append.2 ⟨h.repeating, by simp [Call.toReschedule]⟩

theorem Owned.cancel (h : Owned s) (id : TimerId) :
    Owned ⟨{ s.shared with
      inner := (s.shared.inner.cancel id).2
      history := s.shared.history ++ [.cancelled id (s.shared.inner.cancel id).1] },
      s.threads⟩ := by
  have hdead : ∀ {i}, s.shared.inner.lookup i = none →
      (s.shared.inner.cancel id).2.lookup i = none := by
    intro i hi
    rw [WheelInner.cancel_lookup, hi, ite_self]
  have hown : ∀ i, owners ⟨{ s.shared with
      inner := (s.shared.inner.cancel id).2
      history := s.shared.history ++ [.cancelled id (s.shared.inner.cancel id).1] },
      s.threads⟩ i ≤ owners s i := by
    intro i
    refine Nat.add_le_add_left ?_ _
    simp only [WheelInner.cancel_lookup]
    split
    · exact Nat.zero_le _
    · exact Nat.le_refl _
  refine ⟨?_, ?_, ?_, ?_, ?_, ?_, h.repeating, ?_, ?_⟩
  · intro i e he
    simp only [WheelInner.cancel_lookup] at he
    split at he
    · cases he
    · exact h.keyed i e he
  · exact fun i => Nat.le_trans (hown i) (h.single i)
  · exact fun i hi => Nat.eq_zero_of_le_zero (h.drawn i hi ▸ hown i)
  · simpa only [WheelInner.cancel_inFlight] using h.flight_drawn
  · intro i hi
    simp only [WheelInner.cancel_inFlight] at hi
    exact ⟨hdead (h.flight i hi).1, (h.flight i hi).2⟩
  · simpa only [WheelInner.cancel_inFlight] using h.marked
  · simp only [WheelInner.cancel_canceledInFlight, WheelInner.cancel_inFlight]
    split
    · rename_i hmem
      exact Finset.insert_subset hmem.2 h.canceled
    · exact h.canceled
  · intro i hi
    simp only [WheelInner.cancel_canceledInFlight] at hi
    by_cases hie : i = id
    · subst hie
      exact ⟨_, List.mem_append_right _ (List.mem_singleton_self _)⟩
    · have hold : i ∈ s.shared.inner.canceledInFlight := by
        split at hi
        · exact Finset.mem_of_mem_insert_of_ne hi hie
        · exact hi
      obtain ⟨found, hfound⟩ := h.noted i hold
      exact ⟨found, List.mem_append_left _ hfound⟩

theorem Owned.tick (h : Owned s) (now : Instant) : Owned ⟨s.shared, s.threads ++ [.ticking now]⟩ := by
  have hown : ∀ i, owners ⟨s.shared, s.threads ++ [.ticking now]⟩ i = owners s i := by
    intro i
    simp [owners, Call.holdings, Call.held, Call.unmarked, Call.marked]
  refine ⟨h.keyed, ?_, ?_, h.flight_drawn, ?_, ?_, ?_, h.canceled, h.noted⟩
  · exact fun i => (hown i).trans_le (h.single i)
  · exact fun i hi => (hown i).trans (h.drawn i hi)
  · intro i hi
    refine ⟨(h.flight i hi).1, List.forall_mem_append.2 ⟨(h.flight i hi).2, ?_⟩⟩
    simp [Call.unmarked]
  · exact List.forall_mem_append.2 ⟨h.marked, by simp [Call.marked]⟩
  · exact List.forall_mem_append.2 ⟨h.repeating, by simp [Call.toReschedule]⟩

theorem Owned.enter (h : Owned s) (e : Invocation) :
    Owned ⟨(enterSerial s.shared e).1, s.threads ++ (enterSerial s.shared e).2⟩ := by
  cases e with
  | schedule request => exact h.draw request
  | cancel id =>
    simp only [enterSerial, TimerWheel.enter, List.append_nil]
    exact h.cancel id
  | tick => exact h.tick _
  | timeUntilNext =>
    obtain ⟨earliest, hframe⟩ := s.shared.inner.timeUntilNext_frame s.shared.clock
    simp only [enterSerial, TimerWheel.enter, List.append_nil, hframe]
    exact { h with }
  | elapse d =>
    simp only [enterSerial, TimerWheel.enter, List.append_nil]
    exact { h with }

end Enter

/-! ## Every run -/

theorem Owned.act (h : Owned ⟨s, l ++ t :: l'⟩) (hacts : Acts s t s' t') :
    Owned ⟨s', l ++ t' :: l'⟩ := by
  cases hacts with
  | schedule id request => exact h.schedule rfl rfl (List.subset_append_left _ _)
  | advance now => exact h.advance (WheelInner.takes_advanceTo h.keyed now)
  | noneDue => exact h.finish
  | mark expired => exact h.mark
  | start entry expired toReschedule =>
    have hheld : (Call.running entry expired toReschedule).held =
        (Call.firing (entry :: expired) toReschedule).held := rfl
    exact h.move rfl rfl (List.subset_append_left _ _) (fun i => (congrArg _ hheld).le)
      (List.Subset.refl _) (List.Subset.refl _) ((Machine.forall_threads_at.1 h.repeating).1)
  | rearm toReschedule => exact h.rearm
  | callbackReturns entry expired toReschedule =>
    have hrep := (Machine.forall_threads_at.1 h.repeating).1
    simp only [Call.toReschedule] at hrep
    refine h.move rfl rfl (List.Subset.refl _) (fun _ => holdings_callbackReturns _ _ _)
      (List.Subset.refl _) (marked_callbackReturns _ _ _) fun e he => ?_
    simp only [Call.toReschedule] at he
    split at he
    · rename_i hr
      rcases List.mem_append.1 he with he | he
      · exact hrep e he
      · exact List.mem_singleton.1 he ▸ hr
    · exact hrep e he
  | callbackPanics entry expired toReschedule => exact h.finish

theorem Owned.step {s u : State} {a : Step} (h : Owned s) (hs : serial.step s a = some u) :
    Owned u := by
  rcases serial_step_cases hs with
    ⟨e, rfl, rfl⟩ | ⟨o, s', t, t', l, l', rfl, hts, hacts, rfl⟩
  · exact h.enter e
  · obtain ⟨shared, threads⟩ := s
    obtain rfl : threads = l ++ t :: l' := hts
    exact h.act hacts

theorem owned_initial (start : Instant) : Owned (initial start) where
  keyed i e he := by cases he
  single i := Nat.zero_le _
  drawn i _ := rfl
  flight_drawn i hi := by cases hi
  flight i hi := by cases hi
  marked t ht := by cases ht
  repeating t ht := by cases ht
  canceled := Finset.Subset.refl _
  noted i hi := by cases hi

theorem owned_of_run {ok : State → Step → Prop} {start : Instant} {as : List Step} {s : State}
    (h : Run serial.step ok (initial start) as s) : Owned s :=
  h.invariant (owned_initial start) fun _ _ _ hinv _ hs => hinv.step hs

end Ownership

end TimerWheel
