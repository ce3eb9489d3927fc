-- SUMMARY: No timer is lost and none is there twice: in runs whose callbacks return, every scheduled timer is in exactly one stage of its life.
import MillIo.TimerWheel.Ledger
import MillIo.TimerWheel.Wraparound

/-!
# The census of timers

A timer that has been scheduled is live in the map, or in the local batch of one
tick, or it has run, or it has been cancelled. The invariant follows one timer
through its life; where the timer is comes from the ownership of its id, and what
has happened to it from the history.
-/
namespace TimerWheel

open Interleaving

namespace Call

/-- A call of `tick` that is in progress. -/
def isTick : Call → Bool
  | scheduling _ _ => false
  | done => false
  | _ => true

/-- What a tick has in its local variables: the entry whose callback runs, and those
    of `expired` and `to_reschedule`. -/
def localBatch (t : Call) : List TimerEntry := t.batch ++ t.marked

/-- The entries of the batch whose callbacks have not started. -/
def waiting (t : Call) : List TimerEntry := t.batch ++ t.pending

/-- The entry whose callback runs. -/
def current : Call → List TimerEntry
  | running entry _ _ => [entry]
  | _ => []

end Call

/-- How often an id occurs among entries. -/
def occurrences (id : TimerId) (es : List TimerEntry) : ℕ := (es.map TimerEntry.id).count id

/-- How often the batches of all ticks hold a timer. -/
def holders (s : State) (id : TimerId) : ℕ :=
  Machine.total (fun t => occurrences id t.localBatch) s.threads

/-- How many runs of its callback a timer has coming, before it is re-armed. -/
def prospects (s : State) (id : TimerId) : ℕ :=
  Machine.total (fun t => occurrences id t.waiting) s.threads +
    (s.shared.inner.lookup id).isSome.toNat

inductive Stage
  | live
  | held
  | finished
  | cancelled
  deriving DecidableEq

/-- The timer is at a stage of its life. One that is cancelled while a tick holds it
    stays with that tick first. -/
def At (s : State) (id : TimerId) : Stage → Prop
  | .live => s.shared.inner.lookup id ≠ none
  | .held => holders s id = 1
  | .finished => holders s id = 0 ∧ .started id ∈ s.shared.history ∧
      ∃ delay, .scheduled id (.once delay) ∈ s.shared.history
  | .cancelled => holders s id = 0 ∧ .cancelled id true ∈ s.shared.history

section Census

variable {s s' : Shared} {t t' : Call} {l l' : List Call} {id : TimerId} {request : Request}

/-! ## Batches and owners -/

@[simp] theorem occurrences_nil : occurrences id [] = 0 := rfl

theorem occurrences_append (es es' : List TimerEntry) :
    occurrences id (es ++ es') = occurrences id es + occurrences id es' := by
  simp [occurrences]

theorem occurrences_cons (e : TimerEntry) (es : List TimerEntry) :
    occurrences id (e :: es) = occurrences id [e] + occurrences id es :=
  occurrences_append [e] es

theorem occurrences_pos_iff {es : List TimerEntry} :
    0 < occurrences id es ↔ ∃ e ∈ es, e.id = id := by
  simp [occurrences]

theorem waiting_subset (t : Call) : t.waiting ⊆ t.localBatch := by
  cases t <;> simp [Call.waiting, Call.localBatch, Call.batch, Call.pending, Call.marked]

theorem current_subset (t : Call) : t.current ⊆ t.localBatch := by
  cases t <;> simp [Call.current, Call.localBatch, Call.batch, Call.marked]

theorem occurrences_localBatch_le (id : TimerId) (t : Call) :
    occurrences id t.localBatch ≤ t.holdings id := by
  cases t <;> simp [occurrences, Call.localBatch, Call.batch, Call.marked, Call.holdings, Call.held,
    Call.unmarked]

theorem holders_at : holders ⟨s, l ++ t :: l'⟩ id =
    holders ⟨s, l ++ l'⟩ id + occurrences id t.localBatch := by
  simp only [holders, Machine.total_append, Machine.total_cons]
  omega

theorem prospects_at : prospects ⟨s, l ++ t :: l'⟩ id =
    Machine.total (fun t => occurrences id t.waiting) (l ++ l') + occurrences id t.waiting +
      (s.inner.lookup id).isSome.toNat := by
  simp only [prospects, Machine.total_append, Machine.total_cons]
  omega

theorem holders_le_owners (s : State) (id : TimerId) :
    holders s id + (s.shared.inner.lookup id).isSome.toNat ≤ owners s id :=
  Nat.add_le_add_right (Machine.total_mono fun t _ => occurrences_localBatch_le id t) _

/-- A live timer is in no batch. -/
theorem Owned.holders_of_live {s : State} (h : Owned s) (hlive : s.shared.inner.lookup id ≠ none) :
    holders s id = 0 := by
  have hone := h.single id
  have hle := holders_le_owners s id
  rw [Option.isSome_iff_ne_none.2 hlive, Bool.toNat_true] at hle
  omega

theorem Owned.holders_le_one {s : State} (h : Owned s) (id : TimerId) : holders s id ≤ 1 := by
  have hone := h.single id
  have hle := holders_le_owners s id
  omega

/-- What one call holds in its batch, no other call does. -/
theorem Owned.holders_others (h : Owned ⟨s, l ++ t :: l'⟩)
    (ht : 0 < occurrences id t.localBatch) :
    occurrences id t.localBatch = 1 ∧ holders ⟨s, l ++ l'⟩ id = 0 ∧ s.inner.lookup id = none := by
  have hle := h.holders_le_one id
  rw [holders_at] at hle
  refine ⟨by omega, by omega, ?_⟩
  by_contra hlive
  have hzero := h.holders_of_live hlive
  rw [holders_at] at hzero
  omega

/-! ## One timer -/

/-- What is known of a timer that was scheduled by a request. -/
structure Followed (s : State) (id : TimerId) (request : Request) : Prop where
  same : ∀ request', .scheduled id request' ∈ s.shared.history → request' = request
  live : ∀ e, s.shared.inner.lookup id = some e → e.kind.isRepeating = request.isRepeating
  batch : ∀ t ∈ s.threads, ∀ e ∈ t.localBatch, e.id = id →
    e.kind.isRepeating = request.isRepeating
  starts : request.isRepeating = false →
    s.shared.history.count (.started id) + prospects s id ≤ 1
  begun : ∀ t ∈ s.threads, ∀ e ∈ t.current, e.id = id → .started id ∈ s.shared.history
  dropped : request.isRepeating = false → .cancelled id true ∈ s.shared.history →
    holders s id = 0 ∧ .started id ∉ s.shared.history
  stage : ∃ stage, At s id stage

/-- What does not concern the timer keeps what is known of it. -/
theorem Followed.keep {s u : State} (h : Followed s id request)
    (hlookup : u.shared.inner.lookup id = s.shared.inner.lookup id)
    (hevents : ∀ ev, ev.concerns id → u.shared.history.count ev = s.shared.history.count ev)
    (hheld : holders u id = holders s id) (hcoming : prospects u id = prospects s id)
    (hbatch : ∀ t ∈ u.threads, ∀ e ∈ t.localBatch, e.id = id → ∃ t' ∈ s.threads, e ∈ t'.localBatch)
    (hcurrent : ∀ t ∈ u.threads, ∀ e ∈ t.current, e.id = id → ∃ t' ∈ s.threads, e ∈ t'.current) :
    Followed u id request := by
  have hmem : ∀ ev : Event, ev.concerns id → (ev ∈ u.shared.history ↔ ev ∈ s.shared.history) := by
    intro ev hev
    rw [← List.count_pos_iff, hevents ev hev, List.count_pos_iff]
  have hcancelled := hmem (.cancelled id true) ⟨rfl, rfl⟩
  have hstarted := hmem (.started id) rfl
  refine ⟨fun request' hr => ?_, ?_, fun t ht e he hid => ?_, ?_, fun t ht e he hid => ?_, ?_, ?_⟩
  · exact h.same request' ((hmem (.scheduled id request') rfl).1 hr)
  · simpa only [hlookup] using h.live
  · obtain ⟨t', ht', he'⟩ := hbatch t ht e he hid
    exact h.batch t' ht' e he' hid
  · simpa only [hevents (.started id) rfl, hcoming] using h.starts
  · obtain ⟨t', ht', he'⟩ := hcurrent t ht e he hid
    exact hstarted.2 (h.begun t' ht' e he' hid)
  · simpa only [hcancelled, hstarted, hheld] using h.dropped
  · obtain ⟨stage, hstage⟩ := h.stage
    refine ⟨stage, ?_⟩
    cases stage with
    | live => simpa only [At, hlookup] using hstage
    | held => simpa only [At, hheld] using hstage
    | finished =>
      obtain ⟨hzero, hstart, delay, hsched⟩ := hstage
      exact ⟨hheld.trans hzero, hstarted.2 hstart, delay, (hmem (.scheduled id _) rfl).2 hsched⟩
    | cancelled => simpa only [At, hheld, hcancelled] using hstage

/-- A call may go on in what does not concern the timer. -/
theorem Followed.move (h : Followed ⟨s, l ++ t :: l'⟩ id request)
    (hlookup : s'.inner.lookup id = s.inner.lookup id)
    (hevents : ∀ ev, ev.concerns id → s'.history.count ev = s.history.count ev)
    (hheld : occurrences id t'.localBatch = occurrences id t.localBatch)
    (hcoming : occurrences id t'.waiting = occurrences id t.waiting)
    (hbatch : ∀ e ∈ t'.localBatch, e.id = id → e ∈ t.localBatch)
    (hcurrent : ∀ e ∈ t'.current, e.id = id → e ∈ t.current) :
    Followed ⟨s', l ++ t' :: l'⟩ id request := by
  have hothers : ∀ t'' ∈ l ++ l', t'' ∈ l ++ t :: l' := by
    intro t'' ht''
    simp only [List.mem_append, List.mem_cons] at ht'' ⊢
    tauto
  refine h.keep hlookup hevents ?_ ?_ ?_ ?_
  · rw [holders_at, holders_at, hheld]
    rfl
  · rw [prospects_at, prospects_at, hcoming, hlookup]
  · refine Machine.forall_threads_at.2 ⟨fun e he hid => ⟨t, by simp, hbatch e he hid⟩, ?_⟩
    exact fun t'' ht'' e he _ => ⟨t'', hothers t'' ht'', he⟩
  · refine Machine.forall_threads_at.2 ⟨fun e he hid => ⟨t, by simp, hcurrent e he hid⟩, ?_⟩
    exact fun t'' ht'' e he _ => ⟨t'', hothers t'' ht'', he⟩

/-- The history grows by an event that does not concern the timer. -/
theorem count_concat {history : List Event} {ev ev' : Event} (hev : ¬ ev'.concerns id)
    (hconcerns : ev.concerns id) : (history ++ [ev']).count ev = history.count ev := by
  have hne : ev' ≠ ev := by
    rintro rfl
    exact hev hconcerns
  simp [hne]

theorem count_started_concat {history : List Event} {ev : Event} :
    (history ++ [ev]).count (.started id) =
      history.count (.started id) + if ev = .started id then 1 else 0 := by
  simp [List.count_singleton]

/-! ### Scheduling -/

/-- A timer is followed from the moment it is scheduled. -/
theorem Fresh.followed (h : Fresh ⟨s, l ++ .scheduling id request :: l'⟩)
    (ho : Owned ⟨s, l ++ .scheduling id request :: l'⟩)
    (hinner : s'.inner = s.inner.schedule id request s.clock)
    (hhistory : s'.history = s.history ++ [.scheduled id request]) :
    Followed ⟨s', l ++ .done :: l'⟩ id request := by
  obtain ⟨e, rfl, hkind, heq⟩ := schedule_eq_insertEntry s.inner id request s.clock
  have hunseen : Unseen s.history e.id :=
    (Machine.forall_threads_at.1 h.scheduling).1 e.id request rfl
  have hheld : e.id ∈ (Call.scheduling e.id request).held :=
    mem_held_of_unmarked List.mem_cons_self
  have hothers := (ho.held hheld).2.1
  have hlookup : s'.inner.lookup e.id = some e := by
    rw [hinner, heq, WheelInner.insertEntry_lookup, if_pos rfl]
  have hout : ∀ t ∈ l ++ l', ∀ f ∈ t.localBatch, f.id ≠ e.id := by
    intro t ht f hf hid
    have hle := occurrences_localBatch_le e.id t
    have hpos := occurrences_pos_iff.2 ⟨f, hf, hid⟩
    exact notMem_held_of_total hothers ht (mem_held_iff.2 (Nat.lt_of_lt_of_le hpos hle))
  have hnone : ∀ ev, ev.concerns e.id → ev ∉ s.history := fun ev hev hmem => hunseen ev hmem hev
  have hstarted : .started e.id ∉ s'.history := by
    rw [hhistory]
    simpa using hnone (.started e.id) rfl
  refine ⟨fun request' hr => ?_, fun f hf => ?_, ?_, fun _ => ?_, ?_, fun _ hcancelled => ?_,
    .live, by simp [At, hlookup]⟩
  · simp only [hhistory, List.mem_append, List.mem_singleton] at hr
    rcases hr with hr | hr
    · exact (hnone (.scheduled e.id request') rfl hr).elim
    · exact (Event.scheduled.inj hr).2
  · simp only [hlookup] at hf
    exact Option.some.inj hf ▸ hkind
  · exact Machine.forall_threads_at.2 ⟨by simp [Call.localBatch, Call.batch, Call.marked],
      fun t ht f hf hid => (hout t ht f hf hid).elim⟩
  · have hzero : Machine.total (fun t => occurrences e.id t.waiting) (l ++ l') = 0 := by
      refine Machine.total_eq_zero fun t ht => ?_
      by_contra hpos
      obtain ⟨f, hf, hid⟩ := occurrences_pos_iff.1 (Nat.pos_of_ne_zero hpos)
      exact hout t ht f (waiting_subset t hf) hid
    rw [List.count_eq_zero.2 hstarted, prospects_at, hzero]
    simp [Call.waiting, Call.batch, Call.pending, Bool.toNat_le]
  · refine Machine.forall_threads_at.2 ⟨by simp [Call.current], fun t ht f hf hid => ?_⟩
    exact (hout t ht f (current_subset t hf) hid).elim
  · simp only [hhistory, List.mem_append, List.mem_singleton] at hcancelled
    rcases hcancelled with hcancelled | hcancelled
    · exact (hnone (.cancelled e.id true) ⟨rfl, rfl⟩ hcancelled).elim
    · cases hcancelled

/-! ### Ticks -/

/-- The timer may fall into the batch of a tick. -/
theorem Followed.advance {now : Instant} {expired : List TimerEntry} {inner : WheelInner}
    (h : Followed ⟨s, l ++ .ticking now :: l'⟩ id request)
    (ho : Owned ⟨s, l ++ .ticking now :: l'⟩) (hstops : Stops ⟨s, l ++ .ticking now :: l'⟩)
    (htakes : s.inner.Takes expired inner) :
    Followed ⟨{ s with inner := inner }, l ++ .advanced expired :: l'⟩ id request := by
  have hbatch : (Call.advanced expired).localBatch = expired := List.append_nil _
  have hwaiting : (Call.advanced expired).waiting = expired := List.append_nil _
  by_cases hid : id ∈ expired.map TimerEntry.id
  · obtain ⟨e, he, rfl⟩ := List.mem_map.1 hid
    have hlive := htakes.live e he
    have hgone : inner.lookup e.id = none := (htakes.rest e.id).trans (if_pos hid)
    have hzero : holders ⟨s, l ++ .ticking now :: l'⟩ e.id = 0 :=
      ho.holders_of_live (hlive ▸ Option.some_ne_none e)
    have hone : occurrences e.id expired = 1 := List.count_eq_one_of_mem htakes.nodup hid
    have hheld : holders ⟨{ s with inner := inner }, l ++ .advanced expired :: l'⟩ e.id = 1 := by
      rw [holders_at] at hzero ⊢
      rw [hbatch, hone]
      exact congrArg (· + 1) (Nat.eq_zero_of_add_eq_zero_right hzero)
    refine ⟨h.same, by simp [hgone], ?_, fun hr => ?_, ?_, fun _ hcancelled => ?_, .held, hheld⟩
    · refine Machine.forall_threads_at.2 ⟨fun f hf hfid => ?_,
        (Machine.forall_threads_at.1 h.batch).2⟩
      rw [hbatch] at hf
      exact h.live f (hfid ▸ htakes.live f hf)
    · have hstarts := h.starts hr
      simp only [prospects_at, hwaiting, hone, hlive, hgone, Option.isSome_some, Bool.toNat_true,
        Option.isSome_none, Bool.toNat_false] at hstarts ⊢
      omega
    · exact Machine.forall_threads_at.2 ⟨by simp [Call.current],
        (Machine.forall_threads_at.1 h.begun).2⟩
    · cases hlive.symm.trans (hstops.stopped e.id hcancelled).dead
  · have hzero : occurrences id expired = 0 := List.count_eq_zero_of_not_mem hid
    have hothers : ∀ f ∈ expired, f.id ≠ id := fun f hf heq => hid (heq ▸ List.mem_map_of_mem hf)
    refine h.move ((htakes.rest id).trans (if_neg hid)) (fun _ _ => rfl) ?_ ?_ ?_ (by
      simp [Call.current])
    · rw [hbatch, hzero]
      rfl
    · rw [hwaiting, hzero]
      rfl
    · rw [hbatch]
      exact fun f hf hfid => (hothers f hf hfid).elim

/-- The callback of the timer may start. -/
theorem Followed.start {entry : TimerEntry} {expired toReschedule : List TimerEntry}
    (h : Followed ⟨s, l ++ .firing (entry :: expired) toReschedule :: l'⟩ id request) :
    Followed ⟨{ s with history := s.history ++ [.started entry.id] },
      l ++ .running entry expired toReschedule :: l'⟩ id request := by
  have hbatch : (Call.running entry expired toReschedule).localBatch =
      (Call.firing (entry :: expired) toReschedule).localBatch := rfl
  have hwaiting : occurrences id (Call.firing (entry :: expired) toReschedule).waiting =
      occurrences id [entry] + occurrences id (Call.running entry expired toReschedule).waiting :=
    occurrences_cons entry expired
  by_cases hid : entry.id = id
  · subst hid
    have hone : occurrences entry.id [entry] = 1 := by simp [occurrences]
    have hpos : 0 < occurrences entry.id (Call.firing (entry :: expired) toReschedule).localBatch :=
      occurrences_pos_iff.2 ⟨entry, List.mem_cons_self, rfl⟩
    have hheld : holders ⟨{ s with history := s.history ++ [.started entry.id] },
        l ++ .running entry expired toReschedule :: l'⟩ entry.id =
          holders ⟨s, l ++ .firing (entry :: expired) toReschedule :: l'⟩ entry.id := by
      rw [holders_at, holders_at]
      rfl
    refine ⟨fun request' hr => h.same request' (by simpa using hr), h.live, ?_, fun hr => ?_, ?_,
      fun hr hcancelled => ?_, ?_⟩
    · exact Machine.forall_threads_at.2 ⟨(Machine.forall_threads_at.1 h.batch).1,
        (Machine.forall_threads_at.1 h.batch).2⟩
    · have hstarts := h.starts hr
      simp only [prospects_at, hwaiting, hone] at hstarts
      simp only [prospects_at, count_started_concat, if_true]
      omega
    · exact fun _ _ _ _ _ => List.mem_append_right _ List.mem_cons_self
    · have hzero := (h.dropped hr (by simpa using hcancelled)).1
      rw [holders_at] at hzero
      omega
    · obtain ⟨stage, hstage⟩ := h.stage
      refine ⟨stage, ?_⟩
      cases stage with
      | live => exact hstage
      | held => exact hheld.trans hstage
      | finished => exact ⟨hheld.trans hstage.1, by simp, by simpa using hstage.2.2⟩
      | cancelled => exact ⟨hheld.trans hstage.1, by simpa using hstage.2⟩
  · have hzero : occurrences id [entry] = 0 := by simp [occurrences, hid]
    refine h.move rfl (fun ev hev => count_concat hid hev) (congrArg _ hbatch) ?_ (fun e he _ => he)
      fun e he heid => ?_
    · rw [hwaiting, hzero, Nat.zero_add]
    · exact absurd (List.mem_singleton.1 he ▸ heid) hid

/-- The callback of the timer may return. A one-shot timer has run then. -/
theorem Followed.callbackReturns {entry : TimerEntry} {expired toReschedule : List TimerEntry}
    (h : Followed ⟨s, l ++ .running entry expired toReschedule :: l'⟩ id request)
    (ho : Owned ⟨s, l ++ .running entry expired toReschedule :: l'⟩)
    (hsched : .scheduled id request ∈ s.history) :
    Followed ⟨s, l ++ .firing expired
      (if entry.kind.isRepeating then toReschedule ++ [entry] else toReschedule) :: l'⟩ id
      request := by
  have hsub : ∀ e ∈ (Call.firing expired
      (if entry.kind.isRepeating then toReschedule ++ [entry] else toReschedule)).localBatch,
      e ∈ (Call.running entry expired toReschedule).localBatch := marked_callbackReturns _ _ _
  have hbefore : occurrences id (Call.running entry expired toReschedule).localBatch =
      occurrences id [entry] + (occurrences id expired + occurrences id toReschedule) := by
    rw [← occurrences_append, ← occurrences_cons]
    rfl
  have hcurrent : ∀ e ∈ (Call.firing expired
      (if entry.kind.isRepeating then toReschedule ++ [entry] else toReschedule)).current,
      e.id = id → e ∈ (Call.running entry expired toReschedule).current := by
    simp [Call.current]
  by_cases hkeep : entry.kind.isRepeating = false ∧ entry.id = id
  · obtain ⟨hkind, rfl⟩ := hkeep
    have hrunning : entry ∈ (Call.running entry expired toReschedule).localBatch :=
      List.mem_cons_self
    have hzero : holders ⟨s, l ++ .firing expired toReschedule :: l'⟩ entry.id = 0 := by
      obtain ⟨hone, hrest, _⟩ := ho.holders_others (occurrences_pos_iff.2 ⟨entry, hrunning, rfl⟩)
      have hself : occurrences entry.id [entry] = 1 := by simp [occurrences]
      have hafter : occurrences entry.id (Call.firing expired toReschedule).localBatch =
          occurrences entry.id expired + occurrences entry.id toReschedule :=
        occurrences_append expired toReschedule
      rw [holders_at, hrest, hafter]
      omega
    simp only [hkind, Bool.false_eq_true, if_false] at hsub hcurrent ⊢
    have hstarted : .started entry.id ∈ s.history :=
      (Machine.forall_threads_at.1 h.begun).1 entry List.mem_cons_self rfl
    have honce : request.isRepeating = false :=
      (Machine.forall_threads_at.1 h.batch).1 entry hrunning rfl ▸ hkind
    refine ⟨h.same, h.live, ?_, fun hr => ?_, ?_,
      fun hr hcancelled => ⟨hzero, (h.dropped hr hcancelled).2⟩, .finished, hzero, hstarted, ?_⟩
    · exact Machine.forall_threads_at.2 ⟨fun e he => (Machine.forall_threads_at.1 h.batch).1 e
        (hsub e he), (Machine.forall_threads_at.1 h.batch).2⟩
    · have hstarts := h.starts hr
      rw [prospects_at] at hstarts ⊢
      exact hstarts
    · exact Machine.forall_threads_at.2 ⟨by simp [Call.current],
        (Machine.forall_threads_at.1 h.begun).2⟩
    · cases request with
      | once delay => exact ⟨delay, hsched⟩
      | repeating interval => cases honce
  · refine h.move rfl (fun _ _ => rfl) ?_ rfl (fun e he _ => hsub e he) hcurrent
    rw [hbefore]
    simp only [Call.localBatch, Call.batch, Call.marked, List.nil_append]
    split
    · rw [occurrences_append, occurrences_append]
      omega
    · rename_i hkind
      have hne : entry.id ≠ id := fun heq => hkeep ⟨by simpa using hkind, heq⟩
      have hzero : occurrences id [entry] = 0 := by simp [occurrences, hne]
      rw [occurrences_append, hzero, Nat.zero_add]

/-- The timer may be re-armed at the end of its tick, or dropped because it was
    cancelled meanwhile. -/
theorem Followed.rearm {toReschedule : List TimerEntry}
    (h : Followed ⟨s, l ++ .firing [] toReschedule :: l'⟩ id request)
    (ho : Owned ⟨s, l ++ .firing [] toReschedule :: l'⟩)
    (hstops : Stops ⟨s, l ++ .firing [] toReschedule :: l'⟩) :
    Followed ⟨{ s with inner := s.inner.rearmAll s.clock toReschedule }, l ++ .done :: l'⟩ id
      request := by
  have hbatch : (Call.firing [] toReschedule).localBatch = toReschedule := rfl
  by_cases hid : id ∈ toReschedule.map TimerEntry.id
  · obtain ⟨e, he, rfl⟩ := List.mem_map.1 hid
    have hrepeating : e.kind.isRepeating := (Machine.forall_threads_at.1 ho.repeating).1 e he
    have hrep : request.isRepeating = true := by
      rw [← (Machine.forall_threads_at.1 h.batch).1 e he rfl]
      exact hrepeating
    have hnot : ¬ request.isRepeating = false := by simp [hrep]
    obtain ⟨_, hrest, hdead⟩ := ho.holders_others (occurrences_pos_iff.2 ⟨e, hbatch ▸ he, rfl⟩)
    have hrearmed : (e.id ∈ s.inner.canceledInFlight ∧
          (s.inner.rearmAll s.clock toReschedule).lookup e.id = none) ∨
        ∃ f, (s.inner.rearmAll s.clock toReschedule).lookup e.id = some f ∧ f.kind.isRepeating := by
      by_cases hnote : e.id ∈ s.inner.canceledInFlight
      · exact .inl ⟨hnote, (WheelInner.rearmAll_lookup_of_canceled ho.nodup_rearm hnote).trans hdead⟩
      · exact .inr (WheelInner.rearmAll_lookup_of_mem ho.nodup_rearm he hnote hrepeating)
    refine ⟨h.same, fun f hf => ?_, ?_, fun hr => absurd hr hnot, ?_, fun hr => absurd hr hnot, ?_⟩
    · rcases hrearmed with ⟨_, hgone⟩ | ⟨g, hg, hkind⟩
      · cases hgone.symm.trans hf
      · cases hg.symm.trans hf
        exact hkind.trans hrep.symm
    · exact Machine.forall_threads_at.2 ⟨by simp [Call.localBatch, Call.batch, Call.marked],
        (Machine.forall_threads_at.1 h.batch).2⟩
    · exact Machine.forall_threads_at.2 ⟨by simp [Call.current],
        (Machine.forall_threads_at.1 h.begun).2⟩
    · rcases hrearmed with ⟨hnote, _⟩ | ⟨g, hg, _⟩
      · refine ⟨.cancelled, ?_, hstops.noted e.id hnote⟩
        rw [holders_at]
        exact hrest
      · exact ⟨.live, by simp [At, hg]⟩
  · have hzero : occurrences id toReschedule = 0 := List.count_eq_zero_of_not_mem hid
    refine h.move (WheelInner.rearmAll_lookup_of_notMem hid) (fun _ _ => rfl) ?_ rfl (by
      simp [Call.localBatch, Call.batch, Call.marked]) (by simp [Call.current])
    rw [hbatch, hzero]
    rfl

/-! ### Calls that enter -/

/-- Calls may enter in what does not concern the timer. -/
theorem Followed.join {s : State} {ts : List Call} (h : Followed s id request)
    (hlookup : s'.inner.lookup id = s.shared.inner.lookup id)
    (hevents : ∀ ev, ev.concerns id → s'.history.count ev = s.shared.history.count ev)
    (hnew : ∀ t ∈ ts, t.localBatch = []) : Followed ⟨s', s.threads ++ ts⟩ id request := by
  have hwaiting : ∀ t ∈ ts, t.waiting = [] := fun t ht =>
    List.subset_nil.1 (hnew t ht ▸ waiting_subset t)
  have hcurrent : ∀ t ∈ ts, t.current = [] := fun t ht =>
    List.subset_nil.1 (hnew t ht ▸ current_subset t)
  have hheld : Machine.total (fun t => occurrences id t.localBatch) ts = 0 :=
    Machine.total_eq_zero fun t ht => by rw [hnew t ht, occurrences_nil]
  have hcoming : Machine.total (fun t => occurrences id t.waiting) ts = 0 :=
    Machine.total_eq_zero fun t ht => by rw [hwaiting t ht, occurrences_nil]
  refine h.keep hlookup hevents ?_ ?_ ?_ ?_
  · simp only [holders, Machine.total_append, hheld, Nat.add_zero]
  · simp only [prospects, Machine.total_append, hlookup, hcoming, Nat.add_zero]
  · intro t ht e he _
    rcases List.mem_append.1 ht with ht | ht
    · exact ⟨t, ht, he⟩
    · rw [hnew t ht] at he
      cases he
  · intro t ht e he _
    rcases List.mem_append.1 ht with ht | ht
    · exact ⟨t, ht, he⟩
    · rw [hcurrent t ht] at he
      cases he

/-- A cancel that finds the timer ends it, at once or when its tick lets go of it. -/
theorem Followed.cancel {s : State} (h : Followed s id request) (ho : Owned s) (hc : Carried s)
    (hfound : (s.shared.inner.cancel id).1 = true) :
    Followed ⟨(enterSerial s.shared (.cancel id)).1, s.threads ++ []⟩ id request := by
  have hgone : (s.shared.inner.cancel id).2.lookup id = none := by
    rw [WheelInner.cancel_lookup, if_pos rfl]
  simp only [enterSerial, enter, List.append_nil, hfound]
  refine ⟨fun request' hr => h.same request' (by simpa using hr), by simp [hgone], h.batch,
    fun hr => ?_, fun t ht e he hid => List.mem_append_left _ (h.begun t ht e he hid),
    fun hr _ => ?_, ?_⟩
  · have hstarts := h.starts hr
    simp only [prospects, hgone, count_started_concat] at hstarts ⊢
    simp only [reduceCtorEq, if_false, Option.isSome_none, Bool.toNat_false]
    omega
  · have hstarts := h.starts hr
    rcases WheelInner.cancel_fst.1 hfound with hlive | hflight
    · refine ⟨ho.holders_of_live hlive, fun hmem => ?_⟩
      have hpos : 0 < s.shared.history.count (.started id) :=
        List.count_pos_iff.2 (by simpa using hmem)
      simp only [prospects, Option.isSome_iff_ne_none.2 hlive, Bool.toNat_true] at hstarts
      omega
    · -- Only repeating timers are in flight.
      obtain ⟨t, ht, e, he, rfl⟩ := hc id hflight
      have hrep := (ho.marked t ht e he).2 hflight
      rw [h.batch t ht e (List.mem_append_right _ he) rfl, hr] at hrep
      cases hrep
  · obtain ⟨stage, hstage⟩ := h.stage
    cases stage with
    | live => exact ⟨.cancelled, ho.holders_of_live hstage, by simp⟩
    | held => exact ⟨.held, hstage⟩
    | finished => exact ⟨.finished, hstage.1, by simpa using hstage.2⟩
    | cancelled => exact ⟨.cancelled, hstage.1, by simp⟩

theorem Followed.enter {s : State} (h : Followed s id request) (ho : Owned s) (hc : Carried s)
    (e : Invocation) :
    Followed ⟨(enterSerial s.shared e).1, s.threads ++ (enterSerial s.shared e).2⟩ id request := by
  cases e with
  | schedule request' =>
    exact h.join rfl (fun _ _ => rfl)
      (by simp [enterSerial, Call.localBatch, Call.batch, Call.marked])
  | cancel i =>
    by_cases hcancel : i = id ∧ (s.shared.inner.cancel i).1 = true
    · obtain ⟨rfl, hfound⟩ := hcancel
      exact h.cancel ho hc hfound
    · refine h.join ?_ (fun ev hev => count_concat ?_ hev)
        (by simp [enterSerial, TimerWheel.enter])
      · simp only [enterSerial, TimerWheel.enter, WheelInner.cancel_lookup]
        split
        · rename_i heq
          subst heq
          by_contra hne
          exact hcancel ⟨rfl, WheelInner.cancel_fst.2 (.inl (Ne.symm hne))⟩
        · rfl
      · exact hcancel
  | tick =>
    exact h.join rfl (fun _ _ => rfl)
      (by simp [enterSerial, TimerWheel.enter, Call.localBatch, Call.batch, Call.marked])
  | timeUntilNext =>
    obtain ⟨earliest, hframe⟩ := s.shared.inner.timeUntilNext_frame s.shared.clock
    refine h.join ?_ (fun _ _ => rfl) (by simp [enterSerial, TimerWheel.enter])
    simp only [enterSerial, TimerWheel.enter, hframe]
    rfl
  | elapse d => exact h.join rfl (fun _ _ => rfl) (by simp [enterSerial, TimerWheel.enter])

/-! ## All timers -/

/-- Every timer that was scheduled is followed. -/
def Census (s : State) : Prop :=
  ∀ id request, .scheduled id request ∈ s.shared.history → Followed s id request

theorem Census.act (h : Census ⟨s, l ++ t :: l'⟩) (hl : Ledger ⟨s, l ++ t :: l'⟩)
    (hr : proceed s t .returns = some (s', t')) : Census ⟨s', l ++ t' :: l'⟩ := by
  intro id request hsched
  cases acts_of_proceed hr with
  | schedule id' request' =>
    rcases List.mem_append.1 hsched with hold | hnew
    · obtain ⟨e, rfl, _, heq⟩ := schedule_eq_insertEntry s.inner id' request' s.clock
      have hne : id ≠ e.id := by
        rintro rfl
        exact (Machine.forall_threads_at.1 hl.fresh.scheduling).1 e.id request' rfl _ hold rfl
      refine (h id request hold).move ?_ (fun ev hev => count_concat (Ne.symm hne) hev) rfl rfl
        (by simp [Call.localBatch, Call.batch, Call.marked]) (by simp [Call.current])
      simp only [heq, WheelInner.insertEntry_lookup, if_neg hne]
    · cases List.mem_singleton.1 hnew
      exact hl.fresh.followed hl.owned rfl rfl
  | advance now =>
    exact (h id request hsched).advance hl.owned hl.stops
      (WheelInner.takes_advanceTo hl.owned.keyed now)
  | noneDue =>
    exact (h id request hsched).move rfl (fun _ _ => rfl) rfl rfl (fun _ he _ => he)
      fun _ he _ => he
  | mark expired =>
    have hbatch : (Call.firing expired []).localBatch = (Call.advanced expired).localBatch := by
      simp [Call.localBatch, Call.batch, Call.marked]
    have hwaiting : (Call.firing expired []).waiting = (Call.advanced expired).waiting := by
      simp [Call.waiting, Call.batch, Call.pending]
    refine (h id request hsched).move ?_ (fun _ _ => rfl) (congrArg _ hbatch)
      (congrArg _ hwaiting) (fun e he _ => hbatch ▸ he) fun _ he _ => he
    rw [WheelInner.markInFlight_eq]
    rfl
  | start entry expired toReschedule =>
    exact (h id request (by simpa using hsched)).start
  | rearm toReschedule => exact (h id request hsched).rearm hl.owned hl.stops
  | callbackReturns entry expired toReschedule =>
    exact (h id request hsched).callbackReturns hl.owned hsched
  | callbackPanics => exact absurd hr not_done_of_returns

theorem Census.enter {s : State} (h : Census s) (hl : Ledger s) (e : Invocation) :
    Census ⟨(enterSerial s.shared e).1, s.threads ++ (enterSerial s.shared e).2⟩ := by
  intro id request hsched
  refine (h id request ?_).enter hl.owned hl.carried e
  cases e with
  | cancel i => simpa [enterSerial, TimerWheel.enter] using hsched
  | schedule => exact hsched
  | tick => exact hsched
  | timeUntilNext => exact hsched
  | elapse => exact hsched

theorem census_of_run {start : Instant} {as : List Step} {s : State}
    (h : Run serial.step Returning (initial start) as s) : Census s := by
  refine Machine.invariant_of_run h (fun _ _ hr => ledger_of_run hr) (by simp [Census, initial]) ?_
    fun x l l' t c y t' hl hinv hok hr => ?_
  · intro x ts e y ts' hl hinv _ he
    have heq : enterSerial x e = (y, ts') := Option.some.inj he
    simpa only [heq] using hinv.enter hl e
  · cases c with
    | panics => exact hok.elim
    | returns => exact hinv.act hl hr

/-- A timer is at one stage only. -/
theorem Followed.stage_unique {s : State} (h : Followed s id request) (ho : Owned s)
    (hstops : Stops s) {a b : Stage} (ha : At s id a) (hb : At s id b) : a = b := by
  have hlive : s.shared.inner.lookup id ≠ none → holders s id = 0 ∧
      (∀ delay, .scheduled id (.once delay) ∈ s.shared.history →
        .started id ∉ s.shared.history) ∧ .cancelled id true ∉ s.shared.history := by
    refine fun hlive => ⟨ho.holders_of_live hlive, fun delay hsched hmem => ?_, fun hmem =>
      hlive (hstops.stopped id hmem).dead⟩
    have hstarts := h.starts (h.same (.once delay) hsched ▸ rfl)
    have hpos := List.count_pos_iff.2 hmem
    simp only [prospects, Option.isSome_iff_ne_none.2 hlive, Bool.toNat_true] at hstarts
    omega
  have hdropped : (∃ delay, .scheduled id (.once delay) ∈ s.shared.history) →
      .cancelled id true ∈ s.shared.history → .started id ∉ s.shared.history :=
    fun ⟨delay, hsched⟩ hmem => (h.dropped (h.same (.once delay) hsched ▸ rfl) hmem).2
  cases a <;> cases b <;> simp only [At] at ha hb <;> grind

/-! ## The result -/

/-- No tick is in progress. -/
def Settled (s : State) : Prop := ∀ t ∈ s.threads, t.isTick = false

theorem Settled.localBatch {s : State} (h : Settled s) (ht : t ∈ s.threads) : t.localBatch = [] := by
  have hidle := h t ht
  cases t with
  | scheduling => rfl
  | done => rfl
  | _ => cases hidle

theorem Settled.holders {s : State} (h : Settled s) (id : TimerId) : holders s id = 0 :=
  Machine.total_eq_zero fun t ht => by rw [h.localBatch ht, occurrences_nil]

theorem count_keys_of_lookup {w : WheelInner} (h : w.lookup id ≠ none) : w.timers.keys.count id = 1 :=
  List.count_eq_one_of_mem w.timers.keys_nodup
    (AList.lookup_isSome.1 (Option.isSome_iff_ne_none.2 h))

/-- In every run whose callbacks return, each timer ever scheduled is at exactly one
    stage of its life and a one-shot timer starts at most once. While no tick is in
    progress a repeating timer that was not cancelled is live, with one entry in the
    map and one in the wheel, and nothing is in flight. -/
theorem timers_conserved {start : Instant} {as : List Step} {s : State}
    (h : Run system.step Returning (initial start) as s) (hids : s.shared.nextId ≤ 2 ^ 64) :
    (∀ id request, .scheduled id request ∈ s.shared.history → ∃! stage, At s id stage) ∧
    (∀ id delay, .scheduled id (.once delay) ∈ s.shared.history →
      s.shared.history.count (.started id) ≤ 1) ∧
    (Settled s → ∀ id interval, .scheduled id (.repeating interval) ∈ s.shared.history →
      .cancelled id true ∉ s.shared.history → s.shared.inner.lookup id ≠ none ∧
        s.shared.inner.timers.keys.count id = 1 ∧ s.shared.inner.queued id = 1) ∧
    s.shared.inner.canceledInFlight ⊆ s.shared.inner.inFlight ∧
    (Settled s → s.shared.inner.inFlight = ∅ ∧ s.shared.inner.canceledInFlight = ∅) := by
  have h := serial_of_run h hids
  have hl := ledger_of_run h
  have hcensus := census_of_run h
  refine ⟨fun id request hsched => ?_, fun id delay hsched => ?_,
    fun hsettled id interval hsched hkept => ?_, hl.owned.canceled, fun hsettled => ?_⟩
  · obtain ⟨stage, hstage⟩ := (hcensus id request hsched).stage
    exact ⟨stage, hstage, fun other hother =>
      (hcensus id request hsched).stage_unique hl.owned hl.stops hother hstage⟩
  · exact Nat.le_of_add_right_le ((hcensus id _ hsched).starts rfl)
  · have hlive : s.shared.inner.lookup id ≠ none := by
      have hfollowed := hcensus id _ hsched
      obtain ⟨stage, hstage⟩ := hfollowed.stage
      cases stage with
      | live => exact hstage
      | held => cases (hsettled.holders id).symm.trans hstage
      | finished =>
        obtain ⟨_, _, delay, honce⟩ := hstage
        cases hfollowed.same _ honce
      | cancelled => exact absurd hstage.2 hkept
    exact ⟨hlive, count_keys_of_lookup hlive, (inLine_of_run h).lined id hlive⟩
  · have hempty : s.shared.inner.inFlight = ∅ := by
      refine Finset.eq_empty_of_forall_notMem fun id hid => ?_
      obtain ⟨t, ht, e, he, _⟩ := hl.carried id hid
      have hmem : e ∈ t.localBatch := List.mem_append_right _ he
      rw [hsettled.localBatch ht] at hmem
      cases hmem
    exact ⟨hempty, Finset.subset_empty.1 (hempty ▸ hl.owned.canceled)⟩

/-- Two ticks overlap. The first one holds a repeating timer, which its callback
    cancels, while the second one fires a one-shot timer. -/
def overlappingTicks : List Step :=
  [.env (.schedule (.repeating (fromMillis 5))), .env (.schedule (.once (fromMillis 20))),
    .act 0 .returns, .act 1 .returns, .env (.elapse (fromMillis 10)), .env .tick, .act 2 .returns,
    .act 2 .returns, .act 2 .returns, .env (.cancel 1), .env (.elapse (fromMillis 15)), .env .tick,
    .act 3 .returns, .act 3 .returns, .act 3 .returns, .act 3 .returns, .act 3 .returns]

theorem timers_conserved_overlapping : ∃ s,
    Run system.step Returning (initial 0) overlappingTicks s ∧
    s.shared.history = [.scheduled 1 (.repeating (fromMillis 5)), .scheduled 2 (.once (fromMillis 20)),
      .started 1, .cancelled 1 true, .started 2] ∧
    (∃! stage, At s 1 stage) ∧ ∃! stage, At s 2 stage := by
  have hend : ∃ s, Run system.step Returning (initial 0) overlappingTicks s ∧
      s.shared.history = [.scheduled 1 (.repeating (fromMillis 5)),
        .scheduled 2 (.once (fromMillis 20)), .started 1, .cancelled 1 true, .started 2] ∧
      s.shared.nextId ≤ 2 ^ 64 := Run.exists_of_exec (by decide +kernel)
  obtain ⟨s, hrun, hhist, hids⟩ := hend
  obtain ⟨hstages, _⟩ := timers_conserved hrun hids
  exact ⟨s, hrun, hhist, hstages 1 _ (by rw [hhist]; exact List.mem_cons_self),
    hstages 2 _ (by rw [hhist]; exact List.mem_cons_of_mem _ List.mem_cons_self)⟩

theorem unhindered_returning : Unhindered Returning where
  schedule _ _ := trivial
  behind pre x ts a h := by
    cases a with
    | env e => trivial
    | act i o => cases o <;> exact h

/-- A repeating timer of 5 ms is live when its id is drawn again, by one of 100 ms: nobody has
    cancelled either, no tick is in progress, and the first one is nowhere, while the id that they
    share has two entries in the wheel. -/
theorem timer_lost_of_wraparound : ∃ as s, Run system.step Returning (initial 0) as s ∧ Settled s ∧
    s.shared.history =
      [.scheduled 1 (.repeating (fromMillis 5)), .scheduled 1 (.repeating (fromMillis 100))] ∧
    s.shared.inner.timers.entries.map Sigma.snd = [⟨1, 100, .repeating (fromMillis 100)⟩] ∧
    s.shared.inner.queued 1 = 2 := by
  obtain ⟨s, hrun, hidle, v, hv, hdone, hhist, hlive, hqueued⟩ : ∃ s,
      Run system.step Returning (initial 0)
        [.env (.schedule (.repeating (fromMillis 5))), .act 0 .returns] s ∧
      (∀ t ∈ s.threads, t.isTick = false) ∧
      ∃ v ∈ exec system.step Returning
          ⟨{ s.shared with nextId := s.shared.nextId + (2 ^ 64 - 1) }, []⟩
          [.env (.schedule (.repeating (fromMillis 100))), .act 0 .returns],
        (∀ t ∈ v.threads, t.isTick = false) ∧
        v.shared.history =
          [.scheduled 1 (.repeating (fromMillis 5)), .scheduled 1 (.repeating (fromMillis 100))] ∧
        v.shared.inner.timers.entries.map Sigma.snd = [⟨1, 100, .repeating (fromMillis 100)⟩] ∧
        v.shared.inner.queued 1 = 2 := Run.exists_of_exec (by decide +kernel)
  obtain ⟨pre, hpre, hafter⟩ := exists_run_after_draws unhindered_returning hrun (2 ^ 64 - 1)
  obtain ⟨as, has⟩ := hafter _ v (Run.of_exec hv)
  refine ⟨as, _, has, fun t ht => ?_, hhist, hlive, hqueued⟩
  rcases List.mem_append.1 ht with ht | ht
  · rcases hpre t ht with ht | ⟨id, request, rfl⟩
    · exact hidle t ht
    · rfl
  · exact hdone t ht

end Census

end TimerWheel